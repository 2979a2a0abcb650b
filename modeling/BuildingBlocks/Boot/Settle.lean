import BuildingBlocks.Boot.Attempts
import BuildingBlocks.Lib.Liveness

/-!
# BuildingBlocks.Boot.Settle

Where the boot script ends up, from any environment whose `recovery_mode` is not 1.

* `distance t e` is the number of boots before the first one of `t`, when none of them is confirmed.
* `settles_iff` — a device with one slot that works ends up in it and stays, for exactly the limits
  that leave slot a a boot after recovery.
* `cycles` — a device on which nothing works boots recovery once in every `2 * boot_limit` boots,
  for limits of at least one.
-/

namespace BuildingBlocks
namespace Boot

open Lib

/-! ## The boots that are left -/

/-- The boots a slot gets when it is entered anew. -/
def fresh (e : Env) : Nat := (e.bootLimit - 1).toNat + 1

/-- The boots left of the slot in `boot_slot`. -/
def left (e : Env) : Nat := if e.bootOk = "0" then (e.bootAttempt - 1).toNat else fresh e

/-- The boots before the first one of the target, none of them confirmed. An invalid slot is taken
for slot a with one attempt used. -/
def distance (e : Env) : Target → Nat
  | .a =>
    if e.bootSlot = "a" then (if left e = 0 then fresh e + 1 else 0)
    else if e.bootSlot = "b" then left e + 1
    else 0
  | .b =>
    if e.bootSlot = "a" then left e
    else if e.bootSlot = "b" then (if left e = 0 then fresh e else 0)
    else (e.bootLimit - 1).toNat
  | .recovery =>
    if e.bootSlot = "a" then left e + fresh e
    else if e.bootSlot = "b" then left e
    else (e.bootLimit - 1).toNat + fresh e

section Step

variable {e : Env} {x t : Target}

theorem left_confirmed (hok : e.bootOk ≠ "0") : left e = fresh e := if_neg hok

theorem left_failed (hok : e.bootOk = "0") : left e = (e.bootAttempt - 1).toNat := if_pos hok

/-- A boot of the slot in `boot_slot`, as long as there are any left; then one of the fallback. -/
theorem bootCmd_valid (hx : x ≠ .recovery) (hslot : e.bootSlot = x.text)
    (hmode : e.recoveryMode ≠ "1") :
    (0 < left e → (bootCmd e).2 = x ∧ (bootCmd e).1.bootSlot = x.text ∧
        (bootCmd e).1.bootOk = "0" ∧ ((bootCmd e).1.bootAttempt - 1).toNat = left e - 1) ∧
      (left e = 0 → bootCmd e = ({ e with bootSlot := x.fallback.text }.resetAttempts,
        x.fallback)) := by
  by_cases hok : e.bootOk = "0"
  · rw [left_failed hok]
    refine ⟨?_, ?_⟩
    · intro hpos
      rw [bootCmd_retry hx hslot hmode hok (by omega)]
      exact ⟨rfl, hslot, hok, by simp only; omega⟩
    · intro hzero
      exact bootCmd_giveUp hx hslot hmode hok (by omega)
  · rw [left_confirmed hok, bootCmd_confirmed hx hslot hmode hok]
    refine ⟨?_, fun hzero => ?_⟩
    · intro _
      exact ⟨rfl, hslot, rfl, by simp only [Env.resetAttempts, fresh]; omega⟩
    · exact absurd hzero (Nat.succ_ne_zero _)

/-- The boot of an invalid slot: slot a with one attempt used, or slot b when that was the last. -/
theorem bootCmd_invalid_eq (hslot : e.bootSlot ≠ "a" ∧ e.bootSlot ≠ "b")
    (hmode : e.recoveryMode ≠ "1") :
    bootCmd e = if e.bootLimit ≤ 1 then ({ e with bootSlot := "b" }.resetAttempts, .b)
      else ({ e with
        bootSlot := "a"
        bootOk := "0"
        bootAttempt := e.bootLimit - 1 }, .a) := by
  rw [bootCmd_invalid hslot hmode]
  split_ifs with hlim
  · exact bootCmd_giveUp (x := .a) (by decide) rfl hmode rfl hlim
  · exact bootCmd_retry (x := .a) (by decide) rfl hmode rfl (not_le.mp hlim)

/-- After recovery slot a is booted only when the limit leaves it an attempt. -/
def Reaches (limit : Int) (t : Target) : Prop := t = .a → 2 ≤ limit

theorem fresh_bootCmd (e : Env) : fresh (bootCmd e).1 = fresh e := by
  rw [fresh, fresh, bootCmd_bootLimit]

theorem left_resetAttempts (e : Env) : left e.resetAttempts + 1 = fresh e := by
  rw [left_failed rfl]
  rfl

/-- One boot from slot a. -/
theorem distance_step_a (hslot : e.bootSlot = "a") (hmode : e.recoveryMode ≠ "1") :
    (distance e t = 0 → (bootCmd e).2 = t) ∧
      (0 < distance e t → (bootCmd e).2 ≠ t ∧ distance (bootCmd e).1 t = distance e t - 1) := by
  obtain ⟨hkeep, hgive⟩ := bootCmd_valid (x := .a) (by decide) hslot hmode
  have hfresh := fresh_bootCmd e
  rcases Nat.eq_zero_or_pos (left e) with hzero | hpos
  · have hleft : left (bootCmd e).1 + 1 = fresh e := by
      rw [hgive hzero]
      exact left_resetAttempts _
    have hslot' : (bootCmd e).1.bootSlot = "b" := by
      rw [hgive hzero]
      rfl
    have htarget : (bootCmd e).2 = .b := by
      rw [hgive hzero]
      rfl
    rw [htarget]
    cases t with
    | a => simp [distance, hslot, hslot', hzero, hleft]
    | b => simp [distance, hslot, hzero]
    | recovery =>
      simp only [distance, hslot, hslot', hzero, if_true]
      simp
      omega
  · obtain ⟨htarget, hslot', hok, hattempt⟩ := hkeep hpos
    have hleft : left (bootCmd e).1 = left e - 1 := by rw [left_failed hok, hattempt]
    rw [htarget]
    cases t with
    | a => simp [distance, hslot, hpos.ne']
    | b =>
      simp only [distance, hslot, hslot', Target.text, hleft, if_true]
      simp
      omega
    | recovery =>
      simp only [distance, hslot, hslot', Target.text, hleft, hfresh, if_true]
      simp
      omega

/-- One boot from slot b. -/
theorem distance_step_b (hslot : e.bootSlot = "b") (hmode : e.recoveryMode ≠ "1") :
    (distance e t = 0 → (bootCmd e).2 = t) ∧
      (0 < distance e t → (bootCmd e).2 ≠ t ∧ distance (bootCmd e).1 t = distance e t - 1) := by
  obtain ⟨hkeep, hgive⟩ := bootCmd_valid (x := .b) (by decide) hslot hmode
  rcases Nat.eq_zero_or_pos (left e) with hzero | hpos
  · have hlim : (bootCmd e).1.bootLimit = e.bootLimit := bootCmd_bootLimit e
    have hslot' : (bootCmd e).1.bootSlot = "recovery" := by
      rw [hgive hzero]
      rfl
    have htarget : (bootCmd e).2 = .recovery := by
      rw [hgive hzero]
      rfl
    rw [htarget]
    cases t with
    | a => simp [distance, hslot, hslot', hzero]
    | b =>
      simp only [distance, hslot, hslot', hzero, hlim, fresh, if_true]
      simp
    | recovery => simp [distance, hslot, hzero]
  · obtain ⟨htarget, hslot', hok, hattempt⟩ := hkeep hpos
    have hleft : left (bootCmd e).1 = left e - 1 := by rw [left_failed hok, hattempt]
    rw [htarget]
    cases t with
    | a =>
      simp only [distance, hslot, hslot', Target.text, hleft]
      simp
      omega
    | b => simp [distance, hslot, hpos.ne']
    | recovery =>
      simp only [distance, hslot, hslot', Target.text, hleft]
      simp
      omega

/-- One boot from an invalid slot. -/
theorem distance_step_invalid (hslot : e.bootSlot ≠ "a" ∧ e.bootSlot ≠ "b")
    (hmode : e.recoveryMode ≠ "1") (hreach : Reaches e.bootLimit t) :
    (distance e t = 0 → (bootCmd e).2 = t) ∧
      (0 < distance e t → (bootCmd e).2 ≠ t ∧ distance (bootCmd e).1 t = distance e t - 1) := by
  have hb := bootCmd_invalid_eq hslot hmode
  split_ifs at hb with hlim
  · have hone : (e.bootLimit - 1).toNat = 0 := by omega
    have hleft : left ({ e with bootSlot := "b" } : Env).resetAttempts = 0 := hone
    rw [hb]
    cases t with
    | a => exact absurd (hreach rfl) (by omega)
    | b => simp [distance, hslot, hone]
    | recovery =>
      simp only [distance, hslot, hone, if_false]
      simp [Env.resetAttempts, fresh, hone]
      exact hleft
  · have hleft : left ({ e with
        bootSlot := "a"
        bootOk := "0"
        bootAttempt := e.bootLimit - 1 } : Env) = (e.bootLimit - 1).toNat - 1 := by
      rw [left_failed rfl]
      show (e.bootLimit - 1 - 1).toNat = (e.bootLimit - 1).toNat - 1
      omega
    rw [hb]
    cases t with
    | a => simp [distance, hslot]
    | b =>
      simp only [distance, hslot, hleft, if_true, if_false]
      simp
      omega
    | recovery =>
      simp only [distance, hslot, hleft, if_true, if_false]
      simp [fresh]
      omega

theorem distance_step (hmode : e.recoveryMode ≠ "1") (hreach : Reaches e.bootLimit t) :
    (distance e t = 0 → (bootCmd e).2 = t) ∧
      (0 < distance e t → (bootCmd e).2 ≠ t ∧ distance (bootCmd e).1 t = distance e t - 1) := by
  by_cases ha : e.bootSlot = "a"
  · exact distance_step_a ha hmode
  · by_cases hb : e.bootSlot = "b"
    · exact distance_step_b hb hmode
    · exact distance_step_invalid ⟨ha, hb⟩ hmode hreach

theorem bootCmd_eq_iff (hmode : e.recoveryMode ≠ "1") (hreach : Reaches e.bootLimit t) :
    (bootCmd e).2 = t ↔ distance e t = 0 := by
  obtain ⟨hhere, haway⟩ := distance_step hmode hreach
  refine ⟨fun h => ?_, hhere⟩
  by_contra hne
  exact (haway (Nat.pos_of_ne_zero hne)).1 h

/-- What is booted is what the script leaves in `boot_slot`. -/
theorem bootCmd_bootSlot (hmode : e.recoveryMode ≠ "1") :
    (bootCmd e).1.bootSlot = (bootCmd e).2.text := by
  have hvalid : ∀ x : Target, x ≠ .recovery → e.bootSlot = x.text →
      (bootCmd e).1.bootSlot = (bootCmd e).2.text := by
    intro x hx hslot
    obtain ⟨hkeep, hgive⟩ := bootCmd_valid hx hslot hmode
    rcases Nat.eq_zero_or_pos (left e) with hzero | hpos
    · rw [hgive hzero]
      rfl
    · obtain ⟨htarget, hslot', -⟩ := hkeep hpos
      rw [htarget, hslot']
  by_cases ha : e.bootSlot = "a"
  · exact hvalid .a (by decide) ha
  · by_cases hb : e.bootSlot = "b"
    · exact hvalid .b (by decide) hb
    · rw [bootCmd_invalid_eq ⟨ha, hb⟩ hmode]
      split_ifs <;> rfl

/-- A confirmed boot of a slot is followed by another one. -/
theorem distance_confirm (hmode : e.recoveryMode ≠ "1") {s : Slot}
    (h : (bootCmd e).2 = s.target) : distance (bootCmd e).1.confirm s.target = 0 := by
  have hslot : (bootCmd e).1.confirm.bootSlot = s.text := by
    show (bootCmd e).1.bootSlot = s.text
    rw [bootCmd_bootSlot hmode, h, slot_target_text]
  have hleft : left (bootCmd e).1.confirm ≠ 0 := by
    rw [left_confirmed (by simp [Env.confirm])]
    exact Nat.succ_ne_zero _
  cases s with
  | a => simp [distance, Slot.target, hslot, Slot.text, hleft]
  | b => simp [distance, Slot.target, hslot, Slot.text, hleft]

/-- However the device starts, the boots before the target are bounded. -/
theorem distance_slot_le (e : Env) (s : Slot) :
    distance e s.target ≤ max e.bootAttempt.toNat (fresh e + 1) := by
  have hleft : left e ≤ max (e.bootAttempt - 1).toNat (fresh e) := by
    unfold left
    split_ifs
    · exact le_max_left _ _
    · exact le_max_right _ _
  have hlim : (e.bootLimit - 1).toNat ≤ fresh e := Nat.le_succ _
  cases s <;> simp only [Slot.target, distance] <;> split_ifs <;> omega

end Step

/-! ## A device with one slot that works -/

/-- In the run with `ok`, the boots of slot `s` are confirmed and no others. -/
def OnlyWorks (e : Env) (s : Slot) (ok : Nat → Bool) : Prop :=
  ∀ n, ok n = true ↔ bootAt e ok n = s.target

/-- The environments of that run. -/
def envWorks (e : Env) (s : Slot) : Nat → Env
  | 0 => e
  | n + 1 =>
    let b := bootCmd (envWorks e s n)
    if b.2 = s.target then b.1.confirm else b.1

section Settle

variable {e : Env} {s : Slot} {ok : Nat → Bool}

/-- There is one for every environment and slot. -/
theorem exists_onlyWorks (e : Env) (s : Slot) : ∃ ok, OnlyWorks e s ok := by
  let ok : Nat → Bool := fun n => decide ((bootCmd (envWorks e s n)).2 = s.target)
  have henv : ∀ n, envAt e ok n = envWorks e s n := by
    intro n
    induction n with
    | zero => rfl
    | succ n ih =>
      rw [envAt, envWorks, ih]
      simp only [ok, decide_eq_true_eq]
  refine ⟨ok, fun n => ?_⟩
  rw [bootAt, henv n]
  exact decide_eq_true_iff

theorem distance_succ (hmode : e.recoveryMode ≠ "1") (hreach : Reaches e.bootLimit s.target)
    (hworks : OnlyWorks e s ok) (n : Nat) :
    distance (envAt e ok (n + 1)) s.target = distance (envAt e ok n) s.target - 1 := by
  have hmode' : (envAt e ok n).recoveryMode ≠ "1" := by simpa using hmode
  have hreach' : Reaches (envAt e ok n).bootLimit s.target := by simpa using hreach
  have hboot := bootCmd_eq_iff hmode' hreach'
  show distance (if ok n then (bootCmd (envAt e ok n)).1.confirm else (bootCmd (envAt e ok n)).1)
    s.target = _
  cases hok : ok n with
  | true =>
    have hbooted := (hworks n).mp hok
    rw [if_pos rfl, hboot.mp hbooted]
    exact distance_confirm hmode' hbooted
  | false =>
    have haway : (bootCmd (envAt e ok n)).2 ≠ s.target := by
      intro hbooted
      rw [(hworks n).mpr hbooted] at hok
      cases hok
    rw [if_neg Bool.false_ne_true]
    exact ((distance_step hmode' hreach').2 (Nat.pos_of_ne_zero (fun h => haway (hboot.mpr h)))).2

/-- The slot that works is booted exactly from its first boot on. -/
theorem bootAt_eq_iff (hmode : e.recoveryMode ≠ "1") (hreach : Reaches e.bootLimit s.target)
    (hworks : OnlyWorks e s ok) (n : Nat) :
    bootAt e ok n = s.target ↔ distance e s.target ≤ n := by
  have hmode' : (envAt e ok n).recoveryMode ≠ "1" := by simpa using hmode
  have hreach' : Reaches (envAt e ok n).bootLimit s.target := by simpa using hreach
  have hfall := countdown (f := fun e => distance e s.target) (distance_succ hmode hreach hworks) n
  rw [bootAt, bootCmd_eq_iff hmode' hreach', hfall]
  exact Nat.sub_eq_zero_iff_le

theorem bootCmd_slot_b (hslot : e.bootSlot = "b") (hmode : e.recoveryMode ≠ "1") :
    (bootCmd e).2 ≠ .a := by
  obtain ⟨hkeep, hgive⟩ := bootCmd_valid (x := .b) (by decide) hslot hmode
  rcases Nat.eq_zero_or_pos (left e) with hzero | hpos
  · rw [hgive hzero]
    exact Target.noConfusion
  · rw [(hkeep hpos).1]
    exact Target.noConfusion

/-- With a limit of one attempt or none, recovery is followed by slot b. -/
theorem bootCmd_ne_a (hlim : e.bootLimit ≤ 1) (hslot : e.bootSlot ≠ "a")
    (hmode : e.recoveryMode ≠ "1") : (bootCmd e).2 ≠ .a := by
  by_cases hb : e.bootSlot = "b"
  · exact bootCmd_slot_b hb hmode
  · rw [bootCmd_invalid_eq ⟨hslot, hb⟩ hmode, if_pos hlim]
    exact Target.noConfusion

theorem envAt_ne_a (hlim : e.bootLimit ≤ 1) (hslot : e.bootSlot ≠ "a")
    (hmode : e.recoveryMode ≠ "1") (n : Nat) : (envAt e ok n).bootSlot ≠ "a" := by
  induction n with
  | zero => exact hslot
  | succ n ih =>
    have hmode' : (envAt e ok n).recoveryMode ≠ "1" := by simpa using hmode
    have hnext : (bootCmd (envAt e ok n)).1.bootSlot ≠ "a" := by
      have hne := bootCmd_ne_a (by simpa using hlim) ih hmode'
      rw [bootCmd_bootSlot hmode']
      cases ht : (bootCmd (envAt e ok n)).2 with
      | a => exact absurd ht hne
      | b => decide
      | recovery => decide
    show (if ok n then (bootCmd (envAt e ok n)).1.confirm else (bootCmd (envAt e ok n)).1).bootSlot
      ≠ "a"
    split_ifs
    · exact hnext
    · exact hnext

theorem settles (hlim : 2 ≤ e.bootLimit ∨ s = .b) (hmode : e.recoveryMode ≠ "1")
    (hworks : OnlyWorks e s ok) {n : Nat} (hn : max e.bootAttempt.toNat (fresh e + 1) ≤ n) :
    bootAt e ok n = s.target := by
  have hreach : Reaches e.bootLimit s.target := by
    intro hs
    rcases hlim with h | rfl
    · exact h
    · exact absurd hs (by decide)
  exact (bootAt_eq_iff hmode hreach hworks n).mpr ((distance_slot_le e s).trans hn)

end Settle

/-- **A device with one slot that works finds it.** For exactly the limits that leave slot a an
attempt after recovery, or the other slot: from every environment whose `recovery_mode` is not 1,
when the boots of the slot are confirmed and no others, from a bounded number of boots on the device
boots that slot. -/
theorem settles_iff (limit : Int) (s : Slot) :
    (∀ e ok, e.bootLimit = limit → e.recoveryMode ≠ "1" → OnlyWorks e s ok →
        ∀ n, max e.bootAttempt.toNat (fresh e + 1) ≤ n → bootAt e ok n = s.target) ↔
      2 ≤ limit ∨ s = .b := by
  constructor
  · intro hsettles
    by_contra hneither
    obtain ⟨hlim, hs⟩ := not_or.mp hneither
    obtain rfl : s = .a := by
      cases s with
      | a => rfl
      | b => exact absurd rfl hs
    -- slot b fails for ever, and slot a is never tried
    let e : Env :=
      { bootSlot := "b", bootAttempt := limit, bootOk := "0", bootLimit := limit,
        recoveryMode := "0" }
    have hnever : ∀ n, bootAt e noneOk n ≠ .a := by
      intro n
      have hmode : (envAt e noneOk n).recoveryMode ≠ "1" := by
        rw [envAt_recoveryMode]
        show "0" ≠ "1"
        decide
      refine bootCmd_ne_a ?_ ?_ hmode
      · rw [envAt_bootLimit]
        show limit ≤ 1
        omega
      · refine envAt_ne_a ?_ ?_ ?_ n
        · show limit ≤ 1
          omega
        · show "b" ≠ "a"
          decide
        · show "0" ≠ "1"
          decide
    refine hnever _ (hsettles e noneOk rfl ?_ ?_ _ le_rfl)
    · show "0" ≠ "1"
      decide
    · intro n
      exact iff_of_false Bool.false_ne_true (hnever n)
  · intro hlim e ok hL hmode hworks n hn
    exact settles (by rwa [hL]) hmode hworks hn

/-! ## A device on which nothing works -/

/-- The boots from one recovery to the next, `f` the attempts of a slot. -/
def cycle (f j : Nat) : Target :=
  if j = 0 then .recovery else if j < f then .a else .b

section Cycle

variable {e : Env} {t : Target} {n : Nat}

theorem fresh_envAt (ok : Nat → Bool) (n : Nat) : fresh (envAt e ok n) = fresh e := by
  rw [fresh, fresh, envAt_bootLimit]

/-- None confirmed, each boot is one less before the target, up to its first one. -/
theorem distance_noneOk (hmode : e.recoveryMode ≠ "1") (hreach : Reaches e.bootLimit t)
    (hn : n ≤ distance e t) : distance (envAt e noneOk n) t = distance e t - n := by
  induction n with
  | zero => rfl
  | succ n ih =>
    have hmode' : (envAt e noneOk n).recoveryMode ≠ "1" := by simpa using hmode
    have hreach' : Reaches (envAt e noneOk n).bootLimit t := by simpa using hreach
    have hd := ih (Nat.le_of_succ_le hn)
    have hstep := ((distance_step hmode' hreach').2 (by omega)).2
    show distance (bootCmd (envAt e noneOk n)).1 t = _
    rw [hstep, hd, Nat.sub_sub]

theorem bootAt_first_iff (hmode : e.recoveryMode ≠ "1") (hreach : Reaches e.bootLimit t)
    (hn : n ≤ distance e t) : bootAt e noneOk n = t ↔ n = distance e t := by
  have hmode' : (envAt e noneOk n).recoveryMode ≠ "1" := by simpa using hmode
  have hreach' : Reaches (envAt e noneOk n).bootLimit t := by simpa using hreach
  rw [bootAt, bootCmd_eq_iff hmode' hreach', distance_noneOk hmode hreach hn]
  omega

theorem reaches_recovery (limit : Int) : Reaches limit .recovery := fun h => nomatch h

theorem reaches_b (limit : Int) : Reaches limit .b := fun h => nomatch h

/-- What a boot leaves in `boot_slot`, none confirmed. -/
theorem envAt_succ_slot (hmode : e.recoveryMode ≠ "1") (n : Nat) :
    (envAt e noneOk (n + 1)).bootSlot = (bootAt e noneOk n).text :=
  bootCmd_bootSlot (by simpa using hmode)

/-- The boots from an invalid slot on, up to recovery. -/
theorem bootAt_invalid (hslot : e.bootSlot ≠ "a" ∧ e.bootSlot ≠ "b")
    (hmode : e.recoveryMode ≠ "1") (hn : n + 1 < 2 * fresh e) :
    bootAt e noneOk n = if n + 1 < fresh e then .a else .b := by
  have hrec : distance e .recovery = (e.bootLimit - 1).toNat + fresh e := by
    simp [distance, hslot]
  have hb : distance e .b = (e.bootLimit - 1).toNat := by simp [distance, hslot]
  have hfresh : fresh e = (e.bootLimit - 1).toNat + 1 := rfl
  have hnot : ∀ m, m + 1 < 2 * fresh e → bootAt e noneOk m ≠ .recovery := by
    intro m hm h
    have hm' := (bootAt_first_iff hmode (reaches_recovery _) (by omega)).mp h
    omega
  rcases Nat.lt_or_ge (n + 1) (fresh e) with hlt | hge
  · rw [if_pos hlt]
    have hnotb : bootAt e noneOk n ≠ .b := by
      intro h
      have hn' := (bootAt_first_iff hmode (reaches_b _) (by omega)).mp h
      omega
    cases ht : bootAt e noneOk n with
    | a => rfl
    | b => exact absurd ht hnotb
    | recovery => exact absurd ht (hnot n hn)
  · rw [if_neg (Nat.not_lt.mpr hge)]
    induction n, (show distance e .b ≤ n by omega) using Nat.le_induction with
    | base => exact (bootAt_first_iff hmode (reaches_b _) le_rfl).mpr rfl
    | succ n hle ih =>
      have hprev := ih (by omega) (by omega)
      have hslot' : (envAt e noneOk (n + 1)).bootSlot = "b" := by
        rw [envAt_succ_slot hmode, hprev]
        rfl
      have hne := bootCmd_slot_b hslot' (by simpa using hmode)
      cases ht : bootAt e noneOk (n + 1) with
      | a => exact absurd ht hne
      | b => rfl
      | recovery => exact absurd ht (hnot (n + 1) hn)

/-- The last boot of a round is of recovery. -/
theorem bootAt_last (hslot : e.bootSlot ≠ "a" ∧ e.bootSlot ≠ "b") (hmode : e.recoveryMode ≠ "1") :
    bootAt e noneOk (2 * fresh e - 1) = .recovery := by
  have hrec : distance e .recovery = (e.bootLimit - 1).toNat + fresh e := by
    simp [distance, hslot]
  have hfresh : fresh e = (e.bootLimit - 1).toNat + 1 := rfl
  exact (bootAt_first_iff hmode (reaches_recovery _) (by omega)).mpr (by omega)

/-- From an invalid slot on the boots are those of the cycle. -/
theorem bootAt_cycle (hslot : e.bootSlot ≠ "a" ∧ e.bootSlot ≠ "b")
    (hmode : e.recoveryMode ≠ "1") (n : Nat) :
    bootAt e noneOk n = cycle (fresh e) ((n + 1) % (2 * fresh e)) := by
  induction n using Nat.strong_induction_on generalizing e with
  | _ n ih =>
    have hpos : 0 < fresh e := Nat.succ_pos _
    rcases Nat.lt_trichotomy (n + 1) (2 * fresh e) with hlt | heq | hgt
    · rw [bootAt_invalid hslot hmode hlt, Nat.mod_eq_of_lt hlt, cycle, if_neg (Nat.succ_ne_zero n)]
    · have hn : n = 2 * fresh e - 1 := by omega
      rw [heq, Nat.mod_self, hn, bootAt_last hslot hmode]
      rfl
    · -- the next round starts from the environment that recovery leaves
      obtain ⟨k, rfl⟩ : ∃ k, n = 2 * fresh e + k := ⟨n - 2 * fresh e, by omega⟩
      have hslot' : (envAt e noneOk (2 * fresh e)).bootSlot = "recovery" := by
        have h := envAt_succ_slot hmode (2 * fresh e - 1)
        rw [bootAt_last hslot hmode, Nat.sub_add_cancel (by omega)] at h
        exact h
      have hinvalid : (envAt e noneOk (2 * fresh e)).bootSlot ≠ "a" ∧
          (envAt e noneOk (2 * fresh e)).bootSlot ≠ "b" := by
        rw [hslot']
        decide
      have hround := ih k (by omega) hinvalid (by simpa using hmode)
      have hmod : (2 * fresh e + k + 1) % (2 * fresh e) = (k + 1) % (2 * fresh e) := by
        rw [Nat.add_assoc, Nat.add_mod_left]
      rw [fresh_envAt] at hround
      rw [bootAt_add, hmod]
      exact hround

end Cycle

/-- **A device on which nothing works keeps coming back to recovery.** From every environment whose
`recovery_mode` is not 1, when no boot is confirmed: after a bounded number of boots the device
boots recovery, and from then on the boots repeat, recovery once, slot a with one attempt less than
slot b, and slot b with all of them. A slot has `boot_limit` attempts, and one where the limit is
less. -/
theorem cycles (e : Env) (hmode : e.recoveryMode ≠ "1") :
    ∃ n, n ≤ max e.bootAttempt.toNat (fresh e) + fresh e ∧
      ∀ i, bootAt e noneOk (n + i) = cycle (fresh e) (i % (2 * fresh e)) := by
  have hleft : left e ≤ max e.bootAttempt.toNat (fresh e) := by
    unfold left
    split_ifs
    · exact le_max_of_le_left (by omega)
    · exact le_max_right _ _
  have hfresh : fresh e = (e.bootLimit - 1).toNat + 1 := rfl
  have hfirst := (bootAt_first_iff hmode (reaches_recovery _) (n := distance e .recovery)
    le_rfl).mpr rfl
  refine ⟨distance e .recovery, ?_, ?_⟩
  · simp only [distance]
    split_ifs <;> omega
  · intro i
    cases i with
    | zero => simpa [cycle] using hfirst
    | succ i =>
      have hslot : (envAt e noneOk (distance e .recovery + 1)).bootSlot = "recovery" := by
        rw [envAt_succ_slot hmode, hfirst]
        rfl
      have hinvalid : (envAt e noneOk (distance e .recovery + 1)).bootSlot ≠ "a" ∧
          (envAt e noneOk (distance e .recovery + 1)).bootSlot ≠ "b" := by
        rw [hslot]
        decide
      have hround := bootAt_cycle hinvalid (by simpa using hmode) i
      rw [fresh_envAt] at hround
      rw [← hround, show distance e .recovery + (i + 1) = distance e .recovery + 1 + i by omega,
        bootAt_add]

theorem cycles_default :
    ∃ n, n ≤ 6 ∧ ∀ i, bootAt Env.default noneOk (n + i) = cycle 3 (i % 6) :=
  cycles Env.default (by decide)

end Boot
end BuildingBlocks
