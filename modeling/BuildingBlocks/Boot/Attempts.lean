import BuildingBlocks.Boot.GiveUp

/-!
# BuildingBlocks.Boot.Attempts

How many boots a slot gets before the script gives it up, none of them confirmed.

* `Granted e x n`: the boots of `e` are `n` of the target `x` and then one of another.
* After a confirmed boot, and for a slot reached by fallback, the count is `boot_limit`.
* An environment that says failed keeps a counter of the boots behind the next one: with
  `boot_attempt` at `n` there are `n - 1` of them (`granted_failed`), and an invalid slot becomes
  slot a with `boot_limit - 1` (`granted_invalid`).
-/

namespace BuildingBlocks
namespace Boot

/-- The boots of `e`, none confirmed, are `n` of `x` and then one of another target. -/
def Granted (e : Env) (x : Target) (n : Nat) : Prop :=
  (∀ m, m < n → bootAt e noneOk m = x) ∧ bootAt e noneOk n ≠ x

section Granted

variable {e : Env} {x : Target} {n k : Nat}

theorem Granted.unique (h : Granted e x n) (h' : Granted e x k) : n = k := by
  rcases Nat.lt_trichotomy n k with hlt | heq | hlt
  · exact absurd (h'.1 n hlt) h.2
  · exact heq
  · exact absurd (h.1 k hlt) h'.2

theorem Granted.iff_eq (h : Granted e x n) : Granted e x k ↔ k = n := by
  constructor
  · intro h'
    exact h'.unique h
  · rintro rfl
    exact h

theorem granted_zero (hx : (bootCmd e).2 ≠ x) : Granted e x 0 :=
  ⟨fun m hm => absurd hm (Nat.not_lt_zero m), hx⟩

theorem bootAt_cons (m : Nat) : bootAt e noneOk (m + 1) = bootAt (bootCmd e).1 noneOk m := by
  rw [Nat.add_comm]
  exact bootAt_add m

/-- One boot of `x` in front. -/
theorem Granted.cons (hx : (bootCmd e).2 = x) (h : Granted (bootCmd e).1 x n) :
    Granted e x (n + 1) := by
  refine ⟨?_, ?_⟩
  · intro m hm
    cases m with
    | zero => exact hx
    | succ m =>
      rw [bootAt_cons]
      exact h.1 m (by omega)
  · rw [bootAt_cons]
    exact h.2

/-- The boots are those of any environment the script treats alike. -/
theorem Granted.of_eq {e' : Env} (he : bootCmd e = bootCmd e') (h : Granted e' x n) :
    Granted e x n := by
  have hboots : ∀ m, bootAt e noneOk m = bootAt e' noneOk m := by
    intro m
    cases m with
    | zero => exact congrArg Prod.snd he
    | succ m => rw [bootAt_cons, bootAt_cons, he]
  refine ⟨?_, ?_⟩
  · intro m hm
    rw [hboots]
    exact h.1 m hm
  · rw [hboots]
    exact h.2

/-- A slot whose last boot failed: the counter is decremented before the boot it counts, and the
slot is given up at one. -/
theorem granted_failed (hx : x ≠ .recovery) (hslot : e.bootSlot = x.text)
    (hmode : e.recoveryMode ≠ "1") (hok : e.bootOk = "0") :
    Granted e x (e.bootAttempt - 1).toNat := by
  generalize hk : (e.bootAttempt - 1).toNat = k
  induction k generalizing e with
  | zero =>
    have hb := bootCmd_giveUp hx hslot hmode hok (by omega)
    exact granted_zero (by rw [hb]; exact fallback_ne x)
  | succ k ih =>
    have hb := bootCmd_retry hx hslot hmode hok (by omega)
    refine Granted.cons (by rw [hb]) ?_
    rw [hb]
    exact ih hslot hmode hok (by simp only; omega)

/-- A fresh count is that of a failed boot: this one is the first. -/
theorem granted_fresh (hx : x ≠ .recovery) (hmode : e.recoveryMode ≠ "1") (hL : 1 ≤ e.bootLimit)
    (hb : bootCmd e = ({ e with bootSlot := x.text }.resetAttempts, x)) :
    Granted e x e.bootLimit.toNat := by
  obtain ⟨k, hk⟩ : ∃ k, e.bootLimit.toNat = k + 1 := ⟨e.bootLimit.toNat - 1, by omega⟩
  rw [hk]
  refine Granted.cons (by rw [hb]) ?_
  have hrest := granted_failed (e := ({ e with bootSlot := x.text } : Env).resetAttempts) hx rfl
    hmode rfl
  have hcount : (e.bootLimit - 1).toNat = k := by omega
  rw [hb, ← hcount]
  exact hrest

theorem granted_confirmed (hx : x ≠ .recovery) (hslot : e.bootSlot = x.text)
    (hmode : e.recoveryMode ≠ "1") (hL : 1 ≤ e.bootLimit) (hok : e.bootOk ≠ "0") :
    Granted e x e.bootLimit.toNat := by
  refine granted_fresh hx hmode hL ?_
  rw [bootCmd_confirmed hx hslot hmode hok, ← hslot]

theorem granted_fallback (hx : x ≠ .recovery) (hslot : e.bootSlot = x.text)
    (hmode : e.recoveryMode ≠ "1") (hL : 1 ≤ e.bootLimit) (hok : e.bootOk = "0")
    (hnone : e.bootAttempt ≤ 1) (hy : x.fallback ≠ .recovery) :
    Granted e x.fallback e.bootLimit.toNat :=
  granted_fresh hy hmode hL (bootCmd_giveUp hx hslot hmode hok hnone)

/-- A slot that is neither a nor b is taken for slot a and counted as failed at once. -/
theorem bootCmd_invalid (hslot : e.bootSlot ≠ "a" ∧ e.bootSlot ≠ "b")
    (hmode : e.recoveryMode ≠ "1") :
    bootCmd e = bootCmd { e with bootSlot := "a" }.resetAttempts := by
  simp [bootCmd, forceRecovery, determineSlot, checkBootOk, envLoad, Uboot.envSave,
    Env.resetAttempts, hmode, hslot]

theorem granted_invalid (hslot : e.bootSlot ≠ "a" ∧ e.bootSlot ≠ "b")
    (hmode : e.recoveryMode ≠ "1") : Granted e .a (e.bootLimit - 1).toNat := by
  have hslot' : ({ e with bootSlot := "a" } : Env).resetAttempts.bootSlot = Target.a.text := rfl
  have hattempt : ({ e with bootSlot := "a" } : Env).resetAttempts.bootAttempt = e.bootLimit := rfl
  have hgranted := granted_failed (by decide) hslot' hmode rfl
  rw [hattempt] at hgranted
  exact hgranted.of_eq (bootCmd_invalid hslot hmode)

/-! ## The selected slot -/

/-- The slot the script selects: `boot_slot`, or slot a when it is no slot. -/
def selected (e : Env) : Slot := if e.bootSlot = "b" then .b else .a

/-- `boot_limit` attempts: the slot is one, and it was confirmed or the counter is one above. -/
def Enough (bootSlot bootOk : String) (bootAttempt bootLimit : Int) : Prop :=
  (bootSlot = "a" ∨ bootSlot = "b") ∧ (bootOk ≠ "0" ∨ bootAttempt = bootLimit + 1)

instance (bootSlot bootOk : String) (bootAttempt bootLimit : Int) :
    Decidable (Enough bootSlot bootOk bootAttempt bootLimit) :=
  inferInstanceAs (Decidable (_ ∧ _))

/-- Which environments give the selected slot `boot_limit` boots. -/
theorem granted_limit_iff (hmode : e.recoveryMode ≠ "1") (hL : 1 ≤ e.bootLimit) :
    Granted e (selected e).target e.bootLimit.toNat ↔
      Enough e.bootSlot e.bootOk e.bootAttempt e.bootLimit := by
  by_cases hslot : e.bootSlot = "a" ∨ e.bootSlot = "b"
  · have htext : e.bootSlot = (selected e).target.text := by
      rcases hslot with h | h <;> simp [selected, h, Slot.target, Target.text]
    have hx := slot_target_ne_recovery (selected e)
    by_cases hok : e.bootOk = "0"
    · rw [(granted_failed hx htext hmode hok).iff_eq]
      have hcount : e.bootLimit.toNat = (e.bootAttempt - 1).toNat ↔
          e.bootAttempt = e.bootLimit + 1 := by omega
      rw [hcount, Enough]
      simp only [hslot, hok, ne_eq, not_true_eq_false, false_or, true_and]
    · exact iff_of_true (granted_confirmed hx htext hmode hL hok) ⟨hslot, Or.inl hok⟩
  · have hinvalid := not_or.mp hslot
    have hslot' : selected e = .a := if_neg hinvalid.2
    have hgranted := granted_invalid hinvalid hmode
    rw [hslot', show Slot.a.target = Target.a from rfl, hgranted.iff_eq]
    refine iff_of_false (by omega) (fun h => hslot h.1)

end Granted

end Boot
end BuildingBlocks
