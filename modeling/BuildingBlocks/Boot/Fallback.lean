import BuildingBlocks.Boot.Script
import BuildingBlocks.Lib.Failover

/-!
# BuildingBlocks.Boot.Fallback

The slot selection of `boot.cmd` refines the failover policy over a, b, recovery.

* `Tracks` relates the environment a boot leaves to the policy before that boot: `boot_attempt` is
  the limit less the failures in a row.
* `bootAt_tracks` keeps it from boot to boot until recovery is booted.
* `fallback_exact` reads the law of the policy off for the script.
-/

namespace BuildingBlocks
namespace Boot

open Failover

/-- `e` is left by a boot of `p.unit` that follows `p.streak` failed boots of it in a row. -/
structure Tracks (L : Nat) (e : Env) (p : Policy Target) : Prop where
  slot : e.bootSlot = p.unit.text
  attempt : e.bootAttempt = L - p.streak
  ok : e.bootOk = "0"
  limit : e.bootLimit = L
  mode : e.recoveryMode ≠ "1"

abbrev policyAt (L : Nat) (ok : Nat → Bool) (s : Slot) (n : Nat) : Policy Target :=
  runAt Target.fallback L ok s.target n

theorem Tracks.step {L : Nat} {e : Env} {p : Policy Target} (h : Tracks L e p)
    (hx : p.unit ≠ .recovery) (ok : Bool) :
    (bootCmd (if ok then e.confirm else e)).2 = (p.step Target.fallback L ok).unit ∧
      Tracks L (bootCmd (if ok then e.confirm else e)).1 (p.step Target.fallback L ok) := by
  obtain ⟨hslot, hattempt, hok, hlimit, hmode⟩ := h
  cases ok with
  | true =>
    have hb := bootCmd_confirmed (e := e.confirm) hx hslot hmode (by simp [Env.confirm])
    simp only [if_true, hb, step_ok]
    exact ⟨trivial, hslot, by simp [Env.resetAttempts, Env.confirm, hlimit], rfl, hlimit, hmode⟩
  | false =>
    rcases Nat.lt_or_ge (p.streak + 1) L with hs | hs
    · have hb := bootCmd_retry hx hslot hmode hok (by omega)
      simp only [Bool.false_eq_true, if_false, hb, step_retry hs]
      exact ⟨trivial, hslot, by simp only [hattempt]; omega, hok, hlimit, hmode⟩
    · have hb := bootCmd_giveUp hx hslot hmode hok (by omega)
      simp only [Bool.false_eq_true, if_false, hb, step_giveUp hs]
      exact ⟨trivial, rfl, by simp [Env.resetAttempts, hlimit], rfl, hlimit, hmode⟩

section Run

variable {e : Env} {s : Slot} {ok : Nat → Bool}

/-- Until recovery is booted the script follows the policy. -/
theorem bootAt_tracks (hL : 1 ≤ e.bootLimit) (hslot : e.bootSlot = s.text) (hok : e.bootOk ≠ "0")
    (hmode : e.recoveryMode ≠ "1") (n : Nat) (hrec : ∀ m, m < n → bootAt e ok m ≠ .recovery) :
    bootAt e ok n = (policyAt e.bootLimit.toNat ok s n).unit ∧
      Tracks e.bootLimit.toNat (bootCmd (envAt e ok n)).1
        (policyAt e.bootLimit.toNat ok s n) := by
  induction n with
  | zero =>
    have hb := bootCmd_confirmed (slot_target_ne_recovery s) (by simp [hslot]) hmode hok
    have hlim : e.bootLimit = (e.bootLimit.toNat : Int) := by omega
    simp only [bootAt, envAt, hb]
    refine ⟨rfl, by simp [Env.resetAttempts, hslot, runAt], ?_, rfl, hlim, hmode⟩
    simpa [Env.resetAttempts, runAt] using hlim
  | succ n ih =>
    obtain ⟨hunit, htr⟩ := ih (fun m hm => hrec m (by omega))
    have hx : (policyAt e.bootLimit.toNat ok s n).unit ≠ .recovery := by
      rw [← hunit]
      exact hrec n (by omega)
    exact htr.step hx (ok n)

theorem bootAt_eq_unit (hL : 1 ≤ e.bootLimit) (hslot : e.bootSlot = s.text) (hok : e.bootOk ≠ "0")
    (hmode : e.recoveryMode ≠ "1") {n : Nat} (hrec : ∀ m, m ≤ n → bootAt e ok m ≠ .recovery)
    {m : Nat} (hm : m ≤ n + 1) :
    bootAt e ok m = (policyAt e.bootLimit.toNat ok s m).unit :=
  (bootAt_tracks hL hslot hok hmode m (fun k hk => hrec k (by omega))).1

theorem exhausted_bootAt_iff (hL : 1 ≤ e.bootLimit) (hslot : e.bootSlot = s.text)
    (hok : e.bootOk ≠ "0") (hmode : e.recoveryMode ≠ "1") {n : Nat}
    (hrec : ∀ m, m ≤ n → bootAt e ok m ≠ .recovery) :
    Exhausted (bootAt e ok) ok e.bootLimit.toNat n ↔
      Exhausted (fun m => (policyAt e.bootLimit.toNat ok s m).unit) ok e.bootLimit.toNat n :=
  exhausted_congr (fun m hm => bootAt_eq_unit hL hslot hok hmode hrec (m := m) (by omega))

/-- The slot changes exactly at the boot after `L` failed boots of it in a row, and then to its
fallback. -/
theorem bootAt_succ (hL : 1 ≤ e.bootLimit) (hslot : e.bootSlot = s.text)
    (hok : e.bootOk ≠ "0") (hmode : e.recoveryMode ≠ "1") {n : Nat}
    (hrec : ∀ m, m ≤ n → bootAt e ok m ≠ .recovery) :
    (bootAt e ok (n + 1) ≠ bootAt e ok n ↔ Exhausted (bootAt e ok) ok e.bootLimit.toNat n) ∧
      (bootAt e ok (n + 1) ≠ bootAt e ok n → bootAt e ok (n + 1) = (bootAt e ok n).fallback) := by
  have hlaw := unit_succ_ne_iff ok s.target fallback_ne
    (show 1 ≤ e.bootLimit.toNat by omega) n
  rw [exhausted_bootAt_iff hL hslot hok hmode hrec,
    bootAt_eq_unit hL hslot hok hmode hrec (m := n + 1) le_rfl,
    bootAt_eq_unit hL hslot hok hmode hrec (m := n) (by omega)]
  refine ⟨hlaw, ?_⟩
  intro hne
  rw [policyAt, runAt_succ_of_exhausted fallback_ne (by omega) (hlaw.mp hne)]

/-- `L` failures of slot a and then of slot b end in recovery. -/
theorem bootAt_recovery (hL : 1 ≤ e.bootLimit) (hslot : e.bootSlot = s.text)
    (hok : e.bootOk ≠ "0") (hmode : e.recoveryMode ≠ "1") {n : Nat}
    (hrec : ∀ m, m ≤ n → bootAt e ok m ≠ .recovery) (ha : bootAt e ok n = .a)
    (hex : Exhausted (bootAt e ok) ok e.bootLimit.toNat n)
    (hfail : ∀ k, n < k → k ≤ n + e.bootLimit.toNat → ok k = false) :
    (∀ k, n < k → k ≤ n + e.bootLimit.toNat → bootAt e ok k = .b) ∧
      bootAt e ok (n + e.bootLimit.toNat + 1) = .recovery := by
  set L := e.bootLimit.toNat with hLdef
  have hL1 : 1 ≤ L := by omega
  have hstart := runAt_succ_of_exhausted fallback_ne hL1
    ((exhausted_bootAt_iff hL hslot hok hmode hrec).mp hex)
  have hunit : (runAt Target.fallback L ok s.target n).unit = .a := by
    rw [← ha]
    exact (bootAt_eq_unit hL hslot hok hmode hrec (m := n) (by omega)).symm
  rw [hunit] at hstart
  have hnorec : ∀ k, (∀ j, j < k → bootAt e ok (n + 1 + j) = .b) →
      ∀ m, m < n + 1 + k → bootAt e ok m ≠ .recovery := by
    intro k hk m hm
    rcases Nat.lt_or_ge n m with h | h
    · have hm' := hk (m - (n + 1)) (by omega)
      rw [show n + 1 + (m - (n + 1)) = m by omega] at hm'
      rw [hm']
      decide
    · exact hrec m h
  -- the first `L` boots after the change stay on slot b
  have hpolicy : ∀ k, k < L → policyAt L ok s (n + 1 + k) = { unit := .b, streak := k } := by
    intro k hk
    have h := runAt_add_of_failed Target.fallback s.target (n := n + 1) (by rw [hstart]) k hk
      (fun j hj => hfail _ (by omega) (by omega))
    rw [hstart] at h
    exact h
  have hb : ∀ k, k < L → bootAt e ok (n + 1 + k) = .b := by
    intro k
    induction k using Nat.strong_induction_on with
    | _ k ih =>
      intro hk
      have hrec' := hnorec k (fun j hj => ih j hj (by omega))
      rw [(bootAt_tracks hL hslot hok hmode _ hrec').1, hpolicy k hk]
  refine ⟨?_, ?_⟩
  · intro k h1 h2
    have hk := hb (k - (n + 1)) (by omega)
    rwa [show n + 1 + (k - (n + 1)) = k by omega] at hk
  · have hrec' := hnorec L hb
    have hlast := hpolicy (L - 1) (by omega)
    rw [show n + 1 + (L - 1) = n + L by omega] at hlast
    have hstep : Policy.step Target.fallback L { unit := .b, streak := L - 1 } false =
        { unit := .recovery, streak := 0 } :=
      step_giveUp (by simp only; omega)
    rw [show n + L + 1 = n + 1 + L by omega, (bootAt_tracks hL hslot hok hmode _ hrec').1,
      ← hLdef, show n + 1 + L = n + L + 1 by omega]
    show ((policyAt L ok s (n + L)).step Target.fallback L (ok (n + L))).unit = .recovery
    rw [hlast, hfail (n + L) (by omega) le_rfl, hstep]

theorem bootAt_kept (hL : 1 ≤ e.bootLimit) (hslot : e.bootSlot = s.text)
    (hok : e.bootOk ≠ "0") (hmode : e.recoveryMode ≠ "1") {n m : Nat} (hm : n ≤ m)
    (hrec : ∀ k, k ≤ n → bootAt e ok k ≠ .recovery)
    (hno : ∀ k, n ≤ k → k < m → ¬ Exhausted (bootAt e ok) ok e.bootLimit.toNat k) :
    bootAt e ok m = bootAt e ok n := by
  refine unit_kept ?_ m hm hno m hm le_rfl
  intro k hk hkeep
  have hrec' : ∀ j, j ≤ k → bootAt e ok j ≠ .recovery := by
    intro j hj
    rcases Nat.le_total j n with h | h
    · exact hrec j h
    · rw [hkeep j h hj]
      exact hrec n le_rfl
  exact (bootAt_succ hL hslot hok hmode hrec').1.mp

/-- **A/B fallback.** From a confirmed slot, up to the first boot of recovery: the script leaves
the slot at the boot that follows `boot_limit` failed boots of it in a row and at no other, from a
to b and from b to recovery; failures of a and then b end in recovery; a slot that never fails that
often in a row is kept. -/
theorem fallback_exact (e : Env) (s : Slot) (ok : Nat → Bool) (hL : 1 ≤ e.bootLimit)
    (hslot : e.bootSlot = s.text) (hok : e.bootOk ≠ "0") (hmode : e.recoveryMode = "0") :
    bootAt e ok 0 = s.target ∧
      ∀ n, (∀ m, m ≤ n → bootAt e ok m ≠ .recovery) →
        (bootAt e ok (n + 1) ≠ bootAt e ok n ↔
          Exhausted (bootAt e ok) ok e.bootLimit.toNat n) ∧
        (bootAt e ok (n + 1) ≠ bootAt e ok n → bootAt e ok n = .a → bootAt e ok (n + 1) = .b) ∧
        (bootAt e ok (n + 1) ≠ bootAt e ok n → bootAt e ok n = .b →
          bootAt e ok (n + 1) = .recovery) ∧
        (bootAt e ok n = .a → Exhausted (bootAt e ok) ok e.bootLimit.toNat n →
          (∀ k, n < k → k ≤ n + e.bootLimit.toNat → ok k = false) →
          (∀ k, n < k → k ≤ n + e.bootLimit.toNat → bootAt e ok k = .b) ∧
            bootAt e ok (n + e.bootLimit.toNat + 1) = .recovery) ∧
        ∀ m, n ≤ m →
          (∀ k, n ≤ k → k < m → ¬ Exhausted (bootAt e ok) ok e.bootLimit.toNat k) →
          bootAt e ok m = bootAt e ok n := by
  have hmode' : e.recoveryMode ≠ "1" := by rw [hmode]; decide
  refine ⟨(bootAt_tracks hL hslot hok hmode' 0 (by omega)).1, ?_⟩
  intro n hrec
  obtain ⟨hlaw, hnext⟩ := bootAt_succ hL hslot hok hmode' hrec
  refine ⟨hlaw, ?_, ?_, ?_, ?_⟩
  · intro hne ha
    rw [hnext hne, ha]
    rfl
  · intro hne hb
    rw [hnext hne, hb]
    rfl
  · intro ha hex hfail
    exact bootAt_recovery hL hslot hok hmode' hrec ha hex hfail
  · intro m hm hno
    exact bootAt_kept hL hslot hok hmode' hm hrec hno

theorem fallback_exact_two :
    bootAt { Env.default with bootOk := "1", bootLimit := 2 } (fun _ => false) 4 = .recovery :=
  ((fallback_exact { Env.default with bootOk := "1", bootLimit := 2 } .a (fun _ => false)
    (by decide) rfl (by decide) rfl).2 1 (by decide)).2.2.2.1 (by decide)
    ⟨by decide, fun k hk => ⟨by revert k; decide, rfl⟩⟩ (fun _ _ _ => rfl) |>.2

end Run

end Boot
end BuildingBlocks
