import Mathlib.Data.Nat.Basic
import Mathlib.Tactic.Common

/-!
# BuildingBlocks.Lib.Failover

A chain of units tried in turn: a unit that fails `L` times in a row is given up for the next one.

* `Exhausted unit ok L n` says that attempt `n` is the last of `L` failures in a row of one unit.
  It speaks about the history only, not about a counter.
* `Policy` is the machine with a counter, `runAt` its state before attempt `n`.
* `unit_succ_ne_iff` connects the two: the counter makes the unit change exactly when the history
  is exhausted.
-/

namespace BuildingBlocks
namespace Failover

variable {σ : Type*}

/-- Attempts `n - L + 1` to `n` all used the same unit and all failed. -/
def Exhausted (unit : Nat → σ) (ok : Nat → Bool) (L n : Nat) : Prop :=
  L ≤ n + 1 ∧ ∀ k, k < L → unit (n - k) = unit n ∧ ok (n - k) = false

theorem exhausted_congr {u v : Nat → σ} {ok : Nat → Bool} {L n : Nat} (h : ∀ m, m ≤ n → u m = v m) :
    Exhausted u ok L n ↔ Exhausted v ok L n := by
  unfold Exhausted
  refine and_congr_right (fun _ => forall_congr' (fun k => imp_congr_right (fun _ => ?_)))
  rw [h (n - k) (by omega), h n le_rfl]

theorem unit_kept {u : Nat → σ} {ok : Nat → Bool} {L n : Nat}
    (hlaw : ∀ k, n ≤ k → (∀ j, n ≤ j → j ≤ k → u j = u n) → u (k + 1) ≠ u k →
      Exhausted u ok L k) :
    ∀ m, n ≤ m → (∀ k, n ≤ k → k < m → ¬ Exhausted u ok L k) →
      ∀ j, n ≤ j → j ≤ m → u j = u n := by
  intro m hm
  induction m, hm using Nat.le_induction with
  | base =>
    intro _ j h1 h2
    rw [Nat.le_antisymm h2 h1]
  | succ m hm ih =>
    intro hno j h1 h2
    have hkeep := ih (fun k hk hkm => hno k hk (by omega))
    rcases Nat.lt_or_ge m j with hj | hj
    · have hstay : u (m + 1) = u m := by
        by_contra hne
        exact hno m hm (by omega) (hlaw m hm hkeep hne)
      rw [show j = m + 1 by omega, hstay]
      exact hkeep m hm le_rfl
    · exact hkeep j h1 hj

/-- The unit in use and the number of its failures in a row so far. -/
structure Policy (σ : Type*) where
  unit : σ
  streak : Nat

def Policy.step (next : σ → σ) (L : Nat) (p : Policy σ) (ok : Bool) : Policy σ :=
  if ok then { p with streak := 0 }
  else if p.streak + 1 < L then { p with streak := p.streak + 1 }
  else { unit := next p.unit, streak := 0 }

/-- The policy before attempt `n`, when attempt `m` has result `ok m`. -/
def runAt (next : σ → σ) (L : Nat) (ok : Nat → Bool) (x : σ) : Nat → Policy σ
  | 0 => { unit := x, streak := 0 }
  | n + 1 => (runAt next L ok x n).step next L (ok n)

section Step

variable {next : σ → σ} {L : Nat} {p : Policy σ}

@[simp] theorem step_ok : p.step next L true = { p with streak := 0 } := rfl

theorem step_retry (h : p.streak + 1 < L) :
    p.step next L false = { p with streak := p.streak + 1 } := by
  simp [Policy.step, h]

theorem step_giveUp (h : L ≤ p.streak + 1) :
    p.step next L false = { unit := next p.unit, streak := 0 } := by
  simp [Policy.step, Nat.not_lt.mpr h]

theorem step_unit_ne_iff (hnext : ∀ x, next x ≠ x) {ok : Bool} :
    (p.step next L ok).unit ≠ p.unit ↔ ok = false ∧ L ≤ p.streak + 1 := by
  cases ok with
  | true => simp
  | false =>
    rcases Nat.lt_or_ge (p.streak + 1) L with h | h
    · rw [step_retry h]
      simp only [ne_eq, not_true_eq_false, true_and, false_iff]
      omega
    · rw [step_giveUp h]
      simp [hnext, h]

end Step

section Run

variable {next : σ → σ} {L : Nat} {ok : Nat → Bool} {x : σ}

theorem streak_failed (next : σ → σ) (L : Nat) (ok : Nat → Bool) (x : σ) (n : Nat) :
    ∀ k, k < (runAt next L ok x n).streak →
      k < n ∧ (runAt next L ok x (n - 1 - k)).unit = (runAt next L ok x n).unit ∧
        ok (n - 1 - k) = false := by
  induction n with
  | zero =>
    intro k hk
    simp [runAt] at hk
  | succ n ih =>
    intro k hk
    cases hok : ok n with
    | true => simp [runAt, hok] at hk
    | false =>
      rcases Nat.lt_or_ge ((runAt next L ok x n).streak + 1) L with h | h
      · simp only [runAt, hok, step_retry h] at hk ⊢
        cases k with
        | zero => exact ⟨by omega, rfl, by simpa using hok⟩
        | succ k =>
          obtain ⟨hkn, hu, hf⟩ := ih k (by omega)
          have e : n + 1 - 1 - (k + 1) = n - 1 - k := by omega
          rw [e]
          exact ⟨by omega, hu, hf⟩
      · simp [runAt, hok, step_giveUp h] at hk

/-- The attempt before the streak, when there is one, succeeded or used another unit. -/
theorem streak_maximal (L : Nat) (ok : Nat → Bool) (x : σ) (hnext : ∀ x, next x ≠ x) (n : Nat) :
    (runAt next L ok x n).streak = n ∨ ok (n - 1 - (runAt next L ok x n).streak) = true ∨
      (runAt next L ok x (n - 1 - (runAt next L ok x n).streak)).unit ≠
        (runAt next L ok x n).unit := by
  induction n with
  | zero => exact Or.inl rfl
  | succ n ih =>
    cases hok : ok n with
    | true =>
      have hs : (runAt next L ok x (n + 1)).streak = 0 := by simp [runAt, hok]
      rw [hs]
      exact Or.inr (Or.inl hok)
    | false =>
      rcases Nat.lt_or_ge ((runAt next L ok x n).streak + 1) L with h | h
      · have hs : runAt next L ok x (n + 1) =
            { unit := (runAt next L ok x n).unit, streak := (runAt next L ok x n).streak + 1 } := by
          simp [runAt, hok, step_retry h]
        rw [hs]
        have e : n + 1 - 1 - ((runAt next L ok x n).streak + 1) =
            n - 1 - (runAt next L ok x n).streak := by omega
        simp only [e]
        rcases ih with ih | ih
        · exact Or.inl (by omega)
        · exact Or.inr ih
      · have hs : runAt next L ok x (n + 1) =
            { unit := next (runAt next L ok x n).unit, streak := 0 } := by
          simp [runAt, hok, step_giveUp h]
        rw [hs]
        exact Or.inr (Or.inr (fun he => hnext _ he.symm))

/-- The counter tells whether the history is exhausted. -/
theorem exhausted_iff (hnext : ∀ x, next x ≠ x) (hL : 1 ≤ L) (n : Nat) :
    Exhausted (fun m => (runAt next L ok x m).unit) ok L n ↔
      ok n = false ∧ L ≤ (runAt next L ok x n).streak + 1 := by
  constructor
  · rintro ⟨hn, hall⟩
    refine ⟨by simpa using (hall 0 hL).2, ?_⟩
    by_contra hlt
    have hk := hall ((runAt next L ok x n).streak + 1) (by omega)
    have e : n - ((runAt next L ok x n).streak + 1) = n - 1 - (runAt next L ok x n).streak := by
      omega
    rw [e] at hk
    rcases streak_maximal L ok x hnext n with h | h | h
    · omega
    · rw [h] at hk
      exact absurd hk.2 (by simp)
    · exact h hk.1
  · rintro ⟨hf, hL'⟩
    have hfail := streak_failed next L ok x n
    refine ⟨?_, ?_⟩
    · rcases Nat.lt_or_ge 1 L with h1 | h1
      · have := (hfail (L - 2) (by omega)).1
        omega
      · omega
    · intro k hk
      cases k with
      | zero => exact ⟨rfl, by simpa using hf⟩
      | succ k =>
        obtain ⟨-, hu, hok⟩ := hfail k (by omega)
        have e : n - (k + 1) = n - 1 - k := by omega
        rw [e]
        exact ⟨hu, hok⟩

/-- **Exactness.** The unit changes after attempt `n` exactly when the history is exhausted. -/
theorem unit_succ_ne_iff (ok : Nat → Bool) (x : σ) (hnext : ∀ x, next x ≠ x) (hL : 1 ≤ L)
    (n : Nat) :
    (runAt next L ok x (n + 1)).unit ≠ (runAt next L ok x n).unit ↔
      Exhausted (fun m => (runAt next L ok x m).unit) ok L n := by
  rw [exhausted_iff hnext hL]
  exact step_unit_ne_iff hnext

theorem runAt_succ_of_exhausted (hnext : ∀ x, next x ≠ x) (hL : 1 ≤ L) {n : Nat}
    (h : Exhausted (fun m => (runAt next L ok x m).unit) ok L n) :
    runAt next L ok x (n + 1) = { unit := next (runAt next L ok x n).unit, streak := 0 } := by
  obtain ⟨hf, hs⟩ := (exhausted_iff hnext hL n).mp h
  simp only [runAt, hf, step_giveUp hs]

/-- Fewer than `L` failures after a fresh start keep the unit. -/
theorem runAt_add_of_failed (next : σ → σ) (x : σ) {n : Nat}
    (h0 : (runAt next L ok x n).streak = 0) :
    ∀ k, k < L → (∀ j, j < k → ok (n + j) = false) →
      runAt next L ok x (n + k) = { unit := (runAt next L ok x n).unit, streak := k } := by
  intro k
  induction k with
  | zero =>
    intro _ _
    rw [Nat.add_zero, ← h0]
  | succ k ih =>
    intro hk hf
    have hprev := ih (by omega) (fun j hj => hf j (by omega))
    rw [← Nat.add_assoc]
    simp only [runAt, hprev, hf k (by omega), step_retry (p := ⟨_, k⟩) hk]

end Run

end Failover
end BuildingBlocks
