import Mathlib.Data.List.TakeDrop
import Mathlib.Tactic.Common

/-!
# BuildingBlocks.Lib.Deliver

A buffered output whose flushes may fail.

* `deliver` — what arrives of some bytes that are handed over flush by flush.
* `deliver_eq_iff` — everything arrives exactly when every flush takes what it is given.
-/

namespace BuildingBlocks
namespace Lib

variable {α : Type*}

/-- What arrives of `out`: a flush `(n, k)` hands over the next `n` bytes, of which the first `k`
arrive and the others are dropped; the last one hands over the rest. -/
def deliver : List (Nat × Nat) → Nat → List α → List α
  | [], last, out => out.take last
  | (n, k) :: flushes, last, out => (out.take n).take k ++ deliver flushes last (out.drop n)

/-- Every flush of `len` bytes takes all it is given. -/
def Arrives : List (Nat × Nat) → Nat → Nat → Prop
  | [], last, len => len ≤ last
  | (n, k) :: flushes, last, len => min n len ≤ k ∧ Arrives flushes last (len - n)

instance instDecidableArrives :
    (flushes : List (Nat × Nat)) → (last len : Nat) → Decidable (Arrives flushes last len)
  | [], last, len => inferInstanceAs (Decidable (len ≤ last))
  | (n, k) :: flushes, last, len =>
    have := instDecidableArrives flushes last (len - n)
    inferInstanceAs (Decidable (min n len ≤ k ∧ Arrives flushes last (len - n)))

theorem deliver_sublist (flushes : List (Nat × Nat)) (last : Nat) (out : List α) :
    List.Sublist (deliver flushes last out) out := by
  induction flushes generalizing out with
  | nil => exact List.take_sublist last out
  | cons f flushes ih =>
    nth_rewrite 2 [← List.take_append_drop f.1 out]
    exact (List.take_sublist f.2 _).append (ih (out.drop f.1))

/-- Everything arrives exactly when every flush takes what it is given. -/
theorem deliver_eq_iff (flushes : List (Nat × Nat)) (last : Nat) (out : List α) :
    deliver flushes last out = out ↔ Arrives flushes last out.length := by
  induction flushes generalizing out with
  | nil => exact List.take_eq_self_iff out
  | cons f flushes ih =>
    have hrest := (deliver_sublist flushes last (out.drop f.1)).length_le
    have hfirst := List.length_take_le' f.2 (out.take f.1)
    have hsplit := List.take_append_drop f.1 out
    rw [deliver, Arrives, ← List.length_take, ← List.length_drop, ← ih, ← List.take_eq_self_iff]
    constructor
    · intro h
      have hlen := congrArg List.length (h.trans hsplit.symm)
      rw [List.length_append, List.length_append] at hlen
      exact List.append_inj (h.trans hsplit.symm) (by omega)
    · rintro ⟨hhead, htail⟩
      rw [hhead, htail, hsplit]

end Lib
end BuildingBlocks
