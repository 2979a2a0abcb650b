import Mathlib.Algebra.BigOperators.Group.List.Basic
import Mathlib.Algebra.Order.Ring.Nat

/-!
# BuildingBlocks.Lib.Blocks

Numbers that run through consecutive blocks.

* `locate counts n`  — the block of number `n`, and where it stands in the block.
* `locate_eq_some`   — it is the one place with `n` elements in front of it.
* `locate_inj`, `locate_isSome` — every number below the total has a place of its own.
-/

namespace BuildingBlocks
namespace Lib

/-- The block of number `n`, and its offset there. -/
def locate : List Nat → Nat → Option (Nat × Nat)
  | [], _ => none
  | k :: counts, n =>
    if n < k then some (0, n) else (locate counts (n - k)).map (fun p => (p.1 + 1, p.2))

/-- The number of elements in front of block `i`. -/
def before (counts : List Nat) (i : Nat) : Nat := (counts.take i).sum

variable {k : Nat} {counts : List Nat} {n i o : Nat}

@[simp] theorem before_zero : before counts 0 = 0 := rfl

@[simp] theorem before_succ : before (k :: counts) (i + 1) = k + before counts i := by
  rw [before, List.take_succ_cons, List.sum_cons, before]

/-- The place of a number is the one with that many elements in front of it. -/
theorem locate_eq_some :
    locate counts n = some (i, o) ↔ o < counts.getD i 0 ∧ before counts i + o = n := by
  induction counts generalizing n i with
  | nil => simp [locate]
  | cons k counts ih =>
    rw [locate]
    split
    · next hlt =>
      rw [Option.some.injEq, Prod.mk.injEq]
      cases i with
      | zero =>
        rw [List.getD_cons_zero, before_zero]
        omega
      | succ i =>
        rw [before_succ]
        omega
    · next hge =>
      rw [Option.map_eq_some_iff]
      cases i with
      | zero =>
        rw [List.getD_cons_zero, before_zero]
        refine iff_of_false ?_ (by omega)
        rintro ⟨p, -, hp⟩
        cases hp
      | succ i =>
        rw [List.getD_cons_succ, before_succ]
        constructor
        · rintro ⟨p, hp, hpi⟩
          cases hpi
          obtain ⟨ho, hn⟩ := ih.mp hp
          omega
        · rintro ⟨ho, hn⟩
          exact ⟨(i, o), ih.mpr ⟨ho, by omega⟩, rfl⟩

/-- Two numbers in one place are one number. -/
theorem locate_inj {n' : Nat} {p : Nat × Nat} (h : locate counts n = some p)
    (h' : locate counts n' = some p) : n = n' := by
  rw [← (locate_eq_some.mp h).2, (locate_eq_some.mp h').2]

theorem locate_isSome : (locate counts n).isSome ↔ n < counts.sum := by
  induction counts generalizing n with
  | nil => simp [locate]
  | cons k counts ih =>
    rw [locate, List.sum_cons]
    split
    · next hlt =>
      simp only [Option.isSome_some, true_iff]
      omega
    · next hge =>
      rw [Option.isSome_map, ih]
      omega

end Lib
end BuildingBlocks
