import Mathlib

/-!
# BuildingBlocks.Lib.Tally

Counting the members of a finite family that satisfy a predicate, with the rules a counting
invariant needs: nothing changed, one member joined, and a positive count has a member.
-/

namespace BuildingBlocks
namespace Lib

variable {ι : Type*} [Fintype ι]

/-- How many members of the family satisfy `P`. -/
def tally (P : ι → Prop) [DecidablePred P] : Nat := (Finset.univ.filter P).card

variable {P Q : ι → Prop} [DecidablePred P] [DecidablePred Q]

theorem tally_congr (h : ∀ i, Q i ↔ P i) : tally Q = tally P := by
  simp only [tally, h]

theorem tally_insert [DecidableEq ι] {i : ι} (hP : ¬ P i) (hQ : Q i)
    (h : ∀ j, j ≠ i → (Q j ↔ P j)) : tally Q = tally P + 1 := by
  have hset : Finset.univ.filter Q = insert i (Finset.univ.filter P) := by
    ext j
    by_cases hj : j = i
    · subst hj; simp [hQ]
    · simp [hj, h j hj]
  rw [tally, hset, Finset.card_insert_of_notMem (by simp [hP]), tally]

theorem tally_eq_zero (h : ∀ i, ¬ P i) : tally P = 0 := by
  simp [tally, h]

theorem tally_pos {i : ι} (hi : P i) : 0 < tally P :=
  Finset.card_pos.mpr ⟨i, by simp [hi]⟩

theorem exists_of_tally_pos (h : 0 < tally P) : ∃ i, P i := by
  obtain ⟨i, hi⟩ := Finset.card_pos.mp h
  exact ⟨i, (Finset.mem_filter.mp hi).2⟩

end Lib
end BuildingBlocks
