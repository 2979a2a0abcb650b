import Mathlib.Data.List.Basic
import Mathlib.Data.List.Nodup
import Mathlib.Data.List.Range
import Mathlib.Tactic.Common

/-!
# BuildingBlocks.Lib.Rows

The first `n` entries of an array as a list, and what appending and compaction do to it; `ahead` and
`behind` are what stands before an entry of a list, and after it.
-/

namespace BuildingBlocks

variable {α : Type*}

/-- The entries `t 0` to `t (n - 1)`. -/
def rows (t : Nat → α) (n : Nat) : List α := (List.range n).map t

@[simp] theorem length_rows (t : Nat → α) (n : Nat) : (rows t n).length = n := by simp [rows]

@[simp] theorem getElem_rows (t : Nat → α) (n i : Nat) (h : i < (rows t n).length) :
    (rows t n)[i] = t i := by
  simp [rows]

theorem rows_succ (t : Nat → α) (n : Nat) : rows t (n + 1) = rows t n ++ [t n] := by
  simp [rows, List.range_succ]

theorem rows_congr {t t' : Nat → α} {n : Nat} (h : ∀ i, i < n → t i = t' i) :
    rows t n = rows t' n := by
  refine List.map_congr_left (fun i hi => h i ?_)
  simpa using hi

/-- Moving the entries behind `idx` down by one removes entry `idx`. -/
theorem rows_eraseIdx {t t' : Nat → α} {n idx : Nat} (hidx : idx ≤ n)
    (hlt : ∀ i, i < idx → t' i = t i) (hge : ∀ i, idx ≤ i → i < n → t' i = t (i + 1)) :
    rows t' n = (rows t (n + 1)).eraseIdx idx := by
  have hlen : (rows t' n).length = ((rows t (n + 1)).eraseIdx idx).length := by
    rw [List.length_eraseIdx_of_lt (by simp; omega)]
    simp
  refine List.ext_getElem hlen (fun i h₁ h₂ => ?_)
  have hi : i < n := by simpa using h₁
  rcases Nat.lt_or_ge i idx with h | h
  · rw [List.getElem_eraseIdx_of_lt h₂ h, getElem_rows, getElem_rows, hlt i h]
  · rw [List.getElem_eraseIdx_of_ge h₂ h, getElem_rows, getElem_rows, hge i h hi]

theorem idxOf_eq_iff [DecidableEq α] {l : List α} (hl : l.Nodup) {x : α} (hx : x ∈ l) {i : Nat} :
    l.idxOf x = i ↔ ∃ h : i < l.length, l[i] = x := by
  constructor
  · rintro rfl
    have h := List.idxOf_lt_length_iff.mpr hx
    exact ⟨h, List.getElem_idxOf h⟩
  · rintro ⟨h, rfl⟩
    exact hl.idxOf_getElem i h

theorem filter_ne_eq_eraseIdx [DecidableEq α] {l : List α} (hl : l.Nodup) (x : α) :
    l.filter (· ≠ x) = l.eraseIdx (l.idxOf x) := by
  rw [← List.erase_eq_eraseIdx_of_idxOf rfl, hl.erase_eq_filter]
  refine List.filter_congr (fun y _ => ?_)
  rw [Bool.eq_iff_iff]
  simp

/-! ## Before and after -/

section Ahead

variable [DecidableEq α] {l m : List α} {x y : α}

def ahead (l : List α) (x : α) : List α := l.take (l.idxOf x)

def behind (l : List α) (x : α) : List α := l.drop (l.idxOf x + 1)

theorem idxOf_split {a b : List α} (h : x ∉ a) : (a ++ x :: b).idxOf x = a.length := by
  rw [List.idxOf_append_of_notMem h, List.idxOf_cons_self, Nat.add_zero]

theorem ahead_split {a b : List α} (h : x ∉ a) : ahead (a ++ x :: b) x = a := by
  rw [ahead, idxOf_split h, List.take_left]

theorem behind_split {a b : List α} (h : x ∉ a) : behind (a ++ x :: b) x = b := by
  rw [behind, idxOf_split h, List.drop_append, List.drop_of_length_le (Nat.le_succ _)]
  simp

theorem ahead_subset (l : List α) (x : α) : ahead l x ⊆ l := List.take_subset _ _

/-- Appending changes nothing before an entry. -/
theorem ahead_append (h : x ∈ l) : ahead (l ++ m) x = ahead l x := by
  rw [ahead, ahead, List.idxOf_append_of_mem h,
    List.take_append_of_le_length (List.idxOf_lt_length_iff.mpr h).le]

/-- Nor does removing an entry that does not stand before it. -/
theorem ahead_filter (hx : x ∈ l) (hne : x ≠ y) (hy : y ∉ ahead l x) :
    (l.filter (· ≠ y)).idxOf x = l.idxOf x ∧ ahead (l.filter (· ≠ y)) x = ahead l x := by
  obtain ⟨a, b, rfl, hxa⟩ := List.eq_append_cons_of_mem hx
  rw [ahead_split hxa] at hy
  have hsame : a.filter (· ≠ y) = a := by
    refine List.filter_eq_self.mpr (fun z hz => ?_)
    simpa using fun h : z = y => hy (h ▸ hz)
  rw [List.filter_append, hsame, List.filter_cons_of_pos (by simpa using hne), idxOf_split hxa,
    idxOf_split hxa, ahead_split hxa, ahead_split hxa]
  exact ⟨rfl, rfl⟩

theorem notMem_ahead (l : List α) (x : α) : x ∉ ahead l x := by
  by_cases h : x ∈ l
  · obtain ⟨a, b, rfl, hx⟩ := List.eq_append_cons_of_mem h
    rwa [ahead_split hx]
  · exact fun hx => h (ahead_subset l x hx)

theorem mem_behind (hy : y ∈ l) (h : x ∈ ahead l y) : y ∈ behind l x := by
  obtain ⟨a, b, rfl, hya⟩ := List.eq_append_cons_of_mem hy
  rw [ahead_split hya] at h
  obtain ⟨c, d, rfl, hxc⟩ := List.eq_append_cons_of_mem h
  rw [List.append_assoc, List.cons_append, behind_split hxc]
  exact List.mem_append_right _ List.mem_cons_self

end Ahead

end BuildingBlocks
