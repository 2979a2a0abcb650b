import BuildingBlocks.Lib.Rows
import BuildingBlocks.Lib.Text
import Mathlib.Data.List.GetD

/-!
# BuildingBlocks.Lib.Print

Text printed into memory.

* `store` writes bytes from an offset on; the memory is a function, so that a write behind the end
  of a buffer is one as well.
* `snprintf` cuts the text to the limit and ends it with a NUL; its result is the length of the
  whole text, -1 when that is no `int`.
-/

namespace BuildingBlocks

/-- A `size_t`. -/
def sizeT (n : Nat) : Nat := n % 0x10000000000000000

def store (mem : Nat → UInt8) (pos : Nat) (bytes : List UInt8) : Nat → UInt8 :=
  fun i => if pos ≤ i ∧ i < pos + bytes.length then bytes.getD (i - pos) 0 else mem i

/-- `snprintf(mem + pos, limit, ...)` of a text. -/
def snprintf (mem : Nat → UInt8) (pos limit : Nat) (text : List UInt8) : (Nat → UInt8) × Int :=
  (if limit = 0 then mem else store mem pos (text.take (limit - 1) ++ [0]),
    if text.length < 0x80000000 then text.length else -1)

theorem sizeT_of_lt {n : Nat} (h : n < 0x10000000000000000) : sizeT n = n := Nat.mod_eq_of_lt h

/-- A difference of two `size_t` that does not wrap around. -/
theorem sizeT_sub {a b : Nat} (hb : b ≤ a) (ha : a < 0x10000000000000000) :
    sizeT (a + 0x10000000000000000 - b) = a - b := by
  unfold sizeT
  omega

section Store

variable (mem : Nat → UInt8) (pos : Nat) {i : Nat} {bytes : List UInt8}

theorem store_before (h : i < pos) : store mem pos bytes i = mem i :=
  if_neg (by omega)

theorem store_at (h : i < bytes.length) : store mem pos bytes (pos + i) = bytes[i] := by
  rw [store, if_pos (by omega), Nat.add_sub_cancel_left, List.getD_eq_getElem _ _ h]

/-- What stood in front of the write, and the first bytes written. -/
theorem rows_store (front back : List UInt8) :
    rows (store mem pos (front ++ back)) (pos + front.length) = rows mem pos ++ front := by
  refine List.ext_getElem (by simp) ?_
  intro i h₁ h₂
  rw [getElem_rows]
  have hi : i < pos + front.length := by simpa using h₁
  rcases Nat.lt_or_ge i pos with h | h
  · rw [store_before mem pos h, List.getElem_append_left (by simpa using h), getElem_rows]
  · obtain ⟨j, rfl⟩ := Nat.exists_eq_add_of_le h
    have hj : j < front.length := by omega
    rw [store_at mem pos (by rw [List.length_append]; omega), List.getElem_append_left hj,
      List.getElem_append_right (by simp)]
    simp

end Store

/-! ## Strings in memory -/

theorem cstr_append_zero {text : List UInt8} (h : 0 ∉ text) (rest : List UInt8) :
    cstr (text ++ 0 :: rest) = text :=
  takeWhile_append_delim h rest

/-- A text followed by a NUL is the C string of any buffer that holds both. -/
theorem cstr_rows {mem : Nat → UInt8} {size : Nat} {text : List UInt8} (hsize : text.length < size)
    (hrows : rows mem text.length = text) (hend : mem text.length = 0) (h : 0 ∉ text) :
    cstr (rows mem size) = text := by
  obtain ⟨n, rfl⟩ := Nat.exists_eq_add_of_lt hsize
  have hsplit : rows mem (text.length + n + 1) =
      text ++ 0 :: (List.range n).map (fun i => mem (text.length + 1 + i)) := by
    have hlen : text.length + n + 1 = (text.length + 1) + n := by omega
    rw [hlen, rows, List.range_add, List.map_append, List.map_map]
    have hfront : (List.range (text.length + 1)).map mem = text ++ [0] := by
      have hrows' := rows_succ mem text.length
      rw [hrows, hend] at hrows'
      exact hrows'
    rw [hfront, List.append_assoc]
    rfl
  rw [hsplit, cstr_append_zero h]

/-- The C string ends at the first NUL. -/
theorem length_cstr_rows_le {mem : Nat → UInt8} {i : Nat} (h : mem i = 0) (size : Nat) :
    (cstr (rows mem size)).length ≤ i := by
  by_contra hlong
  have hpre : cstr (rows mem size) <+: rows mem size := List.takeWhile_prefix _
  have hget := hpre.getElem (i := i) (by omega)
  rw [getElem_rows] at hget
  have hmem : (cstr (rows mem size))[i] ∈ cstr (rows mem size) := List.getElem_mem _
  have hne := List.all_eq_true.mp List.all_takeWhile _ hmem
  rw [hget, h] at hne
  exact absurd hne (by decide)

end BuildingBlocks
