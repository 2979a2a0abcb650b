import BuildingBlocks.Lib.Framing

/-!
# BuildingBlocks.Lib.Lines

A text file read line by line.

* `fgetsAll` — what a loop of `fgets` reads, one line of at most `size - 1` bytes at a time.
* `fgetsAll_join` — lines that fit are read one by one, each with its newline.
-/

namespace BuildingBlocks
namespace Lib

def newline : UInt8 := 0x0a

/-- `while (fgets(line, size, f))`; `fuel` bounds the number of lines. -/
def fgetsLoop (size : Nat) : Nat → List UInt8 → List (List UInt8)
  | 0, _ => []
  | fuel + 1, input =>
    match fgets size input with
    | none => []
    | some line => line :: fgetsLoop size fuel (input.drop line.length)

/-- The lines of a file; a line takes at least one byte of it. -/
def fgetsAll (size : Nat) (input : List UInt8) : List (List UInt8) :=
  fgetsLoop size input.length input

theorem takeLine_ne_nil {n : Nat} (hn : 0 < n) {input : List UInt8} (h : input ≠ []) :
    takeLine n input ≠ [] := by
  obtain ⟨n, rfl⟩ : ∃ m, n = m + 1 := ⟨n - 1, by omega⟩
  cases input with
  | nil => exact absurd rfl h
  | cons b bs =>
    rw [takeLine]
    split <;> exact List.cons_ne_nil _ _

/-- A line that fits is read with its newline. -/
theorem takeLine_line {n : Nat} {line : List UInt8} (rest : List UInt8) (hnl : newline ∉ line)
    (hlen : line.length < n) : takeLine n (line ++ newline :: rest) = line ++ [newline] := by
  induction line generalizing n with
  | nil =>
    obtain ⟨n, rfl⟩ : ∃ m, n = m + 1 := ⟨n - 1, by omega⟩
    exact if_pos rfl
  | cons b line ih =>
    rw [List.length_cons] at hlen
    rw [List.mem_cons, not_or] at hnl
    obtain ⟨n, rfl⟩ : ∃ m, n = m + 1 := ⟨n - 1, by omega⟩
    have hb : b ≠ 0x0a := Ne.symm hnl.1
    rw [List.cons_append, takeLine, if_neg hb, ih hnl.2 (by omega), List.cons_append]

/-- Only the last byte of a line is a newline. -/
theorem newline_notMem_of_takeLine {n : Nat} {input front back : List UInt8} {b : UInt8}
    (h : takeLine n input = front ++ b :: back) : newline ∉ front := by
  induction front generalizing n input with
  | nil => exact List.not_mem_nil
  | cons c front ih =>
    cases n with
    | zero => cases h
    | succ n =>
      cases input with
      | nil => cases h
      | cons d input =>
        rw [takeLine, List.cons_append] at h
        split at h
        · obtain ⟨-, hnil⟩ := List.cons.inj h
          exact absurd hnil.symm (List.append_ne_nil_of_right_ne_nil _ (List.cons_ne_nil _ _))
        · next hd =>
          obtain ⟨rfl, hrest⟩ := List.cons.inj h
          rw [List.mem_cons, not_or]
          exact ⟨Ne.symm hd, ih hrest⟩

/-- A front without a newline is read first. -/
theorem takeLine_append {n : Nat} {front : List UInt8} (rest : List UInt8) (hnl : newline ∉ front)
    (hlen : front.length ≤ n) :
    takeLine n (front ++ rest) = front ++ takeLine (n - front.length) rest := by
  induction front generalizing n with
  | nil => rfl
  | cons b front ih =>
    rw [List.length_cons] at hlen
    rw [List.mem_cons, not_or] at hnl
    obtain ⟨n, rfl⟩ : ∃ m, n = m + 1 := ⟨n - 1, by omega⟩
    have hb : b ≠ 0x0a := Ne.symm hnl.1
    rw [List.cons_append, takeLine, if_neg hb, ih hnl.2 (by omega), List.cons_append,
      List.length_cons, Nat.add_sub_add_right]

/-- A text with a newline is where the line ends, whatever follows. -/
theorem takeLine_of_mem {n : Nat} {text : List UInt8} (rest : List UInt8) (h : newline ∈ text) :
    takeLine n (text ++ rest) = takeLine n text := by
  induction text generalizing n with
  | nil => cases h
  | cons b text ih =>
    cases n with
    | zero => rfl
    | succ n =>
      rw [List.cons_append, takeLine, takeLine]
      split
      · rfl
      · next hb =>
        rw [ih ((List.mem_cons.mp h).resolve_left (Ne.symm hb))]

section Loop

variable {size : Nat}

@[simp] theorem fgetsAll_nil : fgetsAll size [] = [] := rfl

theorem fgets_cons (b : UInt8) (bs : List UInt8) :
    fgets size (b :: bs) = some (takeLine (size - 1) (b :: bs)) := rfl

/-- Any fuel from the length of the file on is enough. -/
theorem fgetsLoop_eq (hsize : 2 ≤ size) {fuel : Nat} {input : List UInt8}
    (h : input.length ≤ fuel) : fgetsLoop size fuel input = fgetsAll size input := by
  induction hn : input.length using Nat.strong_induction_on generalizing input fuel with
  | _ n ih =>
    cases input with
    | nil => cases fuel <;> rfl
    | cons b bs =>
      rw [List.length_cons] at h hn
      obtain ⟨fuel, rfl⟩ : ∃ m, fuel = m + 1 := ⟨fuel - 1, by omega⟩
      have hpos : 0 < (takeLine (size - 1) (b :: bs)).length :=
        List.length_pos_iff.mpr (takeLine_ne_nil (by omega) (List.cons_ne_nil b bs))
      have hdrop : ((b :: bs).drop (takeLine (size - 1) (b :: bs)).length).length ≤ bs.length := by
        rw [List.length_drop, List.length_cons]
        omega
      rw [fgetsAll, List.length_cons, fgetsLoop, fgetsLoop, fgets_cons]
      simp only
      rw [ih _ (by omega) (hdrop.trans (by omega)) rfl, ih _ (by omega) hdrop rfl]

theorem fgetsAll_line (hsize : 2 ≤ size) {line : List UInt8} (rest : List UInt8)
    (hnl : newline ∉ line) (hlen : line.length + 1 < size) :
    fgetsAll size (line ++ newline :: rest) = (line ++ [newline]) :: fgetsAll size rest := by
  obtain ⟨b, bs, hinput⟩ : ∃ b bs, line ++ newline :: rest = b :: bs :=
    List.exists_cons_of_ne_nil (List.append_ne_nil_of_right_ne_nil _ (List.cons_ne_nil _ _))
  have htake := takeLine_line rest hnl (show line.length < size - 1 by omega)
  have hdrop : (line ++ newline :: rest).drop (line ++ [newline]).length = rest := by
    rw [List.append_cons line newline rest, List.drop_left]
  have hread : fgets size (line ++ newline :: rest) = some (line ++ [newline]) := by
    rw [← htake, hinput, fgets_cons]
  have hlen' : (line ++ newline :: rest).length = (line.length + rest.length) + 1 := by
    rw [List.length_append, List.length_cons, Nat.add_assoc]
  rw [fgetsAll, hlen', fgetsLoop, hread]
  simp only
  rw [hdrop, fgetsLoop_eq hsize (by omega)]

/-- Lines that fit are read one by one. -/
theorem fgetsAll_join (hsize : 2 ≤ size) {lines : List (List UInt8)}
    (hlines : ∀ l ∈ lines, newline ∉ l ∧ l.length + 1 < size) :
    fgetsAll size (join newline lines) = lines.map (· ++ [newline]) := by
  induction lines with
  | nil => rfl
  | cons l lines ih =>
    obtain ⟨hnl, hlen⟩ := hlines l List.mem_cons_self
    rw [join_cons, fgetsAll_line hsize _ hnl hlen, List.map_cons,
      ih (fun l' hl' => hlines l' (List.mem_cons_of_mem l hl'))]

end Loop

end Lib
end BuildingBlocks
