import BuildingBlocks.Lib.Lines

/-!
# BuildingBlocks.Lib.Pieces

A text file read with a buffer that its lines need not fit.

* `textRows` — the rows of a text: the lines with their newlines, and the last one without.
* `textLines` — the same without the newlines.
* `fgetsAll_rows` — a file is read row by row; `row_induction` takes a row apart into the blocks the
  buffer holds.
* `flatten_fgetsAll` — the pieces together are the file.
-/

namespace BuildingBlocks
namespace Lib

abbrev Text := List UInt8

/-- The lines of a text, the unfinished one too. -/
def textLines (text : Text) : List Text :=
  (cut newline text).1 ++ (if (cut newline text).2 = [] then [] else [(cut newline text).2])

/-- The lines with their newlines. -/
def textRows (text : Text) : List Text :=
  (cut newline text).1.map (· ++ [newline]) ++
    (if (cut newline text).2 = [] then [] else [(cut newline text).2])

/-- A row without its newline. -/
def chomp (row : Text) : Text := if row.getLast? = some newline then row.dropLast else row

/-- The text ends with a newline, or is empty. -/
def Ended (text : Text) : Prop := (cut newline text).2 = []

instance (text : Text) : Decidable (Ended text) := inferInstanceAs (Decidable (_ = _))

/-- A line with its newline, or an unfinished one. -/
structure IsRow (row : Text) : Prop where
  ne_nil : row ≠ []
  notMem : newline ∉ row.dropLast

section Lines

variable {l row text a b : Text}

@[simp] theorem textLines_nil : textLines [] = [] := rfl

theorem ended_nil : Ended [] := rfl

theorem textLines_frame (h : newline ∉ l) :
    textLines (l ++ newline :: text) = l :: textLines text := by
  simp only [textLines, cut_frame h, List.cons_append]

/-- The first newline ends the first line. -/
theorem frame_inj {m x y : Text} (hl : newline ∉ l) (hm : newline ∉ m)
    (h : l ++ newline :: x = m ++ newline :: y) : l = m ∧ x = y := by
  have hlines := congrArg textLines h
  rw [textLines_frame hl, textLines_frame hm] at hlines
  obtain ⟨rfl, -⟩ := List.cons.inj hlines
  exact ⟨rfl, (List.cons.inj (List.append_cancel_left h)).2⟩

theorem textRows_frame (h : newline ∉ l) :
    textRows (l ++ newline :: text) = (l ++ [newline]) :: textRows text := by
  simp only [textRows, cut_frame h, List.map_cons, List.cons_append]

theorem textLines_rest (h : newline ∉ l) (hne : l ≠ []) : textLines l = [l] := by
  simp only [textLines, cut_of_notMem h, if_neg hne, List.nil_append]

theorem textRows_rest (h : newline ∉ l) (hne : l ≠ []) : textRows l = [l] := by
  simp only [textRows, cut_of_notMem h, if_neg hne, List.map_nil, List.nil_append]

theorem ended_frame (h : newline ∉ l) : Ended (l ++ newline :: text) ↔ Ended text := by
  simp only [Ended, cut_frame h]

theorem not_ended_rest (h : newline ∉ l) (hne : l ≠ []) : ¬ Ended l := by
  simpa only [Ended, cut_of_notMem h] using hne

/-- A text is empty, an unfinished line, or a line in front of a text. -/
theorem text_rows_induction {P : Text → Prop} (nil : P [])
    (rest : ∀ l, newline ∉ l → l ≠ [] → P l)
    (frame : ∀ l text, newline ∉ l → P text → P (l ++ newline :: text)) (text : Text) : P text := by
  induction text using stream_induction (d := newline) with
  | rest r hr =>
    rcases eq_or_ne r [] with rfl | hne
    · exact nil
    · exact rest r hr hne
  | frame f xs hf ih => exact frame f xs hf ih

/-- Behind a newline another text begins. -/
theorem textLines_append (h : Ended a) : textLines (a ++ b) = textLines a ++ textLines b := by
  induction a using text_rows_induction with
  | nil => rfl
  | rest l hl hne => exact absurd h (not_ended_rest hl hne)
  | frame l text hl ih =>
    rw [List.append_assoc, List.cons_append, textLines_frame hl, textLines_frame hl,
      ih ((ended_frame hl).mp h), List.cons_append]

theorem ended_line (h : newline ∉ l) : Ended (l ++ [newline]) := (ended_frame h).mpr ended_nil

theorem ended_concat (text : Text) : Ended (text ++ [newline]) := by
  induction text using text_rows_induction with
  | nil => exact ended_line List.not_mem_nil
  | rest l hl _ => exact ended_line hl
  | frame l text hl ih =>
    rw [List.append_assoc, List.cons_append]
    exact (ended_frame hl).mpr ih

theorem flatten_textRows (text : Text) : (textRows text).flatten = text := by
  induction text using text_rows_induction with
  | nil => rfl
  | rest l hl hne => rw [textRows_rest hl hne, List.flatten_singleton]
  | frame l text hl ih =>
    rw [textRows_frame hl, List.flatten_cons, ih, List.append_assoc, List.singleton_append]

theorem chomp_line (l : Text) : chomp (l ++ [newline]) = l := by
  rw [chomp, List.getLast?_concat, if_pos rfl, List.dropLast_concat]

theorem chomp_of_notMem (h : newline ∉ row) : chomp row = row := by
  rw [chomp, if_neg]
  intro hlast
  exact h (List.mem_of_getLast? hlast)

theorem textLines_eq_map (text : Text) : textLines text = (textRows text).map chomp := by
  induction text using text_rows_induction with
  | nil => rfl
  | rest l hl hne =>
    rw [textLines_rest hl hne, textRows_rest hl hne, List.map_singleton, chomp_of_notMem hl]
  | frame l text hl ih =>
    rw [textLines_frame hl, textRows_frame hl, List.map_cons, chomp_line, ih]

theorem isRow_line (h : newline ∉ l) : IsRow (l ++ [newline]) := by
  refine ⟨List.append_ne_nil_of_right_ne_nil _ (List.cons_ne_nil _ _), ?_⟩
  rw [List.dropLast_concat]
  exact h

theorem isRow_rest (h : newline ∉ l) (hne : l ≠ []) : IsRow l :=
  ⟨hne, fun hmem => h (List.mem_of_mem_dropLast hmem)⟩

/-- A row is a line with its newline, or without. -/
theorem IsRow.cases (h : IsRow row) :
    (newline ∉ row ∧ chomp row = row) ∨ newline ∉ chomp row ∧ row = chomp row ++ [newline] := by
  have hsplit := List.dropLast_append_getLast h.ne_nil
  by_cases hlast : row.getLast h.ne_nil = newline
  · rw [hlast] at hsplit
    have hchomp := chomp_line row.dropLast
    rw [hsplit] at hchomp
    rw [hchomp]
    exact Or.inr ⟨h.notMem, hsplit.symm⟩
  · have hnl : newline ∉ row := by
      rw [← hsplit, List.mem_append, List.mem_singleton, not_or]
      exact ⟨h.notMem, Ne.symm hlast⟩
    exact Or.inl ⟨hnl, chomp_of_notMem hnl⟩

theorem textLines_row (h : IsRow row) : textLines row = [chomp row] := by
  rcases h.cases with ⟨hnl, hchomp⟩ | ⟨hnl, hrow⟩
  · rw [hchomp]
    exact textLines_rest hnl h.ne_nil
  · have hline : textLines (chomp row ++ [newline]) = chomp row :: textLines [] :=
      textLines_frame hnl
    rw [← hrow] at hline
    exact hline

theorem isRow_of_mem_textRows (h : row ∈ textRows text) : IsRow row := by
  induction text using text_rows_induction with
  | nil => exact absurd h List.not_mem_nil
  | rest l hl hne =>
    rw [textRows_rest hl hne, List.mem_singleton] at h
    exact h ▸ isRow_rest hl hne
  | frame l text hl ih =>
    rw [textRows_frame hl, List.mem_cons] at h
    rcases h with rfl | h
    · exact isRow_line hl
    · exact ih h

/-- In front of a row its line goes on. -/
theorem IsRow.append {front : Text} (h : IsRow row) (hnl : newline ∉ front) :
    IsRow (front ++ row) ∧ chomp (front ++ row) = front ++ chomp row := by
  have hdrop : (front ++ row).dropLast = front ++ row.dropLast :=
    List.dropLast_append_of_ne_nil h.ne_nil
  refine ⟨⟨List.append_ne_nil_of_right_ne_nil _ h.ne_nil, ?_⟩, ?_⟩
  · rw [hdrop, List.mem_append, not_or]
    exact ⟨hnl, h.notMem⟩
  · rw [chomp, chomp, List.getLast?_append_of_ne_nil _ h.ne_nil, hdrop]
    split <;> rfl

end Lines

/-! ## Pieces -/

section Pieces

variable {n : Nat} {block row text : Text}

/-- The blocks of a row: it fits the buffer, or a full buffer stands in front of another row. -/
theorem row_induction {P : Text → Prop} (hn : 0 < n)
    (short : ∀ row, IsRow row → row.length ≤ n → P row)
    (long : ∀ block row, newline ∉ block → block.length = n → IsRow row → P row → P (block ++ row))
    (row : Text) (h : IsRow row) : P row := by
  induction hlen : row.length using Nat.strong_induction_on generalizing row with
  | _ k ih =>
    rcases Nat.lt_or_ge n row.length with hlt | hge
    · have hdrop : row.drop n ≠ [] := by
        rw [Ne, List.drop_eq_nil_iff]
        omega
      have hsub : ∀ b ∈ row.take n, b ∈ row.dropLast := by
        intro b hb
        rw [List.dropLast_eq_take]
        exact List.take_subset_take_left row (by omega) hb
      have htail : IsRow (row.drop n) := by
        refine ⟨hdrop, fun hmem => h.notMem ?_⟩
        have hsplit : row.dropLast = row.take n ++ (row.drop n).dropLast := by
          nth_rewrite 1 [← List.take_append_drop n row]
          exact List.dropLast_append_of_ne_nil hdrop
        rw [hsplit]
        exact List.mem_append_right _ hmem
      have htake : (row.take n).length = n := List.length_take_of_le hlt.le
      have hlong := long (row.take n) (row.drop n) (fun hmem => h.notMem (hsub _ hmem)) htake htail
        (ih (row.drop n).length (by rw [List.length_drop]; omega) _ htail rfl)
      rwa [List.take_append_drop] at hlong
    · exact short row h hge

theorem prefix_takeLine (n : Nat) (text : Text) : takeLine n text <+: text := by
  induction text generalizing n with
  | nil => cases n <;> exact List.prefix_rfl
  | cons b text ih =>
    cases n with
    | zero => exact List.nil_prefix
    | succ n =>
      rw [takeLine]
      split
      · exact ⟨text, rfl⟩
      · exact List.cons_prefix_cons.mpr ⟨rfl, ih n⟩

theorem length_takeLine_le (n : Nat) (text : Text) : (takeLine n text).length ≤ n := by
  induction text generalizing n with
  | nil => cases n <;> exact Nat.zero_le _
  | cons b text ih =>
    cases n with
    | zero => exact Nat.zero_le _
    | succ n =>
      rw [takeLine]
      split
      · exact Nat.succ_le_succ (Nat.zero_le n)
      · exact Nat.succ_le_succ (ih n)

/-- One pass of the loop. -/
theorem fgetsAll_step (hn : 0 < n) (h : text ≠ []) :
    fgetsAll (n + 1) text =
      takeLine n text :: fgetsAll (n + 1) (text.drop (takeLine n text).length) := by
  obtain ⟨b, bs, rfl⟩ := List.exists_cons_of_ne_nil h
  have hpos : 0 < (takeLine n (b :: bs)).length :=
    List.length_pos_iff.mpr (takeLine_ne_nil hn (List.cons_ne_nil b bs))
  rw [fgetsAll, List.length_cons, fgetsLoop, fgets_cons]
  simp only [Nat.add_sub_cancel]
  rw [fgetsLoop_eq (by omega)]
  rw [List.length_drop, List.length_cons]
  omega

/-- A full buffer. -/
theorem fgetsAll_block (hn : 0 < n) (hnl : newline ∉ block) (hlen : block.length = n)
    (rest : Text) :
    fgetsAll (n + 1) (block ++ rest) = block :: fgetsAll (n + 1) rest := by
  have hne : block ++ rest ≠ [] :=
    List.append_ne_nil_of_left_ne_nil (List.ne_nil_of_length_pos (by omega)) _
  have htake : takeLine n (block ++ rest) = block := by
    rw [takeLine_append rest hnl hlen.le, hlen, Nat.sub_self, takeLine, List.append_nil]
  rw [fgetsAll_step hn hne, htake, List.drop_left]

/-- A row that fits the buffer. -/
theorem fgetsAll_short (hn : 0 < n) (h : IsRow row) (hlen : row.length ≤ n) :
    fgetsAll (n + 1) row = [row] := by
  have htake : takeLine n row = row := by
    rcases h.cases with ⟨hnl, -⟩ | ⟨hnl, hrow⟩
    · have happ := takeLine_append [] hnl hlen
      have hnil : takeLine (n - row.length) [] = [] := by cases n - row.length <;> rfl
      rwa [hnil, List.append_nil] at happ
    · have hlt : (chomp row).length < n := by
        rw [hrow, List.length_append, List.length_singleton] at hlen
        omega
      rw [hrow]
      exact takeLine_line [] hnl hlt
  rw [fgetsAll_step hn h.ne_nil, htake, List.drop_length, fgetsAll_nil]

/-- A line is read to its newline, whatever follows. -/
theorem fgetsAll_line_append (hn : 0 < n) {l : Text} (hnl : newline ∉ l) (rest : Text) :
    fgetsAll (n + 1) (l ++ newline :: rest) =
      fgetsAll (n + 1) (l ++ [newline]) ++ fgetsAll (n + 1) rest := by
  have hall : ∀ row, IsRow row → newline ∈ row →
      fgetsAll (n + 1) (row ++ rest) = fgetsAll (n + 1) row ++ fgetsAll (n + 1) rest := by
    refine row_induction hn ?_ ?_
    · intro row h hlen hmem
      rcases h.cases with ⟨hno, -⟩ | ⟨hnl, hrow⟩
      · exact absurd hmem hno
      · have hfits : (chomp row).length + 1 < n + 1 := by
          rw [hrow, List.length_append, List.length_singleton] at hlen
          omega
        rw [fgetsAll_short hn h hlen, hrow, List.append_assoc, List.singleton_append,
          fgetsAll_line (by omega) rest hnl hfits, List.singleton_append]
    · intro block row hblock hlen h ih hmem
      have hrow := (List.mem_append.mp hmem).resolve_left hblock
      rw [List.append_assoc, fgetsAll_block hn hblock hlen, fgetsAll_block hn hblock hlen, ih hrow,
        List.cons_append]
  have hline := hall (l ++ [newline]) (isRow_line hnl) (List.mem_append_right _ List.mem_cons_self)
  rwa [List.append_assoc, List.singleton_append] at hline

theorem fgetsAll_append (hn : 0 < n) {a : Text} (h : Ended a) (b : Text) :
    fgetsAll (n + 1) (a ++ b) = fgetsAll (n + 1) a ++ fgetsAll (n + 1) b := by
  induction a using text_rows_induction with
  | nil => rfl
  | rest l hl hne => exact absurd h (not_ended_rest hl hne)
  | frame l text hl ih =>
    rw [List.append_assoc, List.cons_append, fgetsAll_line_append hn hl (text ++ b),
      fgetsAll_line_append hn hl text, ih ((ended_frame hl).mp h), List.append_assoc]

/-- A file is read row by row. -/
theorem fgetsAll_rows (hn : 0 < n) (text : Text) :
    fgetsAll (n + 1) text = (textRows text).flatMap (fgetsAll (n + 1)) := by
  induction text using text_rows_induction with
  | nil => rfl
  | rest l hl hne => rw [textRows_rest hl hne, List.flatMap_singleton]
  | frame l text hl ih =>
    rw [textRows_frame hl, List.flatMap_cons, fgetsAll_line_append hn hl, ih]

/-- The pieces are the file, none empty and none longer than the buffer. -/
theorem flatten_fgetsAll (hn : 0 < n) (text : Text) :
    (fgetsAll (n + 1) text).flatten = text ∧
      ∀ p ∈ fgetsAll (n + 1) text, p ≠ [] ∧ p.length ≤ n := by
  induction hlen : text.length using Nat.strong_induction_on generalizing text with
  | _ k ih =>
    rcases eq_or_ne text [] with rfl | hne
    · exact ⟨rfl, fun p hp => absurd hp List.not_mem_nil⟩
    · have hpos : 0 < (takeLine n text).length :=
        List.length_pos_iff.mpr (takeLine_ne_nil hn hne)
      have htext : 0 < text.length := List.length_pos_iff.mpr hne
      obtain ⟨hflat, hall⟩ := ih _ (by rw [List.length_drop]; omega)
        (text.drop (takeLine n text).length) rfl
      rw [fgetsAll_step hn hne, List.flatten_cons, hflat, List.forall_mem_cons]
      refine ⟨?_, ⟨List.ne_nil_of_length_pos hpos, length_takeLine_le n text⟩, hall⟩
      nth_rewrite 1 [List.prefix_iff_eq_take.mp (prefix_takeLine n text)]
      exact List.take_append_drop _ _

/-- Only the last byte of a piece is a newline. -/
theorem isRow_of_mem_fgetsAll (hn : 0 < n) {p : Text} (h : p ∈ fgetsAll (n + 1) text) :
    IsRow p := by
  rw [fgetsAll_rows hn, List.mem_flatMap] at h
  obtain ⟨row, hrow, hp⟩ := h
  suffices hall : ∀ row, IsRow row → p ∈ fgetsAll (n + 1) row → IsRow p from
    hall row (isRow_of_mem_textRows hrow) hp
  refine row_induction hn ?_ ?_
  · intro row h hlen hp
    rw [fgetsAll_short hn h hlen, List.mem_singleton] at hp
    exact hp ▸ h
  · intro block row hnl hlen _ ih hp
    rw [fgetsAll_block hn hnl hlen, List.mem_cons] at hp
    rcases hp with rfl | hp
    · exact isRow_rest hnl (List.ne_nil_of_length_pos (hlen ▸ hn))
    · exact ih hp

/-- A piece with more behind it ends with a newline or fills the buffer, and is read again the same
way whatever comes behind it. -/
theorem takeLine_again {rest : Text} (h : text = takeLine n text ++ rest) (hrest : rest ≠ [])
    (more : Text) : takeLine n (takeLine n text ++ more) = takeLine n text := by
  induction text generalizing n with
  | nil =>
    obtain ⟨-, hnil⟩ := List.append_eq_nil_iff.mp h.symm
    exact absurd hnil hrest
  | cons b text ih =>
    cases n with
    | zero => rfl
    | succ n =>
      rw [takeLine] at h ⊢
      split
      · next hb => rw [List.singleton_append, takeLine, if_pos hb]
      · next hb =>
        rw [if_neg hb, List.cons_append] at h
        rw [List.cons_append, takeLine, if_neg hb, ih (List.cons.inj h).2]

/-- Pieces in front of others are read as they are, whatever comes behind them. -/
theorem fgetsAll_pieces_append (hn : 0 < n) {ps qs : List Text}
    (h : fgetsAll (n + 1) text = ps ++ qs) (hqs : qs ≠ []) (more : Text) :
    fgetsAll (n + 1) (ps.flatten ++ more) = ps ++ fgetsAll (n + 1) more := by
  induction ps generalizing text with
  | nil => rfl
  | cons p ps ih =>
    have htext : text ≠ [] := by
      rintro rfl
      cases h
    rw [fgetsAll_step hn htext, List.cons_append] at h
    obtain ⟨hp, htail⟩ := List.cons.inj h
    have hrest : text.drop (takeLine n text).length ≠ [] := by
      intro hnil
      rw [hnil, fgetsAll_nil] at htail
      exact hqs (List.append_eq_nil_iff.mp htail.symm).2
    have hsplit : text = takeLine n text ++ text.drop (takeLine n text).length := by
      nth_rewrite 1 [← List.take_append_drop (takeLine n text).length text]
      rw [← List.prefix_iff_eq_take.mp (prefix_takeLine n text)]
    have hpne : p ≠ [] := hp ▸ takeLine_ne_nil hn htext
    have hread := takeLine_again hsplit hrest (ps.flatten ++ more)
    rw [hp] at hread
    rw [List.flatten_cons, List.append_assoc,
      fgetsAll_step hn (List.append_ne_nil_of_left_ne_nil hpne _), hread, List.drop_left,
      ih htail, List.cons_append]

end Pieces

/-! ## Row by row -/

/-- Two lists made row by row, the first at least as long everywhere, are equal exactly when they
are equal at every row. -/
theorem flatMap_eq_flatMap_iff {α β : Type*} {f g : α → List β} {xs : List α}
    (hle : ∀ x ∈ xs, (g x).length ≤ (f x).length) :
    xs.flatMap f = xs.flatMap g ↔ ∀ x ∈ xs, f x = g x := by
  have hlen : ∀ xs : List α, (∀ x ∈ xs, (g x).length ≤ (f x).length) →
      (xs.flatMap g).length ≤ (xs.flatMap f).length := by
    intro xs
    induction xs with
    | nil => exact fun _ => le_rfl
    | cons x xs ih =>
      intro h
      have htail := ih (fun y hy => h y (List.mem_cons_of_mem x hy))
      have hhead := h x List.mem_cons_self
      rw [List.flatMap_cons, List.flatMap_cons, List.length_append, List.length_append]
      omega
  induction xs with
  | nil => exact iff_of_true rfl (fun x hx => absurd hx List.not_mem_nil)
  | cons x xs ih =>
    have htail : ∀ y ∈ xs, (g y).length ≤ (f y).length :=
      fun y hy => hle y (List.mem_cons_of_mem x hy)
    rw [List.flatMap_cons, List.flatMap_cons, List.forall_mem_cons]
    refine Iff.trans ?_ (and_congr_right fun _ => ih htail)
    constructor
    · intro h
      have htotal := congrArg List.length h
      have hrest := hlen xs htail
      have hhead := hle x List.mem_cons_self
      rw [List.length_append, List.length_append] at htotal
      exact List.append_inj h (by omega)
    · rintro ⟨hhead, hrest⟩
      rw [hhead, hrest]

end Lib
end BuildingBlocks
