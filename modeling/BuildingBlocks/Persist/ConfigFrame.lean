import BuildingBlocks.Lib.Pieces
import BuildingBlocks.Persist.Config

/-!
# BuildingBlocks.Persist.ConfigFrame

What `bb_persist_config_set` leaves of a file it did not write itself.

* `Frames` — the lines that do not define the key stay as they are, and the key has its value.
* `RowKept` — the copy of one line, piece by piece, is that line or a new entry.
* `frames_iff` — exactly when the whole file is kept: the entry fits the buffer, every line is kept,
  and a new entry goes behind a newline.
-/

namespace BuildingBlocks
namespace Persist

open Lib

/-! ## The law -/

/-- A line that defines a key. -/
def Defines (key line : Bytes) : Prop := key ++ [equals] <+: line

instance (key line : Bytes) : Decidable (Defines key line) := inferInstanceAs (Decidable (_ <+: _))

/-- The lines that do not define the key. -/
def others (key : Bytes) (lines : List Bytes) : List Bytes :=
  lines.filter (fun l => ¬ Defines key l)

/-- A key without an equals sign, no control characters in key and value. -/
structure LegalEntry (e : Bytes × Bytes) : Prop where
  key : ∀ b ∈ e.1, b ≠ equals ∧ b ≠ carriageReturn ∧ b ≠ newline ∧ b ≠ 0
  value : ∀ b ∈ e.2, b ≠ carriageReturn ∧ b ≠ newline ∧ b ≠ 0

/-- After a set that returned 0 the other lines are the same, and a get returns the value. -/
def Frames (ns : Bytes) (c : SetCall) (fs : Files) : Prop :=
  (configSet ns c fs).1 = 0 →
    others c.key (textLines (confFile (configSet ns c fs).2 ns)) =
        others c.key (textLines (confFile fs ns)) ∧
      configGet (configSet ns c fs).2 ns c.key = some c.value

/-- A line that defines the key is replaced piece by piece; in another one no piece is taken for the
key, unless it is the last one and equals the new entry. -/
def RowKept (key value row : Bytes) : Prop :=
  (Defines key row → ∀ p ∈ fgetsAll 512 row, isLineOf key p = true) ∧
    (¬ Defines key row →
      (∀ p ∈ (fgetsAll 512 row).dropLast, isLineOf key p = false) ∧
        ∀ p ∈ (fgetsAll 512 row).getLast?, isLineOf key p = true → chomp p = entryText (key, value))

instance (key value row : Bytes) : Decidable (RowKept key value row) :=
  inferInstanceAs (Decidable
    ((Defines key row → ∀ p ∈ fgetsAll 512 row, isLineOf key p = true) ∧
      (¬ Defines key row →
        (∀ p ∈ (fgetsAll 512 row).dropLast, isLineOf key p = false) ∧
          ∀ p ∈ (fgetsAll 512 row).getLast?,
            isLineOf key p = true → chomp p = entryText (key, value))))

/-- Every line is kept, and where no line is replaced the file ends with a newline. -/
def TextKept (key value file : Bytes) : Prop :=
  (∀ row ∈ textRows file, RowKept key value row) ∧
    ((∀ p ∈ fgetsAll 512 file, isLineOf key p = false) → Ended file)

instance (key value file : Bytes) : Decidable (TextKept key value file) :=
  inferInstanceAs (Decidable
    ((∀ row ∈ textRows file, RowKept key value row) ∧
      ((∀ p ∈ fgetsAll 512 file, isLineOf key p = false) → Ended file)))

/-- The entry fits the buffer and the file is kept. A path that is cut is also that of the temporary
file, which empties the file before it is read. -/
def Kept (ns : Bytes) (c : SetCall) (fs : Files) : Prop :=
  c.key.length + 1 + c.value.length ≤ 511 ∧
    if tmpPath (confPath ns) = confPath ns then ∀ l ∈ textLines (confFile fs ns), Defines c.key l
    else TextKept c.key c.value (confFile fs ns)

instance (ns : Bytes) (c : SetCall) (fs : Files) : Decidable (Kept ns c fs) :=
  inferInstanceAs (Decidable (_ ∧
    if tmpPath (confPath ns) = confPath ns then
      ∀ l ∈ textLines (confFile fs ns), Defines c.key l
    else TextKept c.key c.value (confFile fs ns)))

/-! ## The copy -/

/-- What one piece is copied as. -/
def rewritten (key value line : Bytes) : Bytes :=
  if isLineOf key line then entryLine key value else cstr line

/-- The copy of a text. -/
def copied (key value text : Bytes) : Bytes :=
  (fgetsAll 512 text).flatMap (rewritten key value)

section Copy

variable {key value p row text a : Bytes}

theorem rewriteLines_eq (key value : Bytes) (lines : List Bytes) (out : Bytes) (replaced : Bool) :
    rewriteLines key value lines (out, replaced) =
      (out ++ lines.flatMap (rewritten key value), replaced || lines.any (isLineOf key)) := by
  induction lines generalizing out replaced with
  | nil => simp [rewriteLines]
  | cons line lines ih =>
    rw [rewriteLines, List.flatMap_cons, List.any_cons]
    cases hline : isLineOf key line with
    | true =>
      rw [if_pos rfl, ih, List.append_assoc]
      simp [rewritten, hline]
    | false =>
      rw [if_neg Bool.false_ne_true, ih, List.append_assoc]
      simp [rewritten, hline]

theorem isLineOf_iff_defines (h0 : 0 ∉ p) : isLineOf key p = true ↔ Defines key p := by
  rw [isLineOf_iff, cstr_of_notMem h0, Defines]

theorem rewritten_of_line (h : isLineOf key p = true) :
    rewritten key value p = entryLine key value := if_pos h

theorem rewritten_of_not (h0 : 0 ∉ p) (h : isLineOf key p = false) : rewritten key value p = p := by
  rw [rewritten, h, if_neg Bool.false_ne_true, cstr_of_notMem h0]

theorem others_cons_of_not (h : ¬ Defines key p) (ls : List Bytes) :
    others key (p :: ls) = p :: others key ls := by
  rw [others, others, List.filter_cons_of_pos (by simpa using h)]

theorem others_cons_of_defines (h : Defines key p) (ls : List Bytes) :
    others key (p :: ls) = others key ls := by
  rw [others, others, List.filter_cons_of_neg (by simpa using h)]

theorem others_append (ls ms : List Bytes) :
    others key (ls ++ ms) = others key ls ++ others key ms := List.filter_append ls ms

theorem defines_entryText (key value : Bytes) : Defines key (entryText (key, value)) := by
  refine ⟨value, ?_⟩
  rw [entryText, List.append_assoc, List.singleton_append]

/-- The newline of a row is in no key. -/
theorem defines_chomp (h : IsRow row) :
    Defines key (chomp row) ↔ Defines key row := by
  rcases h.cases with ⟨-, hrow⟩ | ⟨-, hrow⟩
  · rw [hrow]
  · nth_rewrite 2 [hrow]
    rw [Defines, Defines, List.prefix_concat_iff, or_iff_right]
    intro he
    have hlast := congrArg List.getLast? he
    rw [List.getLast?_concat, List.getLast?_concat] at hlast
    exact absurd (Option.some.inj hlast) (by decide)

/-- A start that is long enough decides whether a line defines the key. -/
theorem defines_append (h : key.length + 1 ≤ a.length) (x : Bytes) :
    Defines key (a ++ x) ↔ Defines key a := by
  refine ⟨fun hpre => ?_, fun hpre => hpre.trans (List.prefix_append a x)⟩
  refine List.prefix_of_prefix_length_le hpre (List.prefix_append a x) ?_
  rwa [List.length_append, List.length_singleton]

end Copy

/-! ## One line -/

section Row

variable {key value p row block x : Bytes}

/-- The first line of a text that starts with some bytes of a line. -/
theorem textLines_block (hne : block ≠ []) (hnl : newline ∉ block) (x : Bytes) :
    ∃ s ls, textLines (block ++ x) = (block ++ s) :: ls := by
  induction x using text_rows_induction with
  | nil =>
    refine ⟨[], [], ?_⟩
    rw [List.append_nil]
    exact textLines_rest hnl hne
  | rest l hl _ =>
    refine ⟨l, [], textLines_rest ?_ (List.append_ne_nil_of_left_ne_nil hne l)⟩
    rw [List.mem_append, not_or]
    exact ⟨hnl, hl⟩
  | frame l text hl _ =>
    refine ⟨l, textLines text, ?_⟩
    rw [← List.append_assoc, textLines_frame]
    rw [List.mem_append, not_or]
    exact ⟨hnl, hl⟩

/-- A full buffer that is not taken for the key starts a line that does not define it. -/
theorem others_block_ne_nil (hnl : newline ∉ block) (hlen : block.length = 511)
    (hkey : key.length < 511) (hno : ¬ Defines key block) (x : Bytes) :
    others key (textLines (block ++ x)) ≠ [] := by
  obtain ⟨s, ls, hlines⟩ := textLines_block (List.ne_nil_of_length_pos (by omega)) hnl x
  rw [hlines, others_cons_of_not]
  · exact List.cons_ne_nil _ _
  · rwa [defines_append (by omega)]

variable (hfits : key.length + 1 + value.length ≤ 511)
  (hkey : newline ∉ key) (hvalue : newline ∉ value)

include hkey hvalue in
/-- The new entry is a line that defines the key. -/
theorem others_entryLine (x : Bytes) :
    textLines (entryLine key value ++ x) = entryText (key, value) :: textLines x ∧
      others key (textLines (entryLine key value ++ x)) = others key (textLines x) := by
  have hnl : newline ∉ entryText (key, value) := by
    rw [entryText, List.mem_append, List.mem_cons, not_or, not_or]
    exact ⟨hkey, by decide, hvalue⟩
  have hlines : textLines (entryLine key value ++ x) =
      entryText (key, value) :: textLines x := by
    rw [show entryLine key value = entryText (key, value) ++ [newline] from
      entryLine_eq (key, value), List.append_assoc, List.singleton_append, textLines_frame hnl]
  exact ⟨hlines, by rw [hlines, others_cons_of_defines (defines_entryText key value)]⟩

include hfits hkey hvalue in
/-- A row is replaced without a trace exactly when each of its pieces is taken for the key. -/
theorem others_copied_eq_nil_iff (h : IsRow row) (h0 : 0 ∉ row) :
    others key (textLines (copied key value row)) = [] ↔
      ∀ p ∈ fgetsAll 512 row, isLineOf key p = true := by
  suffices hall : ∀ row, IsRow row → 0 ∉ row →
      (others key (textLines (copied key value row)) = [] ↔
        ∀ p ∈ fgetsAll 512 row, isLineOf key p = true) from hall row h h0
  refine row_induction (n := 511) (by decide) ?_ ?_
  · intro row h hlen h0
    rw [copied, fgetsAll_short (by decide) h hlen, List.flatMap_singleton]
    simp only [List.mem_singleton, forall_eq]
    cases hline : isLineOf key row with
    | true =>
      have hentry := (others_entryLine hkey hvalue []).2
      rw [List.append_nil] at hentry
      rw [rewritten_of_line hline, hentry]
      exact iff_of_true rfl rfl
    | false =>
      have hno : ¬ Defines key (chomp row) := by
        rw [defines_chomp h, ← isLineOf_iff_defines h0, hline]
        exact Bool.false_ne_true
      rw [rewritten_of_not h0 hline, textLines_row h, others_cons_of_not hno]
      exact iff_of_false (List.cons_ne_nil _ _) Bool.false_ne_true
  · intro block row hnl hlen h ih h0
    rw [List.mem_append, not_or] at h0
    rw [copied, fgetsAll_block (by decide) hnl hlen, List.flatMap_cons, List.forall_mem_cons]
    cases hline : isLineOf key block with
    | true =>
      rw [rewritten_of_line hline, (others_entryLine hkey hvalue _).2]
      exact (ih h0.2).trans (and_iff_right rfl).symm
    | false =>
      have hno : ¬ Defines key block := by
        rw [← isLineOf_iff_defines h0.1, hline]
        exact Bool.false_ne_true
      rw [rewritten_of_not h0.1 hline]
      exact iff_of_false (others_block_ne_nil hnl hlen (by omega) hno _)
        (fun hall => Bool.false_ne_true hall.1)

include hfits hkey hvalue in
/-- The rest of a row, behind a start that does not define the key, is kept exactly when no piece is
taken for the key but a last one that equals the new entry. -/
theorem others_front_iff {front : Bytes} (hfront : newline ∉ front)
    (hlong : key.length + 1 ≤ front.length) (hno : ¬ Defines key front) (h : IsRow row)
    (h0 : 0 ∉ row) :
    others key (textLines (front ++ copied key value row)) = [front ++ chomp row] ↔
      (∀ p ∈ (fgetsAll 512 row).dropLast, isLineOf key p = false) ∧
        ∀ p ∈ (fgetsAll 512 row).getLast?, isLineOf key p = true →
          chomp p = entryText (key, value) := by
  have hline : ∀ x : Bytes, ¬ Defines key (front ++ x) := fun x => by rwa [defines_append hlong]
  have hentry : ∀ front x : Bytes, newline ∉ front → (∀ x, ¬ Defines key (front ++ x)) →
      others key (textLines (front ++ (entryLine key value ++ x))) =
        (front ++ entryText (key, value)) :: others key (textLines x) := by
    intro front x hfront hline
    have hnl : newline ∉ front ++ entryText (key, value) := by
      rw [entryText, List.mem_append, List.mem_append, List.mem_cons, not_or, not_or, not_or]
      exact ⟨hfront, hkey, by decide, hvalue⟩
    rw [show entryLine key value = entryText (key, value) ++ [newline] from
      entryLine_eq (key, value), List.append_assoc, List.singleton_append, ← List.append_assoc,
      textLines_frame hnl, others_cons_of_not (hline _)]
  suffices hall : ∀ row, IsRow row → 0 ∉ row → ∀ front : Bytes, newline ∉ front →
      key.length + 1 ≤ front.length → (∀ x : Bytes, ¬ Defines key (front ++ x)) →
      (others key (textLines (front ++ copied key value row)) = [front ++ chomp row] ↔
        (∀ p ∈ (fgetsAll 512 row).dropLast, isLineOf key p = false) ∧
          ∀ p ∈ (fgetsAll 512 row).getLast?, isLineOf key p = true →
            chomp p = entryText (key, value)) from hall row h h0 front hfront hlong hline
  clear hno hline hlong hfront h0 h
  refine row_induction (n := 511) (by decide) ?_ ?_
  · intro row h hlen h0 front hfront hlong hline
    rw [copied, fgetsAll_short (by decide) h hlen, List.flatMap_singleton, List.dropLast_singleton]
    simp only [List.not_mem_nil, false_implies, implies_true, true_and, List.getLast?_singleton,
      Option.mem_def, Option.some.injEq, forall_eq']
    cases hpiece : isLineOf key row with
    | true =>
      have hlast := hentry front [] hfront hline
      rw [List.append_nil] at hlast
      rw [rewritten_of_line hpiece, hlast, textLines_nil, others, List.filter_nil]
      simp only [List.cons.injEq, List.append_cancel_left_eq, and_true, forall_const]
      exact eq_comm
    | false =>
      obtain ⟨hrow, hchomp⟩ := h.append hfront
      rw [rewritten_of_not h0 hpiece, textLines_row hrow, hchomp, others_cons_of_not (hline _)]
      simp [others]
  · intro block row hnl hlen h ih h0 front hfront hlong hline
    rw [List.mem_append, not_or] at h0
    have hpieces : fgetsAll 512 row ≠ [] := by
      intro hnil
      have hflat := (flatten_fgetsAll (n := 511) (by decide) row).1
      rw [hnil] at hflat
      exact h.ne_nil hflat.symm
    obtain ⟨-, hchomp⟩ := h.append hnl
    rw [copied, fgetsAll_block (by decide) hnl hlen, List.flatMap_cons,
      List.dropLast_cons_of_ne_nil hpieces, List.getLast?_cons_of_ne_nil hpieces, hchomp,
      List.forall_mem_cons]
    cases hpiece : isLineOf key block with
    | true =>
      refine iff_of_false ?_ (fun hall => absurd hall.1.1 (by simp))
      rw [rewritten_of_line hpiece, hentry front _ hfront hline]
      intro heq
      obtain ⟨hfirst, hrest⟩ := List.cons.inj heq
      have hlength := congrArg List.length (List.append_cancel_left hfirst)
      rw [entryText, List.length_append, List.length_cons, List.length_append] at hlength
      have hchompnil : chomp row = [] := List.length_eq_zero_iff.mp (by simp only at hlength; omega)
      have hrow : row = [newline] := by
        rcases h.cases with ⟨-, hc⟩ | ⟨-, hc⟩
        · exact absurd (hc.symm.trans hchompnil) h.ne_nil
        · rw [hc, hchompnil, List.nil_append]
      have hall := (others_copied_eq_nil_iff hfits hkey hvalue h h0.2).mp hrest
      rw [fgetsAll_short (by decide) h (by rw [hrow]; decide), List.forall_mem_singleton,
        isLineOf_iff_defines h0.2, ← defines_chomp h, hchompnil, Defines, List.prefix_nil] at hall
      exact List.append_ne_nil_of_right_ne_nil _ (List.cons_ne_nil _ _) hall
    | false =>
      have hfront' : newline ∉ front ++ block := by
        rw [List.mem_append, not_or]
        exact ⟨hfront, hnl⟩
      have hline' : ∀ x : Bytes, ¬ Defines key (front ++ block ++ x) := by
        intro x
        rw [List.append_assoc]
        exact hline _
      have hrest := ih h0.2 (front ++ block) hfront' (by rw [List.length_append]; omega) hline'
      rw [copied, List.append_assoc, List.append_assoc] at hrest
      rw [rewritten_of_not h0.1 hpiece, hrest]
      simp

/-- The first piece tells whether a row defines the key. -/
theorem defines_iff_piece (hkey : key.length < 511) (h : IsRow row) (h0 : 0 ∉ row) :
    ∃ p ps, fgetsAll 512 row = p :: ps ∧ (Defines key row ↔ isLineOf key p = true) := by
  suffices hall : ∀ row, IsRow row → 0 ∉ row → ∃ p ps, fgetsAll 512 row = p :: ps ∧
      (Defines key row ↔ isLineOf key p = true) from hall row h h0
  refine row_induction (n := 511) (by decide) ?_ ?_
  · intro row h hlen h0
    exact ⟨row, [], fgetsAll_short (by decide) h hlen, (isLineOf_iff_defines h0).symm⟩
  · intro block row hnl hlen _ _ h0
    rw [List.mem_append, not_or] at h0
    refine ⟨block, fgetsAll 512 row, fgetsAll_block (by decide) hnl hlen row, ?_⟩
    rw [isLineOf_iff_defines h0.1]
    exact defines_append (by omega) row

include hfits hkey hvalue in
/-- **One row.** The others among the lines that stand for a row are those of the row exactly when
the row is kept; there are never fewer. -/
theorem others_row_iff (h : IsRow row) (h0 : 0 ∉ row) :
    (others key (textLines (copied key value row)) = others key [chomp row] ↔
        RowKept key value row) ∧
      (others key [chomp row]).length ≤ (others key (textLines (copied key value row))).length := by
  by_cases hdef : Defines key row
  · have hnone : others key [chomp row] = [] :=
      others_cons_of_defines ((defines_chomp h).mpr hdef) []
    rw [hnone]
    refine ⟨?_, Nat.zero_le _⟩
    rw [others_copied_eq_nil_iff hfits hkey hvalue h h0, RowKept]
    exact ⟨fun hall => ⟨fun _ => hall, fun hno => absurd hdef hno⟩, fun hall => hall.1 hdef⟩
  · have hone : others key [chomp row] = [chomp row] :=
      others_cons_of_not (fun hc => hdef ((defines_chomp h).mp hc)) []
    have hshort : key.length < 511 := by omega
    have hne : others key (textLines (copied key value row)) ≠ [] := by
      rw [Ne, others_copied_eq_nil_iff hfits hkey hvalue h h0]
      intro hall
      obtain ⟨p, ps, hpieces, hfirst⟩ := defines_iff_piece hshort h h0
      exact hdef (hfirst.mpr (hall p (hpieces ▸ List.mem_cons_self)))
    rw [hone]
    refine ⟨?_, List.length_pos_iff.mpr hne⟩
    rw [RowKept, and_iff_right (fun h => absurd h hdef), forall_prop_of_true hdef]
    revert h0 hdef
    clear hone hne
    suffices hall : ∀ row, IsRow row → 0 ∉ row → ¬ Defines key row →
        (others key (textLines (copied key value row)) = [chomp row] ↔
          (∀ p ∈ (fgetsAll 512 row).dropLast, isLineOf key p = false) ∧
            ∀ p ∈ (fgetsAll 512 row).getLast?, isLineOf key p = true →
              chomp p = entryText (key, value)) from hall row h
    refine row_induction (n := 511) (by decide) ?_ ?_
    · intro row h hlen h0 hno
      have hpiece : isLineOf key row = false := by
        rw [← Bool.not_eq_true, isLineOf_iff_defines h0]
        exact hno
      rw [copied, fgetsAll_short (by decide) h hlen, List.flatMap_singleton,
        rewritten_of_not h0 hpiece, textLines_row h,
        others_cons_of_not (fun hc => hno ((defines_chomp h).mp hc))]
      simp [others, hpiece]
    · intro block row hnl hlen h _ h0 hno
      rw [List.mem_append, not_or] at h0
      rw [defines_append (hlen ▸ hshort)] at hno
      have hpiece : isLineOf key block = false := by
        rw [← Bool.not_eq_true, isLineOf_iff_defines h0.1]
        exact hno
      obtain ⟨p, ps, hpieces, -⟩ := defines_iff_piece hshort h h0.2
      have hrest := others_front_iff hfits hkey hvalue hnl (by omega) hno h h0.2
      rw [copied] at hrest
      rw [copied, fgetsAll_block (by decide) hnl hlen, List.flatMap_cons,
        rewritten_of_not h0.1 hpiece, (h.append hnl).2, hrest, hpieces,
        List.dropLast_cons_of_ne_nil (List.cons_ne_nil p ps),
        List.getLast?_cons_of_ne_nil (List.cons_ne_nil p ps), List.forall_mem_cons]
      simp [hpiece]

/-- The copy of a line ends with a newline. -/
theorem copied_ended (h : IsRow row) (h0 : 0 ∉ row) (hmem : newline ∈ row) :
    ∃ x, copied key value row = x ++ [newline] := by
  suffices hall : ∀ row, IsRow row → 0 ∉ row → newline ∈ row →
      ∃ x, copied key value row = x ++ [newline] from hall row h h0 hmem
  refine row_induction (n := 511) (by decide) ?_ ?_
  · intro row h hlen h0 hmem
    rw [copied, fgetsAll_short (by decide) h hlen, List.flatMap_singleton]
    cases hpiece : isLineOf key row with
    | true => exact ⟨entryText (key, value), rewritten_of_line hpiece⟩
    | false =>
      rw [rewritten_of_not h0 hpiece]
      rcases h.cases with ⟨hno, -⟩ | ⟨-, hrow⟩
      · exact absurd hmem hno
      · exact ⟨chomp row, hrow⟩
  · intro block row hnl hlen h ih h0 hmem
    rw [List.mem_append, not_or] at h0
    obtain ⟨x, hx⟩ := ih h0.2 ((List.mem_append.mp hmem).resolve_left hnl)
    refine ⟨rewritten key value block ++ x, ?_⟩
    rw [copied] at hx
    rw [copied, fgetsAll_block (by decide) hnl hlen, List.flatMap_cons, hx, List.append_assoc]

end Row

/-! ## The file -/

section File

variable {key value file : Bytes}

theorem notMem_row {row : Bytes} (h : row ∈ textRows file) (h0 : 0 ∉ file) : 0 ∉ row := by
  intro hmem
  refine h0 ?_
  rw [← flatten_textRows file]
  exact List.mem_flatten_of_mem h hmem

/-- The copy is made row by row. -/
theorem textLines_copied (h0 : 0 ∉ file) : textLines (copied key value file) =
    (textRows file).flatMap (fun row => textLines (copied key value row)) := by
  induction file using text_rows_induction with
  | nil => rfl
  | rest l hl hne => rw [textRows_rest hl hne, List.flatMap_singleton]
  | frame l text hl ih =>
    rw [List.mem_append, List.mem_cons, not_or, not_or] at h0
    have hcopy : copied key value (l ++ newline :: text) =
        copied key value (l ++ [newline]) ++ copied key value text := by
      rw [copied, fgetsAll_line_append (by decide) hl, List.flatMap_append]
      rfl
    have hline : (0 : UInt8) ∉ l ++ [newline] := by
      rw [List.mem_append, List.mem_singleton, not_or]
      exact ⟨h0.1, h0.2.1⟩
    obtain ⟨x, hx⟩ : ∃ x, copied key value (l ++ [newline]) = x ++ [newline] :=
      copied_ended (isRow_line hl) hline (List.mem_append_right _ List.mem_cons_self)
    rw [textRows_frame hl, List.flatMap_cons, hcopy, textLines_append (hx ▸ ended_concat x),
      ih h0.2.2]

theorem others_flatMap (f : Bytes → List Bytes) (rows : List Bytes) :
    others key (rows.flatMap f) = rows.flatMap (fun row => others key (f row)) := by
  rw [others, List.filter_flatMap]
  rfl

section Law

variable (hfits : key.length + 1 + value.length ≤ 511)
  (hkey : newline ∉ key) (hvalue : newline ∉ value)

include hfits hkey hvalue

/-- The copy keeps the other lines exactly when it keeps every row. -/
theorem others_copied_iff (h0 : 0 ∉ file) :
    others key (textLines (copied key value file)) = others key (textLines file) ↔
      ∀ row ∈ textRows file, RowKept key value row := by
  have hrow := fun row (hrow : row ∈ textRows file) => others_row_iff hfits hkey hvalue
    (isRow_of_mem_textRows hrow) (notMem_row hrow h0)
  have hlines : textLines file = (textRows file).flatMap (fun row => [chomp row]) := by
    rw [textLines_eq_map, List.map_eq_flatMap]
  rw [textLines_copied h0, hlines, others_flatMap, others_flatMap,
    flatMap_eq_flatMap_iff (fun row h => (hrow row h).2)]
  exact forall₂_congr (fun row h => (hrow row h).1)

end Law

/-- The pieces hold the bytes of the file. -/
theorem notMem_piece {p : Bytes} (hp : p ∈ fgetsAll 512 file) (h0 : 0 ∉ file) : 0 ∉ p := by
  intro hmem
  refine h0 ?_
  rw [← (flatten_fgetsAll (n := 511) (by decide) file).1]
  exact List.mem_flatten_of_mem hp hmem

/-- Pieces that are not taken for the key are copied as they are. -/
theorem flatMap_rewritten_of_not {ps : List Bytes} (h0 : ∀ p ∈ ps, 0 ∉ p)
    (hno : ∀ p ∈ ps, isLineOf key p = false) :
    ps.flatMap (rewritten key value) = ps.flatten := by
  rw [← List.flatMap_id']
  exact List.flatMap_congr (fun p hp => rewritten_of_not (h0 p hp) (hno p hp))

theorem copied_of_not (h0 : 0 ∉ file) (hno : ∀ p ∈ fgetsAll 512 file, isLineOf key p = false) :
    copied key value file = file := by
  rw [copied, flatMap_rewritten_of_not (fun p hp => notMem_piece hp h0) hno]
  exact (flatten_fgetsAll (by decide) file).1

theorem any_isLineOf_iff {ps : List Bytes} :
    ps.any (isLineOf key) = false ↔ ∀ p ∈ ps, isLineOf key p = false := by
  rw [List.any_eq_false]
  exact forall₂_congr (fun p _ => Bool.not_eq_true _ ▸ Iff.rfl)

/-- A new entry stands on a line of its own exactly behind a newline. -/
theorem others_append_entry_iff (hshort : key.length < 511) (hkey : newline ∉ key)
    (hvalue : newline ∉ value) (h0 : 0 ∉ file)
    (hno : ∀ p ∈ fgetsAll 512 file, isLineOf key p = false) :
    others key (textLines (file ++ entryLine key value)) = others key (textLines file) ↔
      Ended file := by
  have hentry := (others_entryLine hkey hvalue []).2
  rw [List.append_nil] at hentry
  induction file using text_rows_induction with
  | nil => exact iff_of_true hentry ended_nil
  | rest l hl hne =>
    refine iff_of_false ?_ (not_ended_rest hl hne)
    have hrow := isRow_rest hl hne
    obtain ⟨p, ps, hpieces, hfirst⟩ := defines_iff_piece hshort hrow h0
    have hdef : ¬ Defines key l := by
      rw [hfirst, hno p (hpieces ▸ List.mem_cons_self)]
      exact Bool.false_ne_true
    have hnl : newline ∉ l ++ entryText (key, value) := by
      rw [entryText, List.mem_append, List.mem_append, List.mem_cons, not_or, not_or, not_or]
      exact ⟨hl, hkey, by decide, hvalue⟩
    rw [entryLine_eq (key, value), ← List.append_assoc, textLines_frame hnl, textLines_rest hl hne,
      others_cons_of_not hdef]
    by_cases hlong : Defines key (l ++ entryText (key, value))
    · rw [others_cons_of_defines hlong]
      exact (List.cons_ne_nil _ _).symm
    · rw [others_cons_of_not hlong]
      intro heq
      have hsame := (List.cons.inj heq).1
      rw [List.append_right_eq_self, entryText] at hsame
      exact List.append_ne_nil_of_right_ne_nil _ (List.cons_ne_nil _ _) hsame
  | frame l text hl ih =>
    rw [List.mem_append, List.mem_cons, not_or, not_or] at h0
    have hpieces : fgetsAll 512 (l ++ newline :: text) =
        fgetsAll 512 (l ++ [newline]) ++ fgetsAll 512 text :=
      fgetsAll_line_append (by decide) hl text
    have htext : others key (textLines (text ++ entryLine key value)) =
        others key (textLines text) ↔ Ended text :=
      ih h0.2.2 (fun p hp => hno p (hpieces ▸ List.mem_append_right _ hp))
    have hcons : ∀ ls, others key (l :: ls) = others key [l] ++ others key ls := others_append [l]
    rw [ended_frame hl, ← htext, List.append_assoc, List.cons_append, textLines_frame hl,
      textLines_frame hl, hcons, hcons (textLines text), List.append_cancel_left_eq]

/-- What a set writes for a file. -/
def written (key value file : Bytes) : Bytes :=
  copied key value file ++
    if (fgetsAll 512 file).any (isLineOf key) then [] else entryLine key value

/-- The other lines of the new file are those of the old one exactly when the text is kept. -/
theorem others_written_iff (hfits : key.length + 1 + value.length ≤ 511) (hkey : newline ∉ key)
    (hvalue : newline ∉ value) (h0 : 0 ∉ file) :
    others key (textLines (written key value file)) = others key (textLines file) ↔
      TextKept key value file := by
  have hcopy := others_copied_iff hfits hkey hvalue h0
  rw [written, TextKept]
  by_cases hno : ∀ p ∈ fgetsAll 512 file, isLineOf key p = false
  · have hany : (fgetsAll 512 file).any (isLineOf key) = false := any_isLineOf_iff.mpr hno
    have hsame : copied key value file = file := copied_of_not h0 hno
    rw [hsame] at hcopy
    rw [hany, if_neg Bool.false_ne_true, hsame, forall_prop_of_true hno,
      and_iff_right (hcopy.mp rfl)]
    exact others_append_entry_iff (by omega) hkey hvalue h0 hno
  · have hany : (fgetsAll 512 file).any (isLineOf key) = true := by
      rw [← Bool.not_eq_false, any_isLineOf_iff]
      exact hno
    rw [hany, if_pos rfl, List.append_nil, hcopy, and_iff_left (fun h => absurd h hno)]

end File

/-! ## The value -/

section Value

variable {key value file : Bytes}

/-- The value on a line of the key. -/
def valueOn (key line : Bytes) : Bytes := stripEnd ((cstr line).drop (key.length + 1))

theorem stripEnd_line {b : UInt8} (hb : b = newline ∨ b = carriageReturn) (v : Bytes) :
    stripEnd (v ++ [b]) = stripEnd v := by
  rw [stripEnd, List.rdropWhile_concat_pos, stripEnd]
  rw [Bool.or_eq_true, beq_iff_eq, beq_iff_eq]
  exact hb

theorem stripEnd_of_legal (h : ∀ b ∈ value, b ≠ carriageReturn ∧ b ≠ newline ∧ b ≠ 0) :
    stripEnd value = value := by
  rw [stripEnd, List.rdropWhile_eq_self_iff]
  intro hne hlast
  obtain ⟨hcr, hnl, -⟩ := h _ (List.getLast_mem hne)
  rw [Bool.or_eq_true, beq_iff_eq, beq_iff_eq] at hlast
  exact hlast.elim hnl hcr

theorem LegalEntry.newline_notMem (h : LegalEntry (key, value)) :
    newline ∉ key ∧ newline ∉ value :=
  ⟨fun hmem => (h.key _ hmem).2.2.1 rfl, fun hmem => (h.value _ hmem).2.1 rfl⟩

theorem LegalEntry.zero_notMem (h : LegalEntry (key, value)) : 0 ∉ entryText (key, value) := by
  rw [entryText, List.mem_append, List.mem_cons, not_or, not_or]
  exact ⟨fun hmem => (h.key _ hmem).2.2.2 rfl, by decide, fun hmem => (h.value _ hmem).2.2 rfl⟩

theorem drop_entryText (key value rest : Bytes) :
    (entryText (key, value) ++ rest).drop (key.length + 1) = value ++ rest := by
  rw [entryText, List.append_assoc, List.cons_append, ← List.drop_drop, List.drop_left,
    List.drop_one, List.tail_cons]

/-- A new entry that fits the buffer is read back. -/
theorem find?_entryLine (h : LegalEntry (key, value)) (hfits : key.length + 1 + value.length ≤ 511)
    (rest : Bytes) :
    ((fgetsAll 512 (entryLine key value ++ rest)).find? (isLineOf key)).map (valueOn key) =
      some value := by
  have hlen : (key ++ equals :: value).length = key.length + 1 + value.length := by
    rw [List.length_append, List.length_cons]
    omega
  change (entryText (key, value)).length = _ at hlen
  have hnl : newline ∉ entryText (key, value) := by
    rw [entryText, List.mem_append, List.mem_cons, not_or, not_or]
    exact ⟨h.newline_notMem.1, by decide, h.newline_notMem.2⟩
  have hfirst : ∀ (tail : Bytes) {p : Bytes} {ps : List Bytes}, 0 ∉ tail →
      p = entryText (key, value) ++ tail → stripEnd (value ++ tail) = value →
      ((p :: ps).find? (isLineOf key)).map (valueOn key) = some value := by
    rintro tail p ps h0 rfl hstrip
    have hzero : 0 ∉ entryText (key, value) ++ tail := by
      rw [List.mem_append, not_or]
      exact ⟨h.zero_notMem, h0⟩
    have hline : isLineOf key (entryText (key, value) ++ tail) = true :=
      (isLineOf_iff_defines hzero).mpr ((defines_entryText key value).trans
        (List.prefix_append _ _))
    rw [List.find?_cons_of_pos hline, Option.map_some, valueOn, cstr_of_notMem hzero,
      drop_entryText, hstrip]
  rw [entryLine_eq (key, value), List.append_assoc, List.singleton_append]
  rcases Nat.lt_or_ge (key.length + 1 + value.length) 511 with hlt | hge
  · rw [fgetsAll_line (by decide) rest hnl (by omega)]
    refine hfirst [newline] (by decide) rfl ?_
    rw [stripEnd_line (Or.inl rfl), stripEnd_of_legal h.value]
  · rw [fgetsAll_block (n := 511) (by decide) hnl (by omega)]
    refine hfirst [] List.not_mem_nil (List.append_nil _).symm ?_
    rw [List.append_nil, stripEnd_of_legal h.value]

/-- The value of the new file, where an entry that is added stands behind a newline. -/
theorem find?_written (h : LegalEntry (key, value)) (h0 : 0 ∉ file)
    (hfits : key.length + 1 + value.length ≤ 511)
    (hended : (∀ p ∈ fgetsAll 512 file, isLineOf key p = false) → Ended file) :
    ((fgetsAll 512 (written key value file)).find? (isLineOf key)).map (valueOn key) =
      some value := by
  have hskip : ∀ {ps qs : List Bytes}, (∀ p ∈ ps, isLineOf key p = false) →
      (ps ++ qs).find? (isLineOf key) = qs.find? (isLineOf key) := by
    intro ps qs hno
    rw [List.find?_append, List.find?_eq_none.mpr (fun p hp => by simp [hno p hp]),
      Option.none_or]
  rw [written]
  cases hfind : (fgetsAll 512 file).find? (isLineOf key) with
  | none =>
    have hno : ∀ p ∈ fgetsAll 512 file, isLineOf key p = false := by
      intro p hp
      simpa using List.find?_eq_none.mp hfind p hp
    have hentry := find?_entryLine h hfits []
    rw [List.append_nil] at hentry
    rw [any_isLineOf_iff.mpr hno, if_neg Bool.false_ne_true, copied_of_not h0 hno,
      fgetsAll_append (by decide) (hended hno), hskip hno, hentry]
  | some p =>
    obtain ⟨hline, ps, qs, hpieces, hps⟩ := List.find?_eq_some_iff_append.mp hfind
    have hno : ∀ p ∈ ps, isLineOf key p = false := by
      intro p hp
      simpa using hps p hp
    have hany : (fgetsAll 512 file).any (isLineOf key) = true :=
      List.any_eq_true.mpr ⟨p, hpieces ▸ List.mem_append_right _ List.mem_cons_self, hline⟩
    have hzero : ∀ p ∈ ps, 0 ∉ p :=
      fun p hp => notMem_piece (hpieces ▸ List.mem_append_left _ hp) h0
    rw [hany, if_pos rfl, List.append_nil, copied, hpieces, List.flatMap_append,
      List.flatMap_cons, rewritten_of_line hline, flatMap_rewritten_of_not hzero hno,
      fgetsAll_pieces_append (by decide) hpieces (List.cons_ne_nil _ _), hskip hno,
      find?_entryLine h hfits]

/-- What a get returns fits the buffer. -/
theorem fits_of_find? (h : ((fgetsAll 512 file).find? (isLineOf key)).map (valueOn key) =
    some value) : key.length + 1 + value.length ≤ 511 := by
  obtain ⟨line, hfind, hvalue⟩ := Option.map_eq_some_iff.mp h
  have hlen := ((flatten_fgetsAll (n := 511) (by decide) file).2 line
    (List.mem_of_find?_eq_some hfind)).2
  have hcstr : (cstr line).length ≤ line.length := (List.takeWhile_prefix _).length_le
  have hkey := (isLineOf_iff.mp (List.find?_some hfind)).length_le
  have hstrip := (List.rdropWhile_prefix (fun b => b == newline || b == carriageReturn)
    ((cstr line).drop (key.length + 1))).length_le
  rw [List.length_append, List.length_singleton] at hkey
  rw [valueOn, stripEnd] at hvalue
  rw [hvalue, List.length_drop] at hstrip
  omega

end Value

/-! ## The call -/

section Call

variable {ns : Bytes} {c : SetCall} {fs : Files}

/-- What the loop reads; a temporary file of the same name was emptied before. -/
theorem linesRead_eq (fs : Files) (ns : Bytes) :
    (if (fs (confPath ns)).isSome then fgetsAll 512 ((Function.update fs
        (tmpPath (confPath ns)) (some []) (confPath ns)).getD []) else []) =
      fgetsAll 512 (if tmpPath (confPath ns) = confPath ns then [] else confFile fs ns) := by
  by_cases hpath : tmpPath (confPath ns) = confPath ns
  · rw [hpath, Function.update_self, if_pos rfl]
    split <;> rfl
  · rw [if_neg hpath, Function.update_of_ne (Ne.symm hpath), confFile]
    cases fs (confPath ns) with
    | none => rfl
    | some file => rfl

/-- What is written for some lines. -/
theorem rewriteLines_out (key value : Bytes) (lines : List Bytes) :
    (let (out, replaced) := rewriteLines key value lines ([], false)
      if replaced then out else out ++ entryLine key value) =
      lines.flatMap (rewritten key value) ++
        if lines.any (isLineOf key) then [] else entryLine key value := by
  rw [rewriteLines_eq]
  simp only [List.nil_append, Bool.false_or]
  split
  · exact (List.append_nil _).symm
  · rfl

/-- A file that was written under the temporary name and renamed. -/
theorem rename_update {path tmp out : Bytes} :
    rename tmp path (Function.update fs tmp (some out)) path = some out := by
  rw [rename]
  split
  · next hpath => rw [hpath, Function.update_self]
  · next hpath =>
    rw [Function.update_of_ne (Ne.symm hpath), Function.update_self, Function.update_self]

theorem configSet_path (hopens : c.opens = true) :
    (configSet ns c fs).2 (confPath ns) = some (written c.key c.value
      (if tmpPath (confPath ns) = confPath ns then [] else confFile fs ns)) := by
  have hout := rewriteLines_out c.key c.value
    (fgetsAll 512 (if tmpPath (confPath ns) = confPath ns then [] else confFile fs ns))
  unfold configSet
  simp only [hopens, if_true]
  rw [linesRead_eq, rename_update, written, copied]
  exact congrArg some hout

/-- The file a set leaves. -/
theorem confFile_configSet (hopens : c.opens = true) :
    confFile (configSet ns c fs).2 ns = written c.key c.value
      (if tmpPath (confPath ns) = confPath ns then [] else confFile fs ns) := by
  rw [confFile, configSet_path hopens, Option.getD_some]

/-- **A set leaves the rest of the file alone** exactly when the entry fits the buffer, every line
is kept, and a new entry goes behind a newline. -/
theorem frames_iff (hc : LegalEntry c.entry) (h0 : 0 ∉ confFile fs ns) :
    Frames ns c fs ↔ c.opens = false ∨ Kept ns c fs := by
  cases hopens : c.opens with
  | false =>
    refine iff_of_true (fun hret => ?_) (Or.inl rfl)
    rw [configSet_fails hopens] at hret
    exact absurd hret (show (-1 : Int) ≠ 0 by decide)
  | true =>
    have hret : (configSet ns c fs).1 = 0 := by simp [configSet, hopens]
    have hget := configGet_eq (configSet ns c fs).2 ns c.key
    have hfile : confFile (configSet ns c fs).2 ns = _ := confFile_configSet hopens
    obtain ⟨hkey, hvalue⟩ := LegalEntry.newline_notMem hc
    rw [hfile] at hget
    rw [Frames, forall_prop_of_true hret, or_iff_right Bool.true_eq_false_eq_False.elim, hfile,
      hget, Kept]
    by_cases hpath : tmpPath (confPath ns) = confPath ns
    · rw [if_pos hpath, if_pos hpath]
      have hold : others c.key (textLines (confFile fs ns)) = [] ↔
          ∀ l ∈ textLines (confFile fs ns), Defines c.key l := by
        simp [others, List.filter_eq_nil_iff]
      have hnew : c.key.length + 1 + c.value.length ≤ 511 →
          others c.key (textLines (written c.key c.value [])) = [] := fun hfits =>
        (others_written_iff hfits hkey hvalue List.not_mem_nil).mpr
          ⟨fun row hrow => absurd hrow List.not_mem_nil, fun _ => ended_nil⟩
      rw [← hold]
      constructor
      · rintro ⟨hlaw, hread⟩
        have hfits := fits_of_find? hread
        exact ⟨hfits, hlaw.symm.trans (hnew hfits)⟩
      · rintro ⟨hfits, hnone⟩
        exact ⟨(hnew hfits).trans hnone.symm,
          find?_written hc List.not_mem_nil hfits (fun _ => ended_nil)⟩
    · rw [if_neg hpath, if_neg hpath]
      constructor
      · rintro ⟨hlaw, hread⟩
        have hfits := fits_of_find? hread
        exact ⟨hfits, (others_written_iff hfits hkey hvalue h0).mp hlaw⟩
      · rintro ⟨hfits, hkept⟩
        exact ⟨(others_written_iff hfits hkey hvalue h0).mpr hkept,
          find?_written hc h0 hfits hkept.2⟩

/-- A file whose last line has no newline. -/
def handEdited : Files := fun path =>
  if path = confPath (ascii "audio") then some (ascii "vol=5\nmute=1") else none

/-- A value over that of a line that is there. -/
theorem handEdited_frames : Frames (ascii "audio") ⟨ascii "vol", ascii "6", true⟩ handEdited := by
  refine (frames_iff ⟨by decide, by decide⟩ (by decide)).mpr (Or.inr ?_)
  decide

/-- A new key is written behind the last line: the line is `mute=1bass=2`. -/
theorem newKey_joins : ¬ Frames (ascii "audio") ⟨ascii "bass", ascii "2", true⟩ handEdited := by
  intro h
  have hlines := (h rfl).1
  revert hlines
  decide

end Call

end Persist
end BuildingBlocks
