import BuildingBlocks.Lib.Decimal
import BuildingBlocks.Lib.Print

/-!
# BuildingBlocks.Json.Writer

The JSON writer of `libbb/bb_json.c`.

* `Writer` is `bb_json_writer_t` with the memory its `buf` points to.
* `write` performs one call of `bb_json_add_string`, `add_int` or `add_bool` for every entry of an
  object, between `bb_json_start_object` and `bb_json_end_object`.
* `document` is the text; `write_document` — it is what the buffer holds when it fits.
-/

namespace BuildingBlocks
namespace Json

abbrev Bytes := List UInt8

def quote : UInt8 := 0x22
def backslash : UInt8 := 0x5c
def comma : UInt8 := 0x2c
def colon : UInt8 := 0x3a

/-! ## The code -/

structure Writer where
  buf : Nat → UInt8
  size : Nat
  pos : Nat

/-- `bb_json_init`. -/
def init (buf : Nat → UInt8) (size : Nat) : Writer :=
  { buf := store buf 0 [0], size := size, pos := 0 }

/-- `w->buf[w->pos++] = c`, within the buffer. -/
def Writer.push (c : UInt8) (w : Writer) : Writer :=
  if w.pos < w.size then { w with buf := store w.buf w.pos [c], pos := w.pos + 1 } else w

/-- `snprintf(w->buf + w->pos, w->size - w->pos, ...)`, and `pos` moved by its result. -/
def Writer.print (text : Bytes) (w : Writer) : Writer :=
  let r := snprintf w.buf w.pos (sizeT (w.size + 0x10000000000000000 - w.pos)) text
  { w with buf := r.1, pos := if 0 < r.2 then sizeT (w.pos + r.2.toNat) else w.pos }

/-- `bb_json_start_object`. -/
def startObject (w : Writer) : Writer := w.push 0x7b

/-- `bb_json_end_object`: a trailing comma is taken back. -/
def endObject (w : Writer) : Writer :=
  let w := if 1 < w.pos ∧ w.buf (w.pos - 1) = comma then { w with pos := w.pos - 1 } else w
  let w := w.push 0x7d
  if w.pos < w.size then { w with buf := store w.buf w.pos [0] } else w

/-- `add_key`. -/
def addKey (key : Bytes) (w : Writer) : Writer := w.print (quote :: key ++ [quote, colon])

/-- `bb_json_add_string`: no string is an empty one. -/
def addString (key : Bytes) (val : Option Bytes) (w : Writer) : Writer :=
  (addKey key w).print (quote :: val.getD [] ++ [quote, comma])

/-- `bb_json_add_int`. -/
def addInt (key : Bytes) (val : Int) (w : Writer) : Writer :=
  (addKey key w).print (intText val ++ [comma])

/-- `bb_json_add_bool`. -/
def addBool (key : Bytes) (val : Bool) (w : Writer) : Writer :=
  (addKey key w).print ((if val then ascii "true" else ascii "false") ++ [comma])

/-- `bb_json_add_double`; `text` is what `%.3f` prints of the value. -/
def addDouble (key text : Bytes) (w : Writer) : Writer := (addKey key w).print (text ++ [comma])

/-! ## Objects -/

inductive Value where
  | str (val : Bytes)
  | int (val : Int)
  | bool (val : Bool)
deriving DecidableEq, Repr

def add (key : Bytes) : Value → Writer → Writer
  | .str val => addString key (some val)
  | .int val => addInt key val
  | .bool val => addBool key val

def write (entries : List (Bytes × Value)) (w : Writer) : Writer :=
  endObject (entries.foldl (fun w e => add e.1 e.2 w) (startObject w))

/-- The C string a buffer of `size` bytes holds after the entries were written to it. -/
def written (mem : Nat → UInt8) (size : Nat) (entries : List (Bytes × Value)) : Bytes :=
  cstr (rows (write entries (init mem size)).buf size)

/-! ## The text -/

def valueText : Value → Bytes
  | .str val => quote :: val ++ [quote]
  | .int val => intText val
  | .bool val => if val then ascii "true" else ascii "false"

def quoted (text : Bytes) : Bytes := quote :: (text ++ [quote])

/-- A text whose length is no `int` is not counted. -/
def kept (text : Bytes) : Bytes := if text.length < 0x80000000 then text else []

def entryText (e : Bytes × Value) : Bytes :=
  kept (quote :: e.1 ++ [quote, colon]) ++ kept (valueText e.2 ++ [comma])

/-- Before the object is closed. -/
def openText (entries : List (Bytes × Value)) : Bytes := 0x7b :: entries.flatMap entryText

/-- A trailing comma is taken back. -/
def trim (text : Bytes) : Bytes :=
  if 1 < text.length ∧ text.getLast? = some comma then text.dropLast else text

theorem length_trim_le (text : Bytes) : (trim text).length ≤ text.length := by
  unfold trim
  split
  · rw [List.length_dropLast]
    exact Nat.sub_le _ _
  · exact le_rfl

def document (entries : List (Bytes × Value)) : Bytes := trim (openText entries) ++ [0x7d]

/-- The entries and their brace; the last entry has no comma. -/
def body : List (Bytes × Value) → Bytes
  | [] => []
  | [e] => quoted e.1 ++ colon :: (valueText e.2 ++ [0x7d])
  | e :: entries => quoted e.1 ++ colon :: (valueText e.2 ++ comma :: body entries)

/-- What follows an entry. -/
def tail (entries : List (Bytes × Value)) : Bytes :=
  if entries = [] then [0x7d] else comma :: body entries

theorem body_cons (e : Bytes × Value) (entries : List (Bytes × Value)) :
    body (e :: entries) = quoted e.1 ++ colon :: (valueText e.2 ++ tail entries) := by
  cases entries <;> rfl

/-- A brace or a comma, then the entries. -/
theorem tail_cases (entries : List (Bytes × Value)) :
    ∃ b, (b = 0x7d ∨ b = comma) ∧ tail entries = b :: body entries := by
  unfold tail
  split
  · rename_i h
    exact ⟨0x7d, Or.inl rfl, by rw [h]; rfl⟩
  · exact ⟨comma, Or.inr rfl, rfl⟩

/-- Every text that is printed for the entry has an `int` as its length. -/
def Short (e : Bytes × Value) : Prop :=
  e.1.length + 3 < 0x80000000 ∧ (valueText e.2).length + 1 < 0x80000000

instance : DecidablePred Short := fun _ => inferInstanceAs (Decidable (_ ∧ _))

section Document

variable {entries : List (Bytes × Value)} {e : Bytes × Value}

theorem entryText_eq (h : Short e) :
    entryText e = (quoted e.1 ++ colon :: valueText e.2) ++ [comma] := by
  have hkey : (quote :: e.1 ++ [quote, colon]).length < 0x80000000 := by
    have hlen := h.1
    simp only [List.cons_append, List.length_cons, List.length_append, List.length_nil]
    omega
  have hval : (valueText e.2 ++ [comma]).length < 0x80000000 := by
    have hlen := h.2
    rw [List.length_append, List.length_singleton]
    omega
  rw [entryText, kept, kept, if_pos hkey, if_pos hval]
  simp [quoted]

/-- The comma behind the last entry is where the brace goes. -/
theorem flatMap_entryText (h : ∀ e ∈ entries, Short e) (hne : entries ≠ []) :
    ∃ front, entries.flatMap entryText = front ++ [comma] ∧ body entries = front ++ [0x7d] := by
  induction entries with
  | nil => exact absurd rfl hne
  | cons e entries ih =>
    rw [List.flatMap_cons, body_cons, entryText_eq (h e List.mem_cons_self)]
    by_cases hlast : entries = []
    · subst hlast
      exact ⟨quoted e.1 ++ colon :: valueText e.2, by simp, by simp [tail]⟩
    · obtain ⟨front, hflat, hbody⟩ := ih (fun e he => h e (List.mem_cons_of_mem _ he)) hlast
      refine ⟨quoted e.1 ++ colon :: (valueText e.2 ++ comma :: front), ?_, ?_⟩
      · rw [hflat]
        simp
      · rw [tail, if_neg hlast, hbody]
        simp

theorem document_eq (h : ∀ e ∈ entries, Short e) :
    document entries = 0x7b :: (if entries = [] then [0x7d] else body entries) := by
  rw [document, openText]
  by_cases hne : entries = []
  · subst hne
    rfl
  · obtain ⟨front, hflat, hbody⟩ := flatMap_entryText h hne
    have hlast : 1 < (0x7b :: front ++ [comma]).length ∧
        (0x7b :: front ++ [comma]).getLast? = some comma := by
      rw [List.getLast?_concat]
      simp
    rw [if_neg hne, hflat, hbody, ← List.cons_append, trim, if_pos hlast, List.dropLast_concat]
    rfl

/-- The quotes, the colon and the comma or brace of each entry. -/
def entriesLength : List (Bytes × Value) → Nat
  | [] => 0
  | e :: entries => e.1.length + (valueText e.2).length + 4 + entriesLength entries

theorem length_flatMap_entryText (h : ∀ e ∈ entries, Short e) :
    (entries.flatMap entryText).length = entriesLength entries := by
  induction entries with
  | nil => rfl
  | cons e entries ih =>
    rw [List.flatMap_cons, List.length_append, ih (fun e' he => h e' (List.mem_cons_of_mem _ he)),
      entryText_eq (h e List.mem_cons_self), entriesLength]
    simp only [quoted, List.length_append, List.length_cons, List.length_nil]
    omega

theorem length_document (h : ∀ e ∈ entries, Short e) (hne : entries ≠ []) :
    (document entries).length = 1 + entriesLength entries := by
  obtain ⟨front, hfront, hbody⟩ := flatMap_entryText h hne
  rw [← length_flatMap_entryText h, document_eq h, if_neg hne, hfront, hbody]
  simp only [List.length_append, List.length_cons, List.length_nil]
  omega

theorem kept_subset (text : Bytes) : kept text ⊆ text := by
  unfold kept
  split
  · exact List.Subset.refl _
  · exact List.nil_subset _

theorem trim_subset (text : Bytes) : trim text ⊆ text := by
  unfold trim
  split
  · exact List.dropLast_subset _
  · exact List.Subset.refl _

/-- A byte of the document is one of the entries, or of the marks around them. -/
theorem mem_document {b : UInt8} (h : b ∈ document entries) :
    (∃ e ∈ entries, b ∈ e.1 ∨ b ∈ valueText e.2) ∨ b = quote ∨ b = colon ∨ b = comma ∨
      b = 0x7b ∨ b = 0x7d := by
  rcases List.mem_append.mp h with h | h
  · rcases List.mem_cons.mp (trim_subset _ h) with rfl | h
    · simp
    · obtain ⟨e, he, hb⟩ := List.mem_flatMap.mp h
      rcases List.mem_append.mp hb with hb | hb
      · have hkey := kept_subset _ hb
        simp only [List.mem_append, List.mem_cons, List.not_mem_nil, or_false] at hkey
        rcases hkey with (rfl | hkey) | rfl | rfl
        · simp
        · exact Or.inl ⟨e, he, Or.inl hkey⟩
        · simp
        · simp
      · have hval := kept_subset _ hb
        rcases List.mem_append.mp hval with hval | hval
        · exact Or.inl ⟨e, he, Or.inr hval⟩
        · simp [List.mem_singleton.mp hval]
  · simp [List.mem_singleton.mp h]

theorem not_mem_document {b : UInt8} (hmark : b ∉ [quote, colon, comma, 0x7b, 0x7d])
    (h : ∀ e ∈ entries, b ∉ e.1 ∧ b ∉ valueText e.2) : b ∉ document entries := by
  intro hmem
  rcases mem_document hmem with ⟨e, he, hkey | hval⟩ | hb
  · exact (h e he).1 hkey
  · exact (h e he).2 hval
  · exact hmark (by simpa using hb)

theorem zero_not_mem_document (h : ∀ e ∈ entries, (0 : UInt8) ∉ e.1 ∧ (0 : UInt8) ∉ valueText e.2) :
    (0 : UInt8) ∉ document entries :=
  not_mem_document (by decide) h

theorem zero_not_mem_valueText {v : Value} (h : ∀ s, v = .str s → (0 : UInt8) ∉ s) :
    (0 : UInt8) ∉ valueText v := by
  cases v with
  | str s =>
    have hs := h s rfl
    simp [valueText, hs, quote]
  | int z => exact notMem_intText rfl (by decide) z
  | bool b => cases b <;> decide

end Document

/-! ## What the calls do -/

/-- The text in front of `pos`. -/
def Holds (w : Writer) (text : Bytes) : Prop := w.pos = text.length ∧ rows w.buf w.pos = text

section Spec

variable {w : Writer} {text : Bytes}

theorem Holds.push (h : Holds w text) {c : UInt8} (hroom : text.length < w.size) :
    Holds (w.push c) (text ++ [c]) ∧ (w.push c).size = w.size := by
  obtain ⟨hpos, hrows⟩ := h
  rw [Writer.push, if_pos (by omega)]
  refine ⟨⟨by simp [hpos], ?_⟩, rfl⟩
  have hstore := rows_store w.buf w.pos [c] []
  rw [hrows] at hstore
  exact hstore

theorem Holds.print (h : Holds w text) {t : Bytes} (hsize : w.size < 0x10000000000000000)
    (hroom : (text ++ kept t).length < w.size) :
    Holds (w.print t) (text ++ kept t) ∧ (w.print t).size = w.size := by
  obtain ⟨hpos, hrows⟩ := h
  rw [List.length_append] at hroom
  have hlimit : sizeT (w.size + 0x10000000000000000 - w.pos) = w.size - w.pos :=
    sizeT_sub (by omega) hsize
  have hstored : ∀ front back, rows (store w.buf w.pos (front ++ back)) (w.pos + front.length) =
      text ++ front := by
    intro front back
    rw [rows_store, hrows]
  rw [Writer.print, hlimit, snprintf, if_neg (by omega)]
  refine ⟨?_, rfl⟩
  unfold kept at hroom ⊢
  by_cases hshort : t.length < 0x80000000
  · rw [if_pos hshort] at hroom
    have htake : t.take (w.size - w.pos - 1) = t := List.take_of_length_le (by omega)
    have hnew : (if 0 < (t.length : Int) then sizeT (w.pos + (t.length : Int).toNat) else w.pos) =
        w.pos + t.length := by
      rw [Int.toNat_natCast, sizeT_of_lt (by omega)]
      split
      · rfl
      · omega
    simp only [hshort, if_true, htake, hnew]
    exact ⟨by rw [List.length_append, hpos], hstored t [0]⟩
  · have hneg : ¬ (0 : Int) < -1 := by decide
    simp only [hshort, if_false, hneg, List.append_nil]
    exact ⟨hpos, by simpa using hstored [] _⟩

theorem Holds.add (h : Holds w text) {e : Bytes × Value} (hsize : w.size < 0x10000000000000000)
    (hroom : (text ++ entryText e).length < w.size) :
    Holds (add e.1 e.2 w) (text ++ entryText e) ∧ (add e.1 e.2 w).size = w.size := by
  have hadd : Json.add e.1 e.2 w = (addKey e.1 w).print (valueText e.2 ++ [comma]) := by
    cases hv : e.2 with
    | str val => simp [Json.add, addString, valueText]
    | int val => rfl
    | bool val => rfl
  rw [entryText, ← List.append_assoc] at hroom ⊢
  obtain ⟨hkey, hkeySize⟩ := h.print (t := quote :: e.1 ++ [quote, colon]) hsize
    (by rw [List.length_append] at hroom; omega)
  rw [hadd]
  have hval := hkey.print (t := valueText e.2 ++ [comma]) (by rw [hkeySize]; exact hsize)
    (by rw [hkeySize]; exact hroom)
  rw [hkeySize] at hval
  exact hval

theorem Holds.adds (h : Holds w text) (entries : List (Bytes × Value))
    (hsize : w.size < 0x10000000000000000)
    (hroom : (text ++ entries.flatMap entryText).length < w.size) :
    Holds (entries.foldl (fun w e => Json.add e.1 e.2 w) w) (text ++ entries.flatMap entryText) ∧
      (entries.foldl (fun w e => Json.add e.1 e.2 w) w).size = w.size := by
  induction entries generalizing w text with
  | nil =>
    rw [List.flatMap_nil, List.append_nil]
    exact ⟨h, rfl⟩
  | cons e entries ih =>
    rw [List.flatMap_cons, ← List.append_assoc] at hroom ⊢
    obtain ⟨hfirst, hfirstSize⟩ := h.add (e := e) hsize
      (by rw [List.length_append] at hroom; omega)
    obtain ⟨hrest, hrestSize⟩ := ih hfirst (by rw [hfirstSize]; exact hsize)
      (by rw [hfirstSize]; exact hroom)
    exact ⟨hrest, hrestSize.trans hfirstSize⟩

/-- The trailing comma taken back. -/
theorem Holds.trim (h : Holds w text) :
    Holds (if 1 < w.pos ∧ w.buf (w.pos - 1) = comma then { w with pos := w.pos - 1 } else w)
      (trim text) := by
  obtain ⟨hpos, hrows⟩ := h
  have hlast : (1 < w.pos ∧ w.buf (w.pos - 1) = comma) ↔
      (1 < text.length ∧ text.getLast? = some comma) := by
    rw [hpos]
    refine and_congr_right ?_
    intro hlen
    have hget : text.getLast? = some (w.buf (text.length - 1)) := by
      rw [List.getLast?_eq_getElem?, ← hrows, hpos]
      simp [rows, show text.length - 1 < text.length by omega]
    rw [hget, Option.some.injEq]
  unfold Json.trim
  by_cases hc : 1 < text.length ∧ text.getLast? = some comma
  · rw [if_pos hc, if_pos (hlast.mpr hc)]
    refine ⟨by simp [hpos], ?_⟩
    have hsucc := rows_succ w.buf (w.pos - 1)
    rw [show w.pos - 1 + 1 = w.pos by omega, hrows] at hsucc
    rw [hsucc, List.dropLast_concat]
  · rw [if_neg hc, if_neg (mt hlast.mp hc)]
    exact ⟨hpos, hrows⟩

/-- Closing the object, with room for the brace and the NUL. -/
theorem Holds.endObject (h : Holds w text) (hroom : (Json.trim text ++ [0x7d]).length < w.size) :
    rows (endObject w).buf (Json.trim text ++ [0x7d]).length = Json.trim text ++ [0x7d] ∧
      (endObject w).buf (Json.trim text ++ [0x7d]).length = 0 := by
  have htrim := h.trim
  have hsize : (if 1 < w.pos ∧ w.buf (w.pos - 1) = comma then { w with pos := w.pos - 1 }
      else w).size = w.size := by
    split <;> rfl
  obtain ⟨⟨hpos', hrows'⟩, hsize'⟩ := htrim.push (c := 0x7d) (by
    rw [hsize]
    rw [List.length_append] at hroom
    omega)
  rw [hsize] at hsize'
  unfold Json.endObject
  simp only
  rw [if_pos (by rw [hpos', hsize']; exact hroom)]
  rw [hpos'] at hrows' ⊢
  refine ⟨?_, ?_⟩
  · have hstore := rows_store ((if 1 < w.pos ∧ w.buf (w.pos - 1) = comma then
      { w with pos := w.pos - 1 } else w).push 0x7d).buf (Json.trim text ++ [0x7d]).length [] [0]
    rw [hrows'] at hstore
    simpa using hstore
  · have hend := store_at ((if 1 < w.pos ∧ w.buf (w.pos - 1) = comma then
      { w with pos := w.pos - 1 } else w).push 0x7d).buf (Json.trim text ++ [0x7d]).length
      (show 0 < [(0 : UInt8)].length by decide)
    exact hend

end Spec

/-- The length of the text before it is closed. -/
theorem length_openText_le (entries : List (Bytes × Value)) :
    (openText entries).length ≤ (document entries).length := by
  rw [document, List.length_append, trim]
  split
  · rw [List.length_dropLast]
    simp
    omega
  · simp

/-- **What is written is the document.** In a buffer that holds it and a NUL, the calls leave the
text of the object. -/
theorem write_document (mem : Nat → UInt8) {size : Nat} {entries : List (Bytes × Value)}
    (hsize : size < 0x10000000000000000) (hroom : (document entries).length < size)
    (hzero : 0 ∉ document entries) : written mem size entries = document entries := by
  have hopen := length_openText_le entries
  have hinit : Holds (init mem size) [] := ⟨rfl, rfl⟩
  obtain ⟨hstart, hstartSize⟩ := hinit.push (c := 0x7b)
    (show (0 : Nat) < size by omega)
  obtain ⟨hadds, haddsSize⟩ := hstart.adds entries
    (by rw [hstartSize]; exact hsize)
    (by rw [hstartSize]; exact Nat.lt_of_le_of_lt hopen hroom)
  rw [hstartSize] at haddsSize
  obtain ⟨hrows, hend⟩ := Holds.endObject hadds (by rw [haddsSize]; exact hroom)
  exact cstr_rows hroom hrows hend hzero

end Json
end BuildingBlocks
