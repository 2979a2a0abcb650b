import BuildingBlocks.Json.Writer
import BuildingBlocks.Lib.Run

/-!
# BuildingBlocks.Json.Bounds

Where the JSON writer stays inside its buffer.

* `Call` is one call of the writer; `Call.Law` what each must keep: `pos` within `size` wherever a
  byte is read or printed, nothing changed behind the buffer, and a NUL in it at the end.
* `Fits` is the condition, on the text the calls would make without a limit.
* `law_iff` — exactly the sequences that fit keep the law.
-/

namespace BuildingBlocks
namespace Json

open Lib

/-! ## Calls -/

inductive Call where
  | startObject
  | addString (key : Bytes) (val : Option Bytes)
  | addInt (key : Bytes) (val : Int)
  | addBool (key : Bytes) (val : Bool)
  | addDouble (key text : Bytes)
  | endObject
deriving DecidableEq, Repr

def Call.run : Call → Writer → Writer
  | .startObject => Json.startObject
  | .addString key val => Json.addString key val
  | .addInt key val => Json.addInt key val
  | .addBool key val => Json.addBool key val
  | .addDouble key text => Json.addDouble key text
  | .endObject => Json.endObject

/-- The two texts a call prints, that of the key and that of the value. -/
def Call.texts : Call → Option (Bytes × Bytes)
  | .startObject => none
  | .addString key val =>
    some (quote :: key ++ [quote, colon], quote :: val.getD [] ++ [quote, comma])
  | .addInt key val => some (quote :: key ++ [quote, colon], intText val ++ [comma])
  | .addBool key val => some (quote :: key ++ [quote, colon],
      (if val then ascii "true" else ascii "false") ++ [comma])
  | .addDouble key text => some (quote :: key ++ [quote, colon], text ++ [comma])
  | .endObject => none

/-- The strings of a call are C strings. -/
def Call.Strings (c : Call) : Prop := ∀ t ∈ c.texts, 0 ∉ t.1 ∧ 0 ∉ t.2

instance : DecidablePred Call.Strings := fun c =>
  inferInstanceAs (Decidable (∀ _ ∈ c.texts, _ ∧ _))

def step (w : Writer) (c : Call) : Option Writer := some (c.run w)

/-! ## The law -/

/-- Where `pos` stands when a byte is read or a text printed, and after the call. -/
def Call.positions (c : Call) (w : Writer) : List Nat :=
  match c.texts with
  | none => [w.pos, (c.run w).pos]
  | some t => [w.pos, (w.print t.1).pos, (c.run w).pos]

/-- With `pos` within `size` the length given to `snprintf` does not wrap around, and the byte that
`bb_json_end_object` reads in front of `pos` is one of the buffer. -/
structure Call.Law (w : Writer) (c : Call) : Prop where
  positions : ∀ p ∈ c.positions w, p ≤ w.size
  outside : ∀ i, w.size ≤ i → (c.run w).buf i = w.buf i
  ended : c = .endObject → ∃ i, i < w.size ∧ (c.run w).buf i = 0

/-! ## The condition -/

/-- The text behind a call, without a limit. -/
def Call.extend (text : Bytes) (c : Call) : Bytes :=
  match c with
  | .startObject => text ++ [0x7b]
  | .endObject => trim text ++ [0x7d]
  | .addString _ _ | .addInt _ _ | .addBool _ _ | .addDouble _ _ =>
    match c.texts with
    | none => text
    | some t => text ++ kept t.1 ++ kept t.2

/-- Nothing the call prints is counted. -/
def Call.Silent (c : Call) : Prop := ∀ t ∈ c.texts, kept t.1 = [] ∧ kept t.2 = []

instance : DecidablePred Call.Silent := fun c =>
  inferInstanceAs (Decidable (∀ _ ∈ c.texts, _ ∧ _))

/-- The call may take the last byte: a pair leaves a NUL there, an opening brace does not, and a
closing brace needs one. -/
def Call.MayFill (c : Call) (cs : List Call) : Prop :=
  match c with
  | .startObject => .endObject ∉ cs
  | .endObject => False
  | .addString _ _ | .addInt _ _ | .addBool _ _ | .addDouble _ _ => True

instance (c : Call) (cs : List Call) : Decidable (c.MayFill cs) :=
  match c with
  | .startObject => inferInstanceAs (Decidable (_ ∉ _))
  | .endObject => .isFalse id
  | .addString _ _ => .isTrue trivial
  | .addInt _ _ => .isTrue trivial
  | .addBool _ _ => .isTrue trivial
  | .addDouble _ _ => .isTrue trivial

/-- Every call leaves room for a byte, or it fills the buffer and nothing is printed behind it. -/
def Fits (size : Nat) : Bytes → List Call → Prop
  | _, [] => True
  | text, c :: cs =>
    if (c.extend text).length < size then Fits size (c.extend text) cs
    else (c.extend text).length = size ∧ c.MayFill cs ∧ ∀ c' ∈ cs, c'.Silent

instance Fits.decidable (size : Nat) : ∀ text cs, Decidable (Fits size text cs)
  | _, [] => .isTrue trivial
  | text, c :: cs =>
    have : Decidable (Fits size (c.extend text) cs) := Fits.decidable size (c.extend text) cs
    inferInstanceAs (Decidable (if (c.extend text).length < size then Fits size (c.extend text) cs
      else (c.extend text).length = size ∧ c.MayFill cs ∧ ∀ c' ∈ cs, c'.Silent))

/-! ## One print -/

/-- A buffer no object is larger than. -/
def maxObject : Nat := 0x8000000000000000

section Print

variable {w : Writer} {text t : Bytes} {i : Nat}

theorem print_size (w : Writer) (t : Bytes) : (w.print t).size = w.size := by
  rw [Writer.print]

/-- From inside the buffer `pos` moves by what is counted, however little of it fits. -/
theorem print_pos (hsize : w.size < maxObject) (hpos : w.pos ≤ w.size) (t : Bytes) :
    (w.print t).pos = w.pos + (kept t).length := by
  unfold maxObject at hsize
  simp only [Writer.print, snprintf, kept]
  by_cases hshort : t.length < 0x80000000
  · simp only [hshort, if_true, Int.toNat_natCast]
    rw [sizeT_of_lt (by omega)]
    split
    · rfl
    · omega
  · simp [hshort]

/-- From inside the buffer nothing is written behind it. -/
theorem print_outside (hsize : w.size < maxObject) (hpos : w.pos ≤ w.size) (t : Bytes)
    (hi : w.size ≤ i) : (w.print t).buf i = w.buf i := by
  unfold maxObject at hsize
  simp only [Writer.print, snprintf]
  rw [sizeT_sub hpos (by omega)]
  split
  · rfl
  · have hlen := List.length_take_le (w.size - w.pos - 1) t
    rw [store, if_neg]
    rw [List.length_append, List.length_singleton]
    omega

/-- A full buffer is left as it is. -/
theorem print_full (hsize : w.size < maxObject) (hpos : w.pos = w.size) (t : Bytes) :
    (w.print t).buf = w.buf := by
  unfold maxObject at hsize
  simp only [Writer.print, snprintf]
  rw [sizeT_sub hpos.le (by omega), if_pos (by omega)]

/-- A text that fills the buffer leaves a NUL in its last byte. -/
theorem print_fill (hsize : w.size < maxObject) (hpos : w.pos < w.size)
    (hfill : w.pos + (kept t).length = w.size) : (w.print t).buf (w.size - 1) = 0 := by
  have hshort : t.length < 0x80000000 ∧ (kept t).length = t.length := by
    unfold kept at hfill ⊢
    by_cases hlt : t.length < 0x80000000
    · rw [if_pos hlt]
      exact ⟨hlt, rfl⟩
    · rw [if_neg hlt, List.length_nil] at hfill
      omega
  unfold maxObject at hsize
  simp only [Writer.print, snprintf]
  rw [sizeT_sub hpos.le (by omega), if_neg (by omega)]
  have hlen : (t.take (w.size - w.pos - 1)).length = w.size - w.pos - 1 := by
    rw [List.length_take]
    omega
  have hlast : w.size - 1 = w.pos + (t.take (w.size - w.pos - 1)).length := by
    rw [hlen]
    omega
  rw [hlast, store_at _ _ (by rw [List.length_append]; exact Nat.lt_add_one _)]
  rw [List.getElem_append_right le_rfl]
  simp

end Print

/-! ## A full buffer -/

/-- The buffer is full; `ended` says whether there is a NUL in it. -/
structure Full (ended : Prop) (w : Writer) : Prop where
  pos : w.pos = w.size
  last : w.buf (w.size - 1) ≠ comma
  nul : (∃ i, i < w.size ∧ w.buf i = 0) ↔ ended

section Full

variable {w : Writer} {ended : Prop} {c : Call} {t : Bytes × Bytes}

theorem run_texts (h : c.texts = some t) (w : Writer) : c.run w = (w.print t.1).print t.2 := by
  cases c with
  | startObject => exact nomatch h
  | endObject => exact nomatch h
  | addString key val =>
    obtain rfl := Option.some.inj h
    simp only [Call.run, Json.addString, addKey]
  | addInt key val =>
    obtain rfl := Option.some.inj h
    simp only [Call.run, Json.addInt, addKey]
  | addBool key val =>
    obtain rfl := Option.some.inj h
    simp only [Call.run, Json.addBool, addKey]
  | addDouble key text =>
    obtain rfl := Option.some.inj h
    simp only [Call.run, Json.addDouble, addKey]

theorem texts_eq_none (h : c.texts = none) : c = .startObject ∨ c = .endObject := by
  cases c with
  | startObject => exact Or.inl rfl
  | endObject => exact Or.inr rfl
  | addString key val => exact nomatch h
  | addInt key val => exact nomatch h
  | addBool key val => exact nomatch h
  | addDouble key text => exact nomatch h

/-- Braces have no effect on a full buffer. -/
theorem Full.run_brace (h : Full ended w) (hc : c.texts = none) : c.run w = w := by
  have hpush : ∀ b, w.push b = w := by
    intro b
    rw [Writer.push, if_neg]
    rw [h.pos]
    exact lt_irrefl _
  rcases texts_eq_none hc with rfl | rfl
  · exact hpush 0x7b
  · have hkeep : ¬ (1 < w.pos ∧ w.buf (w.pos - 1) = comma) := by
      rintro ⟨-, hcomma⟩
      rw [h.pos] at hcomma
      exact h.last hcomma
    simp only [Call.run, Json.endObject]
    rw [if_neg hkeep, hpush, if_neg]
    rw [h.pos]
    exact lt_irrefl _

/-- Neither has a pair of which nothing is counted. -/
theorem Full.run_silent (h : Full ended w) (hsize : w.size < maxObject) (hc : c.Silent) :
    c.run w = w := by
  have hquiet : ∀ t, kept t = [] → w.print t = w := by
    intro t ht
    have hbuf := print_full hsize h.pos t
    have hpos := print_pos hsize h.pos.le t
    rw [ht, List.length_nil, Nat.add_zero] at hpos
    have hext : ∀ v : Writer, v.buf = w.buf → v.size = w.size → v.pos = w.pos → v = w := by
      rintro ⟨buf, size, pos⟩ rfl rfl rfl
      rfl
    exact hext _ hbuf (print_size w t) hpos
  cases ht : c.texts with
  | none => exact h.run_brace ht
  | some t =>
    obtain ⟨hkey, hval⟩ := hc t ht
    rw [run_texts ht, hquiet _ hkey, hquiet _ hval]

theorem Full.law_exact (h : Full ended w) (hsize : w.size < maxObject) :
    c.Law w ↔ c.Silent ∧ (c = .endObject → ended) := by
  constructor
  · intro hlaw
    refine ⟨?_, ?_⟩
    · intro t ht
      have hpositions := hlaw.positions
      rw [Call.positions, ht] at hpositions
      have hkey := hpositions (w.print t.1).pos (by simp)
      have hkeyPos := print_pos hsize h.pos.le t.1
      rw [h.pos] at hkeyPos
      have hval := hpositions (c.run w).pos (by simp)
      rw [run_texts ht] at hval
      have hvalPos : ((w.print t.1).print t.2).pos = (w.print t.1).pos + (kept t.2).length :=
        print_pos (by rw [print_size]; exact hsize) (by rw [print_size]; exact hkey) t.2
      exact ⟨List.eq_nil_of_length_eq_zero (by omega), List.eq_nil_of_length_eq_zero (by omega)⟩
    · rintro rfl
      rw [← h.nul]
      have hended := hlaw.ended rfl
      rwa [h.run_brace rfl] at hended
  · rintro ⟨hsilent, hended⟩
    have hrun := h.run_silent hsize hsilent
    refine ⟨?_, ?_, ?_⟩
    · intro p hp
      cases ht : c.texts with
      | none =>
        rw [Call.positions, ht, hrun] at hp
        have hpw : p = w.pos := by simpa using hp
        rw [hpw, h.pos]
      | some t =>
        rw [Call.positions, ht, hrun] at hp
        obtain ⟨hkey, -⟩ := hsilent t ht
        have hkeyPos := print_pos hsize h.pos.le t.1
        rw [hkey, List.length_nil, Nat.add_zero] at hkeyPos
        have hpw : p = w.pos := by simpa [hkeyPos] using hp
        rw [hpw, h.pos]
    · intro i _
      rw [hrun]
    · intro hc
      rw [hrun]
      exact h.nul.mpr (hended hc)

theorem Full.meets_iff (h : Full ended w) (hsize : w.size < maxObject) (cs : List Call) :
    Meets step (fun w c => c.Law w) w cs ↔
      (∀ c ∈ cs, c.Silent) ∧ (.endObject ∈ cs → ended) := by
  induction cs with
  | nil => simp [Meets]
  | cons c cs ih =>
    have htail : c.Silent → ((∀ s', step w c = some s' → Meets step (fun w c => c.Law w) s' cs) ↔
        Meets step (fun w c => c.Law w) w cs) := by
      intro hc
      simp only [step, h.run_silent hsize hc, Option.some.injEq, forall_eq']
    simp only [Meets, h.law_exact hsize, List.mem_cons, forall_eq_or_imp]
    constructor
    · rintro ⟨⟨hsilent, hended⟩, hrest⟩
      obtain ⟨hall, hend⟩ := ih.mp ((htail hsilent).mp hrest)
      refine ⟨⟨hsilent, hall⟩, ?_⟩
      rintro (hc | hc)
      · exact hended hc.symm
      · exact hend hc
    · rintro ⟨⟨hsilent, hall⟩, hend⟩
      exact ⟨⟨hsilent, fun hc => hend (Or.inl hc.symm)⟩,
        (htail hsilent).mpr (ih.mpr ⟨hall, fun hc => hend (Or.inr hc)⟩)⟩

end Full

/-! ## A buffer with room -/

/-- The buffer holds the text and has room for a byte. -/
structure Room (text : Bytes) (w : Writer) : Prop where
  holds : Holds w text
  room : text.length < w.size
  strings : 0 ∉ text

section Room

variable {w : Writer} {text : Bytes} {c : Call} {t : Bytes × Bytes}

theorem Room.pos (h : Room text w) : w.pos = text.length := h.holds.1

theorem push_frame {b : UInt8} (hpos : w.pos < w.size) :
    (w.push b).pos = w.pos + 1 ∧ (w.push b).size = w.size ∧
      ∀ i, w.size ≤ i → (w.push b).buf i = w.buf i := by
  rw [Writer.push, if_pos hpos]
  refine ⟨rfl, rfl, ?_⟩
  intro i hi
  have hbehind : ¬ (w.pos ≤ i ∧ i < w.pos + [b].length) := by
    rw [List.length_singleton]
    omega
  exact if_neg hbehind

theorem store_ne {mem : Nat → UInt8} {pos i : Nat} (b : UInt8) (h : i ≠ pos) :
    store mem pos [b] i = mem i := by
  refine if_neg ?_
  rw [List.length_singleton]
  omega

theorem store_eq (mem : Nat → UInt8) (pos : Nat) (b : UInt8) : store mem pos [b] pos = b := by
  simp [store]

/-- A text without a NUL that fills the buffer leaves none in it. -/
theorem no_nul {size : Nat} {mem : Nat → UInt8} (hrows : rows mem size = text) (h0 : 0 ∉ text) :
    ¬ ∃ i, i < size ∧ mem i = 0 := by
  rintro ⟨i, hi, hnul⟩
  refine h0 ?_
  rw [← hrows, ← hnul]
  exact List.mem_map.mpr ⟨i, List.mem_range.mpr hi, rfl⟩

/-! ### Opening -/

theorem Room.startObject (h : Room text w) :
    Call.startObject.Law w ∧ (Json.startObject w).size = w.size ∧
      Holds (Json.startObject w) (text ++ [0x7b]) := by
  have hpos : w.pos < w.size := h.pos ▸ h.room
  obtain ⟨hpos', hsize', houtside⟩ := push_frame (b := 0x7b) hpos
  obtain ⟨hholds, -⟩ := h.holds.push (c := 0x7b) h.room
  refine ⟨⟨?_, houtside, fun hc => nomatch hc⟩, hsize', hholds⟩
  intro p hp
  have hp' : p = w.pos ∨ p = (w.push 0x7b).pos := by
    simpa [Call.positions, Call.texts, Call.run, Json.startObject] using hp
  rcases hp' with rfl | rfl
  · exact hpos.le
  · rw [hpos']
    exact hpos

theorem Room.startObject_full (h : Room text w) (hfull : text.length + 1 = w.size) :
    Full False (Json.startObject w) := by
  obtain ⟨-, hsize, hpos, hrows⟩ := h.startObject
  have hlen : (text ++ [0x7b]).length = w.size := by
    rw [List.length_append, List.length_singleton, hfull]
  rw [hlen] at hpos
  rw [hpos] at hrows
  have h0 : 0 ∉ text ++ [0x7b] := by
    rw [List.mem_append, not_or]
    exact ⟨h.strings, by decide⟩
  refine ⟨by rw [hpos, hsize], ?_, ?_⟩
  · have hlast : (rows (Json.startObject w).buf w.size)[w.size - 1]? = some 0x7b := by
      rw [hrows, ← hlen, List.length_append, List.length_singleton, Nat.add_sub_cancel]
      exact List.getElem?_concat_length
    rw [hsize]
    have hget : (Json.startObject w).buf (w.size - 1) = 0x7b := by
      simpa [rows, show w.size - 1 < w.size by omega] using hlast
    rw [hget]
    decide
  · rw [hsize]
    exact iff_of_false (no_nul hrows h0) id

/-! ### Closing -/

theorem Room.endObject (h : Room text w) :
    (Json.endObject w).size = w.size ∧ Holds (Json.endObject w) (trim text ++ [0x7d]) ∧
      (∀ i, w.size ≤ i → (Json.endObject w).buf i = w.buf i) ∧
      ((trim text ++ [0x7d]).length < w.size →
        (Json.endObject w).buf (trim text ++ [0x7d]).length = 0) := by
  have htrim := h.holds.trim
  have hle := length_trim_le text
  have hroom := h.room
  set w₁ := if 1 < w.pos ∧ w.buf (w.pos - 1) = comma then { w with pos := w.pos - 1 } else w
    with hw₁
  have hsize₁ : w₁.size = w.size := by
    rw [hw₁]
    split <;> rfl
  have hbuf₁ : w₁.buf = w.buf := by
    rw [hw₁]
    split <;> rfl
  have hpos₁ : w₁.pos < w₁.size := by
    rw [htrim.1, hsize₁]
    omega
  obtain ⟨hpos₂, hsize₂, houtside⟩ := push_frame (b := 0x7d) hpos₁
  obtain ⟨hholds, -⟩ := htrim.push (c := 0x7d) (by rw [hsize₁]; omega)
  have hrun : Json.endObject w = if (w₁.push 0x7d).pos < (w₁.push 0x7d).size then
      { w₁.push 0x7d with buf := store (w₁.push 0x7d).buf (w₁.push 0x7d).pos [0] }
      else w₁.push 0x7d := rfl
  rw [hrun]
  rw [hsize₁] at hsize₂
  by_cases hmore : (w₁.push 0x7d).pos < (w₁.push 0x7d).size
  · rw [if_pos hmore]
    obtain ⟨hpos, hrows⟩ := hholds
    have hstore := rows_store (w₁.push 0x7d).buf (w₁.push 0x7d).pos [] [0]
    refine ⟨hsize₂, ⟨hpos, ?_⟩, ?_, ?_⟩
    · rw [← hrows]
      simpa using hstore
    · intro i hi
      have hne : i ≠ (w₁.push 0x7d).pos := by
        rw [hsize₂] at hmore
        omega
      rw [← hbuf₁, ← houtside i (by rw [hsize₁]; exact hi)]
      exact store_ne 0 hne
    · intro _
      rw [← hpos]
      exact store_eq _ _ _
  · rw [if_neg hmore]
    refine ⟨hsize₂, hholds, ?_, ?_⟩
    · intro i hi
      rw [← hbuf₁]
      exact houtside i (by rw [hsize₁]; exact hi)
    · intro hlt
      rw [hsize₂, hholds.1] at hmore
      exact absurd hlt hmore

theorem Room.endObject_law (h : Room text w) :
    Call.endObject.Law w ↔ (trim text ++ [0x7d]).length < w.size := by
  obtain ⟨hsize, hholds, houtside, hnul⟩ := h.endObject
  have hle := length_trim_le text
  have hroom := h.room
  have hlen : (trim text ++ [0x7d]).length = (trim text).length + 1 := by
    rw [List.length_append, List.length_singleton]
  constructor
  · intro hlaw
    by_contra hfull
    have hexact : (trim text ++ [0x7d]).length = w.size := by omega
    have hended := hlaw.ended rfl
    have h0 : 0 ∉ trim text ++ [0x7d] := by
      rw [List.mem_append, not_or]
      exact ⟨fun hm => h.strings (trim_subset text hm), by decide⟩
    have hrows := hholds.2
    rw [hholds.1, hexact] at hrows
    exact no_nul hrows h0 hended
  · intro hlt
    refine ⟨?_, houtside, fun _ => ⟨_, hlt, hnul hlt⟩⟩
    intro p hp
    have hp' : p = w.pos ∨ p = (Json.endObject w).pos := by
      simpa [Call.positions, Call.texts, Call.run] using hp
    rcases hp' with rfl | rfl
    · rw [h.pos]
      exact hroom.le
    · rw [hholds.1]
      exact hlt.le

/-! ### A pair -/

theorem kept_strings {text : Bytes} (h : 0 ∉ text) : 0 ∉ kept text :=
  fun hm => h (kept_subset text hm)

theorem Room.add (h : Room text w) (hsize : w.size < maxObject) (ht : c.texts = some t) :
    (c.run w).size = w.size ∧
      (c.Law w ↔ (text ++ kept t.1 ++ kept t.2).length ≤ w.size) ∧
      ((text ++ kept t.1 ++ kept t.2).length < w.size →
        Holds (c.run w) (text ++ kept t.1 ++ kept t.2)) ∧
      ((text ++ kept t.1 ++ kept t.2).length = w.size → Full True (c.run w)) := by
  have hroom := h.room
  have hlen : (text ++ kept t.1 ++ kept t.2).length =
      text.length + (kept t.1).length + (kept t.2).length := by
    rw [List.length_append, List.length_append]
  have hsizes : ((w.print t.1).print t.2).size = w.size := by rw [print_size, print_size]
  have hsizeKey : (w.print t.1).size < maxObject := by rwa [print_size]
  have hposLe : w.pos ≤ w.size := by
    rw [h.pos]
    exact hroom.le
  have hkeyPos := print_pos hsize hposLe t.1
  rw [h.pos] at hkeyPos
  have hvalPos : (w.print t.1).pos ≤ w.size →
      ((w.print t.1).print t.2).pos = text.length + (kept t.1).length + (kept t.2).length := by
    intro hkey
    rw [print_pos hsizeKey (by rwa [print_size]) t.2, hkeyPos]
  rw [run_texts ht]
  refine ⟨hsizes, ?_, ?_, ?_⟩
  · rw [hlen]
    constructor
    · intro hlaw
      have hpositions := hlaw.positions
      rw [Call.positions, ht, run_texts ht] at hpositions
      have hkey := hpositions (w.print t.1).pos (by simp)
      have hval := hpositions ((w.print t.1).print t.2).pos (by simp)
      rwa [hvalPos hkey] at hval
    · intro hle
      have hkey : (w.print t.1).pos ≤ w.size := by omega
      refine ⟨?_, ?_, ?_⟩
      · intro p hp
        rw [Call.positions, ht, run_texts ht] at hp
        have hp' : p = w.pos ∨ p = (w.print t.1).pos ∨ p = ((w.print t.1).print t.2).pos := by
          simpa using hp
        rcases hp' with rfl | rfl | rfl
        · exact hposLe
        · exact hkey
        · rwa [hvalPos hkey]
      · intro i hi
        rw [run_texts ht, print_outside hsizeKey (by rwa [print_size]) t.2 (by rwa [print_size]),
          print_outside hsize hposLe t.1 hi]
      · rintro rfl
        exact nomatch ht
  · intro hlt
    rw [hlen] at hlt
    have h64 : w.size < 0x10000000000000000 := hsize.trans (by decide)
    obtain ⟨hkey, -⟩ := h.holds.print (t := t.1) h64 (by rw [List.length_append]; omega)
    exact (hkey.print (t := t.2) (by rwa [print_size]) (by rw [print_size, hlen]; exact hlt)).1
  · intro hfull
    rw [hlen] at hfull
    have hkey : (w.print t.1).pos ≤ w.size := by omega
    have hnul : ((w.print t.1).print t.2).buf (w.size - 1) = 0 := by
      by_cases hkeyFull : (w.print t.1).pos = w.size
      · rw [print_full hsizeKey (by rwa [print_size]) t.2]
        exact print_fill hsize (h.pos ▸ hroom) (by rw [h.pos]; omega)
      · have hfill := print_fill (w := w.print t.1) (t := t.2) hsizeKey
          (by rw [print_size]; omega) (by rw [print_size]; omega)
        rwa [print_size] at hfill
    refine ⟨?_, ?_, ?_⟩
    · rw [hvalPos hkey, hsizes]
      exact hfull
    · rw [hsizes, hnul]
      decide
    · rw [hsizes]
      exact iff_of_true ⟨w.size - 1, by omega, hnul⟩ trivial

end Room

/-! ## All calls -/

section Calls

variable {w : Writer} {text : Bytes} {c : Call} {t : Bytes × Bytes}

theorem extend_texts (ht : c.texts = some t) (text : Bytes) :
    c.extend text = text ++ kept t.1 ++ kept t.2 := by
  cases c with
  | startObject => exact nomatch ht
  | endObject => exact nomatch ht
  | addString key val => simp only [Call.extend, ht]
  | addInt key val => simp only [Call.extend, ht]
  | addBool key val => simp only [Call.extend, ht]
  | addDouble key text => simp only [Call.extend, ht]

theorem mayFill_texts (ht : c.texts = some t) (cs : List Call) : c.MayFill cs := by
  cases c with
  | startObject => exact nomatch ht
  | endObject => exact nomatch ht
  | addString key val => trivial
  | addInt key val => trivial
  | addBool key val => trivial
  | addDouble key text => trivial

theorem meets_cons (w : Writer) (c : Call) (cs : List Call) :
    Meets step (fun w c => c.Law w) w (c :: cs) ↔
      c.Law w ∧ Meets step (fun w c => c.Law w) (c.run w) cs := by
  simp only [Meets, step, Option.some.injEq, forall_eq']

/-- From a buffer with room, the calls keep the law exactly when they fit. -/
theorem Room.meets_iff (h : Room text w) (hsize : w.size < maxObject) (cs : List Call)
    (hcs : ∀ c ∈ cs, c.Strings) :
    Meets step (fun w c => c.Law w) w cs ↔ Fits w.size text cs := by
  induction cs generalizing w text with
  | nil => exact Iff.rfl
  | cons c cs ih =>
    have hstrings := hcs c List.mem_cons_self
    have hrest := fun c' hc' => hcs c' (List.mem_cons_of_mem c hc')
    rw [meets_cons, Fits]
    cases ht : c.texts with
    | some t =>
      obtain ⟨hkey, hval⟩ := hstrings t ht
      obtain ⟨hsame, hlaw, hholds, hfull⟩ := h.add hsize ht
      rw [extend_texts ht, hlaw]
      by_cases hlt : (text ++ kept t.1 ++ kept t.2).length < w.size
      · have hroom : Room (text ++ kept t.1 ++ kept t.2) (c.run w) := by
          refine ⟨hholds hlt, by rwa [hsame], ?_⟩
          rw [List.mem_append, List.mem_append, not_or, not_or]
          exact ⟨⟨h.strings, kept_strings hkey⟩, kept_strings hval⟩
        rw [if_pos hlt, ih hroom (by rwa [hsame]) hrest, hsame]
        exact and_iff_right hlt.le
      · rw [if_neg hlt]
        by_cases hexact : (text ++ kept t.1 ++ kept t.2).length = w.size
        · rw [(hfull hexact).meets_iff (by rwa [hsame]), and_iff_right hexact.le,
            and_iff_right hexact, and_iff_right (mayFill_texts ht cs)]
          exact and_iff_left (fun _ => trivial)
        · have hover : ¬ (text ++ kept t.1 ++ kept t.2).length ≤ w.size := by omega
          exact iff_of_false (fun hl => hover hl.1) (fun hl => hexact hl.1)
    | none =>
      rcases texts_eq_none ht with rfl | rfl
      · obtain ⟨hlaw, hsame, hholds⟩ := h.startObject
        have hlen : (text ++ [0x7b]).length = text.length + 1 := by
          rw [List.length_append, List.length_singleton]
        have hextend : Call.startObject.extend text = text ++ [0x7b] := rfl
        have hrun : Call.startObject.run w = Json.startObject w := rfl
        rw [hextend, hrun, and_iff_right hlaw]
        by_cases hlt : (text ++ [0x7b]).length < w.size
        · have hroom : Room (text ++ [0x7b]) (Json.startObject w) := by
            refine ⟨hholds, by rwa [hsame], ?_⟩
            rw [List.mem_append, not_or]
            exact ⟨h.strings, by decide⟩
          rw [if_pos hlt, ih hroom (by rwa [hsame]) hrest, hsame]
        · have hroom := h.room
          have hexact : text.length + 1 = w.size := by omega
          rw [if_neg hlt, (h.startObject_full hexact).meets_iff (by rwa [hsame]), hlen,
            and_iff_right hexact, and_comm]
          exact Iff.rfl
      · obtain ⟨hsame, hholds, -, -⟩ := h.endObject
        have hextend : Call.endObject.extend text = trim text ++ [0x7d] := rfl
        have hrun : Call.endObject.run w = Json.endObject w := rfl
        rw [hextend, hrun, h.endObject_law]
        by_cases hlt : (trim text ++ [0x7d]).length < w.size
        · have hroom : Room (trim text ++ [0x7d]) (Json.endObject w) := by
            refine ⟨hholds, by rwa [hsame], ?_⟩
            rw [List.mem_append, not_or]
            exact ⟨fun hm => h.strings (trim_subset text hm), by decide⟩
          rw [if_pos hlt, ih hroom (by rwa [hsame]) hrest, hsame]
          exact and_iff_right hlt
        · rw [if_neg hlt]
          have hno : ¬ Call.endObject.MayFill cs := id
          exact iff_of_false (fun hl => hlt hl.1) (fun hl => hno hl.2.1)

end Calls

/-- **Exactly the calls that fit stay inside the buffer.** For every buffer of at least one byte and
every sequence of calls with C strings as arguments, `pos` stays within `size`, no byte outside the
buffer is touched and `bb_json_end_object` leaves a NUL in it, if and only if the text the calls
would make leaves room for a byte at every call, or a call takes the last byte and nothing is
printed behind it. -/
theorem law_iff (mem : Nat → UInt8) {size : Nat} (hpos : 1 ≤ size) (hsize : size < maxObject)
    (cs : List Call) (hcs : ∀ c ∈ cs, c.Strings) :
    Meets step (fun w c => c.Law w) (init mem size) cs ↔ Fits size [] cs := by
  have hroom : Room [] (init mem size) := ⟨⟨rfl, rfl⟩, hpos, List.not_mem_nil⟩
  exact hroom.meets_iff hsize cs hcs

/-- The object of `bb-cli led off`, in the smallest buffer that takes it. -/
def ledOff : List Call := [.startObject, .addString (ascii "cmd") (some (ascii "off")), .endObject]

theorem ledOff_law : Meets step (fun w c => c.Law w) (init (fun _ => 0) 14) ledOff :=
  (law_iff (fun _ => 0) (by decide) (by decide) ledOff (by decide)).mpr (by decide)

/-- A first pair that does not fit, and a second. -/
def overflow : List Call :=
  [.startObject, .addString (ascii "cmd") (some (ascii "x")),
    .addString (ascii "k") (some (ascii "v"))]

/-- The first pair moves `pos` behind the buffer of 8 bytes, and the second is written there. -/
theorem overflow_writes :
    ¬ Meets step (fun w c => c.Law w) (init (fun _ => 0x55) 8) overflow ∧
      ∃ w, run step (init (fun _ => 0x55) 8) overflow = some w ∧ w.size = 8 ∧ w.buf 11 = quote := by
  have hroom : Room [] (init (fun _ => 0x55) 8) := ⟨⟨rfl, rfl⟩, by decide, List.not_mem_nil⟩
  refine ⟨?_, ?_⟩
  · rw [hroom.meets_iff (by decide) overflow (by decide)]
    decide
  · exact ⟨_, rfl, by decide, by decide⟩

end Json
end BuildingBlocks
