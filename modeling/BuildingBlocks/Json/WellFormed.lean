import BuildingBlocks.Json.Agree
import BuildingBlocks.Lib.JsonText

/-!
# BuildingBlocks.Json.WellFormed

When the text of the writer is a JSON object with the members that were added.

* `parse_document` — it is when every key and string value is clean.
* `parse_document_iff` — for strings only then: the writer escapes nothing, so the text is as long
  as its members, and a text with escapes would be longer.
-/

namespace BuildingBlocks
namespace Json

open JsonText (Val Clean)

/-! ## Clean objects -/

def Value.val : Value → Val
  | .str s => .str s
  | .int z => .num (intText z)
  | .bool b => .bool b

/-- The member an entry is to stand for. -/
def member (e : Bytes × Value) : Bytes × Val := (e.1, e.2.val)

def CleanEntry (e : Bytes × Value) : Prop := Clean e.1 ∧ ∀ s ∈ e.2.str?, Clean s

instance : DecidablePred CleanEntry := fun _ => inferInstanceAs (Decidable (_ ∧ _))

section Parse

variable {text : Bytes}

theorem chars_quoted {s : Bytes} (h : Clean s) (text : Bytes) :
    JsonText.chars (s ++ quote :: text) = some (s, text) := by
  induction s with
  | nil =>
    rw [List.nil_append, JsonText.chars.eq_def]
    simp [quote]
  | cons b s ih =>
    obtain ⟨hb, hs⟩ := JsonText.clean_cons.mp h
    simp only [JsonText.isClean, Bool.and_eq_true, bne_iff_ne, decide_eq_true_eq] at hb
    obtain ⟨⟨hquote, hback⟩, hcontrol⟩ := hb
    rw [List.cons_append, JsonText.chars.eq_def]
    simp only [hquote, hback, UInt8.not_lt.mpr hcontrol, if_false]
    rw [ih hs]
    rfl

theorem digits_natText (n : Nat) (h : EndsDigits text) :
    JsonText.digits (natText n ++ text) = some (natText n, text) := by
  have htake : (natText n ++ text).takeWhile isDigit = natText n := by
    rw [List.takeWhile_append_of_pos (isDigit_natText n)]
    cases text with
    | nil => simp
    | cons b text => simp [h b rfl]
  have hdrop : (natText n ++ text).dropWhile isDigit = text := by
    rw [List.dropWhile_append_of_pos (isDigit_natText n)]
    cases text with
    | nil => rfl
    | cons b text => simp [h b rfl]
  unfold JsonText.digits
  simp only [htake, hdrop, natText_ne_nil, if_false]

theorem natural_natText (n : Nat) (h : EndsDigits text) :
    JsonText.natural (natText n ++ text) = some (natText n, text) := by
  unfold JsonText.natural
  rcases Nat.eq_zero_or_pos n with rfl | hn
  · rfl
  · obtain ⟨b, bs, he, hb⟩ := natText_head hn
    have hexpect : JsonText.expect 0x30 (natText n ++ text) = none := by
      rw [he, List.cons_append, JsonText.expect, if_neg hb]
    rw [hexpect]
    exact digits_natText n h

/-- What follows a value in an object. -/
def Ends (text : Bytes) : Prop := ∃ b rest, text = b :: rest ∧ (b = 0x7d ∨ b = comma)

theorem unsigned_natText (n : Nat) (h : Ends text) :
    JsonText.unsigned (natText n ++ text) = some (natText n, text) := by
  obtain ⟨b, rest, rfl, hb⟩ := h
  have hdigits : EndsDigits (b :: rest) := by
    rcases hb with rfl | rfl
    · exact EndsDigits.cons (by decide) _
    · exact EndsDigits.cons (by decide) _
  have hfraction : JsonText.fraction (b :: rest) = some ([], b :: rest) := by
    rcases hb with rfl | rfl <;> rfl
  have hexponent : JsonText.exponent (b :: rest) = some ([], b :: rest) := by
    rcases hb with rfl | rfl <;> rfl
  simp [JsonText.unsigned, natural_natText n hdigits, hfraction, hexponent]

theorem number_intText (z : Int) (h : Ends text) :
    JsonText.number (intText z ++ text) = some (intText z, text) := by
  unfold JsonText.number intText
  split_ifs
  · rw [List.cons_append, JsonText.expect, if_pos rfl]
    simp only [unsigned_natText _ h]
    rfl
  · obtain ⟨b, bs, he⟩ := List.exists_cons_of_ne_nil (natText_ne_nil z.natAbs)
    have hb : isDigit b = true := isDigit_natText z.natAbs b (by rw [he]; exact List.mem_cons_self)
    have hexpect : JsonText.expect 0x2d (natText z.natAbs ++ text) = none := by
      rw [he, List.cons_append, JsonText.expect, if_neg (not_isSpace_of_isDigit hb).2.1]
    rw [hexpect]
    exact unsigned_natText _ h

theorem skip_of_not_blank {b : UInt8} (h : JsonText.isBlank b = false) (text : Bytes) :
    JsonText.skip (b :: text) = b :: text := by
  rw [JsonText.skip, List.dropWhile_cons_of_neg (by simp [h])]

theorem skip_ends (h : Ends text) : JsonText.skip text = text := by
  obtain ⟨b, rest, rfl, hb⟩ := h
  rcases hb with rfl | rfl
  · exact skip_of_not_blank (by decide) _
  · exact skip_of_not_blank (by decide) _

/-- A character a number starts with. -/
theorem number_head {b : UInt8} (h : isDigit b = true ∨ b = 0x2d) :
    JsonText.isBlank b = false ∧ b ≠ 0x22 ∧ b ≠ 0x7b ∧ b ≠ 0x5b ∧ b ≠ 0x74 ∧ b ≠ 0x66 ∧
      b ≠ 0x6e := by
  have hne : ∀ c, ¬ (isDigit c = true ∨ c = 0x2d) → b ≠ c := by
    rintro c hc rfl
    exact hc h
  refine ⟨?_, hne _ (by decide), hne _ (by decide), hne _ (by decide), hne _ (by decide),
    hne _ (by decide), hne _ (by decide)⟩
  simp [JsonText.isBlank, hne 0x20 (by decide), hne 0x09 (by decide), hne 0x0a (by decide),
    hne 0x0d (by decide)]

theorem value_valueText {v : Value} (hv : ∀ s ∈ v.str?, Clean s) (h : Ends text) (fuel : Nat) :
    JsonText.value (fuel + 1) (valueText v ++ text) = some (v.val, text) := by
  rw [JsonText.value]
  cases v with
  | str s =>
    have hsplit : valueText (.str s) ++ text = quote :: (s ++ quote :: text) := by
      simp [valueText]
    rw [hsplit, skip_of_not_blank (by decide)]
    have hchars := chars_quoted (hv s rfl) text
    simp only [show quote = 0x22 from rfl, if_true] at hchars ⊢
    rw [hchars]
    rfl
  | bool b =>
    cases b
    · rw [valueText, if_neg (by decide)]
      rfl
    · rw [valueText, if_pos rfl]
      rfl
  | int z =>
    have hnumber := number_intText z h
    obtain ⟨b, bs, he, hb⟩ := intText_head z
    obtain ⟨hblank, hquote, hbrace, hbracket, ht, hf, hn⟩ := number_head hb
    rw [he, List.cons_append] at hnumber
    rw [valueText, he, List.cons_append, skip_of_not_blank hblank]
    simp only [hquote, hbrace, hbracket, ht, hf, hn, if_false]
    rw [hnumber, Value.val, he]
    rfl

/-- One member, and the comma or brace behind it. -/
theorem members_member {e : Bytes × Value} (h : CleanEntry e) {b : UInt8} {rest : Bytes}
    (hb : b = 0x7d ∨ b = comma) (depth fuel : Nat) :
    JsonText.members (JsonText.value (depth + 1)) (fuel + 1)
        (quoted e.1 ++ colon :: (valueText e.2 ++ b :: rest)) =
      if b = 0x2c then
        (JsonText.members (JsonText.value (depth + 1)) fuel rest).map
          (fun p => (member e :: p.1, p.2))
      else some ([member e], rest) := by
  have hends : Ends (b :: rest) := ⟨b, rest, rfl, hb⟩
  have hsplit : quoted e.1 ++ colon :: (valueText e.2 ++ b :: rest) =
      0x22 :: (e.1 ++ quote :: 0x3a :: (valueText e.2 ++ b :: rest)) := by
    simp [quoted, quote, colon]
  have hskip : ∀ t, JsonText.skip (0x22 :: t) = 0x22 :: t :=
    fun t => skip_of_not_blank (by decide) t
  have hskip' : ∀ t, JsonText.skip (0x3a :: t) = 0x3a :: t :=
    fun t => skip_of_not_blank (by decide) t
  have hvalue := value_valueText h.2 hends depth
  rw [hsplit, JsonText.members]
  simp only [hskip, hskip', JsonText.expect, if_true, Option.bind_eq_bind, Option.bind_some,
    chars_quoted h.1, hvalue, skip_ends hends, member]
  rcases hb with rfl | rfl
  · rfl
  · rfl

theorem members_body {e : Bytes × Value} {entries : List (Bytes × Value)}
    (h : ∀ e' ∈ e :: entries, CleanEntry e') (depth fuel : Nat) (hfuel : entries.length < fuel) :
    JsonText.members (JsonText.value (depth + 1)) fuel (body (e :: entries)) =
      some ((e :: entries).map member, []) := by
  induction entries generalizing e fuel with
  | nil =>
    obtain ⟨fuel, rfl⟩ := Nat.exists_eq_succ_of_ne_zero (Nat.ne_zero_of_lt hfuel)
    have htail : tail [] = [0x7d] := rfl
    rw [body_cons, htail, members_member (h e List.mem_cons_self) (Or.inl rfl)]
    rfl
  | cons e' entries ih =>
    obtain ⟨fuel, rfl⟩ := Nat.exists_eq_succ_of_ne_zero (Nat.ne_zero_of_lt hfuel)
    have htail : tail (e' :: entries) = comma :: body (e' :: entries) := if_neg (by simp)
    have hrest := ih (fun e'' he => h e'' (List.mem_cons_of_mem _ he)) fuel
      (Nat.lt_of_succ_lt_succ hfuel)
    rw [body_cons, htail, members_member (h e List.mem_cons_self) (Or.inr rfl),
      if_pos (show comma = 0x2c from rfl), hrest]
    rfl

theorem length_body (entries : List (Bytes × Value)) : entries.length ≤ (body entries).length := by
  induction entries with
  | nil => exact Nat.zero_le _
  | cons e entries ih =>
    obtain ⟨b, -, htail⟩ := tail_cases entries
    rw [body_cons, htail]
    simp only [List.length_append, List.length_cons]
    omega

/-- Clean entries are written as an object with exactly their members. -/
theorem parse_document {entries : List (Bytes × Value)} (hshort : ∀ e ∈ entries, Short e)
    (h : ∀ e ∈ entries, CleanEntry e) :
    JsonText.parse (document entries) = some (.obj (entries.map member)) := by
  rw [document_eq hshort]
  cases entries with
  | nil => rfl
  | cons e entries =>
    rw [if_neg (by simp)]
    have hbrace : ∀ t, JsonText.skip (0x7b :: t) = 0x7b :: t :=
      fun t => skip_of_not_blank (by decide) t
    have hquote : JsonText.skip (body (e :: entries)) = body (e :: entries) := by
      rw [body_cons]
      exact skip_of_not_blank (by decide) _
    have hexpect : JsonText.expect 0x7d (body (e :: entries)) = none := by
      rw [body_cons]
      rfl
    have hlen := length_body (e :: entries)
    have hmembers := members_body h (body (e :: entries)).length
      (0x7b :: body (e :: entries)).length
      (by rw [List.length_cons] at hlen ⊢; omega)
    have hobject : JsonText.object (JsonText.value (0x7b :: body (e :: entries)).length)
        (0x7b :: body (e :: entries)).length (body (e :: entries)) =
        some ((e :: entries).map member, []) := by
      rw [JsonText.object, hquote, hexpect]
      exact hmembers
    have hvalue : JsonText.value ((0x7b :: body (e :: entries)).length + 1)
        (0x7b :: body (e :: entries)) = some (.obj ((e :: entries).map member), []) := by
      rw [JsonText.value, hbrace]
      simp only [show ¬ (0x7b : UInt8) = 0x22 by decide, if_false, if_true, hobject]
      rfl
    rw [JsonText.parse, hvalue]
    rfl

end Parse

/-! ## Objects of strings -/

def strEntry (p : Bytes × Bytes) : Bytes × Value := (p.1, .str p.2)

/-- Nothing in the value needs an escape, and both texts are short enough to be counted. -/
def Writable (p : Bytes × Bytes) : Prop :=
  Clean p.2 ∧ p.1.length + 3 < 0x80000000 ∧ p.2.length + 3 < 0x80000000

instance : DecidablePred Writable := fun _ => inferInstanceAs (Decidable (_ ∧ _ ∧ _))

section Strings

variable {p : Bytes × Bytes} {pairs : List (Bytes × Bytes)}

theorem short_strEntry_iff :
    Short (strEntry p) ↔ p.1.length + 3 < 0x80000000 ∧ p.2.length + 3 < 0x80000000 := by
  simp only [Short, strEntry, valueText, List.cons_append, List.length_cons, List.length_append,
    List.length_nil]

theorem clean_of_isIdent {key : Bytes} (h : key.all isIdent = true) : Clean key := by
  refine List.all_eq_true.mpr ?_
  intro b hb
  have hident := List.all_eq_true.mp h b hb
  simp only [isIdent, JsonText.isClean, Bool.or_eq_true, Bool.and_eq_true, decide_eq_true_eq,
    beq_iff_eq, bne_iff_ne] at hident ⊢
  grind

/-- Dropping a text that is too long costs more than the brace saves. -/
theorem length_entryText (p : Bytes × Bytes) :
    (Short (strEntry p) → (entryText (strEntry p)).length = p.1.length + p.2.length + 6) ∧
      (¬ Short (strEntry p) →
        (entryText (strEntry p)).length + 4 ≤ p.1.length + p.2.length + 6) := by
  have hlen : ∀ text : Bytes, (kept text).length =
      if text.length < 0x80000000 then text.length else 0 := by
    intro text
    unfold kept
    split <;> rfl
  rw [short_strEntry_iff]
  simp only [entryText, List.length_append, hlen, strEntry, valueText, List.cons_append,
    List.length_cons, List.length_nil]
  constructor
  · rintro ⟨hkey, hval⟩
    split_ifs <;> omega
  · intro hnot
    split_ifs <;> omega

theorem entriesLength_strEntry (pairs : List (Bytes × Bytes)) :
    entriesLength (pairs.map strEntry) = JsonText.total pairs := by
  induction pairs with
  | nil => rfl
  | cons p pairs ih =>
    rw [List.map_cons, entriesLength, JsonText.total, ih]
    simp only [strEntry, valueText, List.cons_append, List.length_cons, List.length_append,
      List.length_nil]
    omega

theorem length_flatMap_of_not_short (h : ¬ ∀ p ∈ pairs, Short (strEntry p)) :
    ((pairs.map strEntry).flatMap entryText).length + 4 ≤ JsonText.total pairs := by
  induction pairs with
  | nil => simp at h
  | cons p pairs ih =>
    obtain ⟨hshort, hlong⟩ := length_entryText p
    rw [List.forall_mem_cons] at h
    rw [List.map_cons, List.flatMap_cons, List.length_append, JsonText.total]
    by_cases hall : ∀ p ∈ pairs, Short (strEntry p)
    · have hfirst := hlong (fun hp => h ⟨hp, hall⟩)
      have hrest := length_flatMap_entryText (List.forall_mem_map.mpr hall)
      rw [entriesLength_strEntry] at hrest
      omega
    · have hrest := ih hall
      by_cases hp : Short (strEntry p)
      · have hfirst := hshort hp
        omega
      · have hfirst := hlong hp
        omega

theorem length_document_strings (hshort : ∀ p ∈ pairs, Short (strEntry p)) (hne : pairs ≠ []) :
    (document (pairs.map strEntry)).length = JsonText.total pairs + 1 := by
  rw [length_document (List.forall_mem_map.mpr hshort) (by simpa using hne),
    entriesLength_strEntry, Nat.add_comm]

/-- The text of strings is a JSON object with exactly their members if and only if none of them
needs an escape. -/
theorem parse_document_iff (hkeys : ∀ p ∈ pairs, p.1.all isIdent = true) :
    JsonText.parse (document (pairs.map strEntry)) =
        some (.obj (pairs.map JsonText.strMember)) ↔ ∀ p ∈ pairs, Writable p := by
  constructor
  · intro hparse
    obtain ⟨hlen, hclean⟩ := JsonText.parse_length hparse
    have hshort : ∀ p ∈ pairs, Short (strEntry p) := by
      by_contra hnot
      have hflat := length_flatMap_of_not_short hnot
      have htrim := length_trim_le (openText (pairs.map strEntry))
      rw [document, List.length_append, List.length_singleton] at hlen
      have hopen : (openText (pairs.map strEntry)).length =
          ((pairs.map strEntry).flatMap entryText).length + 1 := rfl
      omega
    intro p hp
    have hexact := length_document_strings hshort (List.ne_nil_of_mem hp)
    exact ⟨(hclean (le_of_eq hexact) p hp).2, short_strEntry_iff.mp (hshort p hp)⟩
  · intro hall
    have hmap : pairs.map JsonText.strMember = (pairs.map strEntry).map member := by
      rw [List.map_map]
      rfl
    rw [hmap]
    refine parse_document ?_ ?_
    · intro e he
      obtain ⟨p, hp, rfl⟩ := List.mem_map.mp he
      exact short_strEntry_iff.mpr (hall p hp).2
    · intro e he
      obtain ⟨p, hp, rfl⟩ := List.mem_map.mp he
      refine ⟨clean_of_isIdent (hkeys p hp), ?_⟩
      intro s hs
      cases hs
      exact (hall p hp).1

end Strings

end Json
end BuildingBlocks
