import BuildingBlocks.Json.Writer

/-!
# BuildingBlocks.Json.Reader

The JSON reader of `libbb/bb_json.c`. A text is a C string, so that its end is the NUL.

* `findKey` searches the whole text for the quoted key, with `strstr`.
* `firstToken` is what the search finds in a document: the value of an entry, when its key comes
  first, or the end of a string value.
-/

namespace BuildingBlocks
namespace Json

/-! ## The code -/

/-- `find_key`: what follows the first occurrence of the quoted key, cut to the 127 characters of
the search buffer. -/
def findKey (json key : Bytes) : Option Bytes :=
  let search := (quoted key).take 127
  match strstr search json with
  | none => none
  | some p => some ((p.drop search.length).dropWhile (fun b => b = 0x20 || b = colon))

/-- The loop of `bb_json_get_string`: at most `n` bytes up to a quote. -/
def unescape : Nat → Bytes → Bytes
  | 0, _ => []
  | _ + 1, [] => []
  | n + 1, b :: bs =>
    if b = quote then []
    else if b = backslash then
      match bs with
      | [] => [b]
      | e :: bs =>
        (if e = 0x6e then 0x0a else if e = 0x74 then 0x09 else e) :: unescape n bs
    else b :: unescape n bs

/-- `bb_json_get_string`. -/
def getString (json key : Bytes) : Option Bytes :=
  match findKey json key with
  | some (b :: p) => if b = quote then some (unescape 255 p) else none
  | _ => none

/-- `bb_json_get_int`. -/
def getInt (json key : Bytes) (default : Int) : Int :=
  match findKey json key with
  | none => default
  | some p => atoi p

/-- `bb_json_get_bool`. -/
def getBool (json key : Bytes) (default : Int) : Int :=
  match findKey json key with
  | none => default
  | some p =>
    if (ascii "true").isPrefixOf p then 1
    else if (ascii "false").isPrefixOf p then 0
    else default

/-! ## What is returned -/

theorem strstr_suffix {pat text p : Bytes} (h : strstr pat text = some p) : p <:+ text := by
  induction text with
  | nil =>
    rw [strstr] at h
    split_ifs at h
    cases h
    exact List.suffix_rfl
  | cons b text ih =>
    rw [strstr] at h
    split_ifs at h
    · cases h
      exact List.suffix_rfl
    · exact (ih h).trans (List.suffix_cons b text)

theorem findKey_suffix {json key p : Bytes} (h : findKey json key = some p) : p <:+ json := by
  unfold findKey at h
  simp only at h
  split at h
  · cases h
  · rename_i q hq
    cases h
    exact (List.dropWhile_suffix _).trans ((List.drop_suffix _ _).trans (strstr_suffix hq))

theorem length_unescape_le (n : Nat) (text : Bytes) : (unescape n text).length ≤ n := by
  fun_induction unescape n text <;> simp <;> omega

theorem zero_not_mem_unescape {n : Nat} {text : Bytes} (h : (0 : UInt8) ∉ text) :
    (0 : UInt8) ∉ unescape n text := by
  fun_induction unescape n text <;> grind

/-- A string that is read has at most 255 characters, none of them a NUL. -/
theorem getString_bounds {json key s : Bytes} (hjson : (0 : UInt8) ∉ json)
    (h : getString json key = some s) : s.length ≤ 255 ∧ (0 : UInt8) ∉ s := by
  unfold getString at h
  split at h
  · rename_i b p hp
    split_ifs at h
    cases h
    have hsub := (findKey_suffix hp).subset
    refine ⟨length_unescape_le 255 p, zero_not_mem_unescape ?_⟩
    intro hz
    exact hjson (hsub (List.mem_cons_of_mem b hz))
  · cases h

/-! ## Keys and values -/

/-- Letters, digits and underscores. -/
def isIdent (b : UInt8) : Bool :=
  (0x30 ≤ b && b ≤ 0x39) || (0x41 ≤ b && b ≤ 0x5a) || (0x61 ≤ b && b ≤ 0x7a) || b == 0x5f

def IsKey (key : Bytes) : Prop := key.length < 126 ∧ key.all isIdent = true

instance (key : Bytes) : Decidable (IsKey key) := inferInstanceAs (Decidable (_ ∧ _))

/-- No NUL, quote or backslash. -/
def isPlain (b : UInt8) : Bool := b != 0 && b != quote && b != backslash

/-- Values in the range of their types: strings of less than 256 plain characters. -/
def Value.Ok : Value → Prop
  | .str val => val.length < 256 ∧ val.all isPlain = true
  | .int val => -0x80000000 ≤ val ∧ val < 0x80000000
  | .bool _ => True

instance : DecidablePred Value.Ok
  | .str _ => inferInstanceAs (Decidable (_ ∧ _))
  | .int _ => inferInstanceAs (Decidable (_ ∧ _))
  | .bool _ => .isTrue trivial

def Ok (e : Bytes × Value) : Prop := IsKey e.1 ∧ e.2.Ok

instance : DecidablePred Ok := fun _ => inferInstanceAs (Decidable (_ ∧ _))

theorem isPlain_of_isIdent {b : UInt8} (h : isIdent b = true) :
    isPlain b = true ∧ b ≠ comma ∧ b ≠ colon ∧ b ≠ 0x7d := by
  simp only [isIdent, isPlain, quote, backslash, comma, colon, Bool.or_eq_true, Bool.and_eq_true,
    decide_eq_true_eq, beq_iff_eq, bne_iff_ne] at h ⊢
  grind

theorem ne_quote_of_isPlain {b : UInt8} (h : isPlain b = true) : b ≠ quote := by
  rintro rfl
  exact absurd h (by decide)

theorem IsKey.not_quote {key : Bytes} (h : IsKey key) : quote ∉ key := by
  intro hq
  exact ne_quote_of_isPlain (isPlain_of_isIdent (List.all_eq_true.mp h.2 _ hq)).1 rfl

/-! ## The search -/

section Search

variable {key tok text : Bytes}

theorem strstr_skip {pat : Bytes} {b : UInt8} (h : ¬ pat <+: b :: text) :
    strstr pat (b :: text) = strstr pat text := by
  rw [strstr, if_neg (by rwa [List.isPrefixOf_iff_prefix])]

theorem strstr_here {pat : Bytes} {b : UInt8} (h : pat <+: b :: text) :
    strstr pat (b :: text) = some (b :: text) := by
  rw [strstr, if_pos (by rwa [List.isPrefixOf_iff_prefix])]

/-- A text that starts with a quote is not found outside quotes. -/
theorem strstr_notMem {pat front : Bytes} (h : quote ∉ front) :
    strstr (quote :: pat) (front ++ text) = strstr (quote :: pat) text := by
  induction front with
  | nil => rfl
  | cons b front ih =>
    rw [List.mem_cons, not_or] at h
    have hskip : ¬ quote :: pat <+: b :: (front ++ text) := by
      rw [List.cons_prefix_cons]
      exact fun hp => h.1 hp.1
    rw [List.cons_append, strstr_skip hskip, ih h.2]

theorem strstr_unquoted {front : Bytes} (h : quote ∉ front) :
    strstr (quoted key) (front ++ text) = strstr (quoted key) text := strstr_notMem h

/-- Two texts without quotes are equal when both are followed by one. -/
theorem eq_of_prefix_quote (hkey : quote ∉ key) (htok : quote ∉ tok)
    (h : key ++ [quote] <+: tok ++ quote :: text) : key = tok := by
  induction key generalizing tok with
  | nil =>
    cases tok with
    | nil => rfl
    | cons b tok =>
      rw [List.nil_append, List.cons_append, List.cons_prefix_cons] at h
      exact absurd (h.1 ▸ List.mem_cons_self) htok
  | cons k key ih =>
    rw [List.mem_cons, not_or] at hkey
    cases tok with
    | nil =>
      rw [List.cons_append, List.nil_append, List.cons_prefix_cons] at h
      exact absurd h.1.symm hkey.1
    | cons b tok =>
      rw [List.mem_cons, not_or] at htok
      rw [List.cons_append, List.cons_append, List.cons_prefix_cons] at h
      rw [h.1, ih hkey.2 htok.2 h.2]

theorem strstr_quoted_self : strstr (quoted key) (quoted key ++ text) = some (quoted key ++ text) :=
  strstr_here ⟨text, rfl⟩

theorem strstr_ne_quote {b : UInt8} (h : b ≠ quote) :
    strstr (quoted key) (b :: text) = strstr (quoted key) text :=
  have hfront : quote ∉ [b] := by simpa using h.symm
  strstr_unquoted hfront

/-- Another quoted text is passed over, when the character behind it is in no key. -/
theorem strstr_quoted_ne (hkey : IsKey key) (htok : quote ∉ tok) (hne : tok ≠ key) {b : UInt8}
    (hb : isIdent b = false ∧ b ≠ quote) :
    strstr (quoted key) (quoted tok ++ b :: text) = strstr (quoted key) (b :: text) := by
  have hsplit : quoted tok ++ b :: text = quote :: (tok ++ quote :: b :: text) := by
    simp [quoted]
  have hopen : ¬ quoted key <+: quote :: (tok ++ quote :: b :: text) := by
    rw [quoted, List.cons_prefix_cons]
    exact fun hp => hne (eq_of_prefix_quote hkey.not_quote htok hp.2).symm
  have hclose : ¬ quoted key <+: quote :: b :: text := by
    rw [quoted, List.cons_prefix_cons]
    rintro ⟨-, hp⟩
    cases hk : key with
    | nil =>
      rw [hk, List.nil_append, List.cons_prefix_cons] at hp
      exact hb.2 hp.1.symm
    | cons k key' =>
      rw [hk, List.cons_append, List.cons_prefix_cons] at hp
      have hident := List.all_eq_true.mp hkey.2 k (by rw [hk]; exact List.mem_cons_self)
      rw [hp.1, hb.1] at hident
      cases hident
  rw [hsplit, strstr_skip hopen, strstr_unquoted htok, strstr_skip hclose]

end Search

/-! ## The search in a document -/

/-- The first text in quotes that is the key: of an entry with its value, or a string value. -/
def firstToken (key : Bytes) : List (Bytes × Value) → Option (Option Value)
  | [] => none
  | (k, v) :: entries =>
    if k = key then some (some v)
    else if v = .str key then some none
    else firstToken key entries

/-- No quote in a number or a truth value. -/
theorem quote_not_mem_valueText {v : Value} (h : ∀ val, v ≠ .str val) : quote ∉ valueText v := by
  cases v with
  | str val => exact absurd rfl (h val)
  | bool val => cases val <;> decide
  | int z => exact notMem_intText rfl (by decide) z

section Find

variable {key : Bytes}

theorem strstr_tail (entries : List (Bytes × Value)) :
    strstr (quoted key) (tail entries) = strstr (quoted key) (body entries) := by
  obtain ⟨b, hb, htail⟩ := tail_cases entries
  rw [htail]
  rcases hb with rfl | rfl
  · exact strstr_ne_quote (by decide)
  · exact strstr_ne_quote (by decide)

theorem strstr_quoted_tail {tok : Bytes} (hkey : IsKey key) (htok : quote ∉ tok) (hne : tok ≠ key)
    (entries : List (Bytes × Value)) :
    strstr (quoted key) (quoted tok ++ tail entries) = strstr (quoted key) (tail entries) := by
  obtain ⟨b, hb, htail⟩ := tail_cases entries
  rw [htail]
  rcases hb with rfl | rfl
  · exact strstr_quoted_ne hkey htok hne (by decide)
  · exact strstr_quoted_ne hkey htok hne (by decide)

/-- What the search finds among the entries. -/
theorem strstr_body (hkey : IsKey key) {entries : List (Bytes × Value)}
    (h : ∀ e ∈ entries, Ok e) :
    match firstToken key entries with
    | none => strstr (quoted key) (body entries) = none
    | some (some v) => ∃ rest, strstr (quoted key) (body entries) =
        some (quoted key ++ colon :: (valueText v ++ tail rest))
    | some none => ∃ rest, strstr (quoted key) (body entries) =
        some (quoted key ++ tail rest) := by
  induction entries with
  | nil => simp [firstToken, body, strstr, quoted]
  | cons e entries ih =>
    obtain ⟨k, v⟩ := e
    obtain ⟨hk, hv⟩ := h _ List.mem_cons_self
    rw [body_cons, firstToken]
    by_cases hfirst : k = key
    · subst hfirst
      simp only [if_true]
      exact ⟨entries, strstr_quoted_self⟩
    · have hrest := ih (fun e he => h e (List.mem_cons_of_mem _ he))
      rw [strstr_quoted_ne hkey hk.not_quote hfirst (by decide), strstr_ne_quote (by decide),
        if_neg hfirst]
      cases v with
      | str val =>
        by_cases hval : val = key
        · subst hval
          simp only [if_true]
          exact ⟨entries, strstr_quoted_self⟩
        · have hplain : quote ∉ val :=
            fun hq => ne_quote_of_isPlain (List.all_eq_true.mp hv.2 _ hq) rfl
          have hskip : strstr (quoted key) (valueText (.str val) ++ tail entries) =
              strstr (quoted key) (body entries) := by
            rw [← strstr_tail]
            exact strstr_quoted_tail hkey hplain hval entries
          rw [hskip, if_neg (by simpa using hval)]
          exact hrest
      | int z =>
        rw [strstr_unquoted (quote_not_mem_valueText (by simp)), strstr_tail, if_neg (by simp)]
        exact hrest
      | bool b =>
        rw [strstr_unquoted (quote_not_mem_valueText (by simp)), strstr_tail, if_neg (by simp)]
        exact hrest

end Find

end Json
end BuildingBlocks
