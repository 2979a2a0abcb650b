import BuildingBlocks.Lib.Decimal

/-!
# BuildingBlocks.Lib.JsonText

The grammar of JSON texts, as a parser over bytes.

* A string is the bytes it stands for; bytes from 0x80 on stand for themselves.
* `parse` accepts exactly one value with blanks around it.
* `parse_length` — a text is at least as long as the members it stands for, and only a text
  without escapes is as short.
-/

namespace BuildingBlocks
namespace JsonText

abbrev Bytes := List UInt8

inductive Val where
  | null
  | bool (b : Bool)
  | num (text : Bytes)
  | str (text : Bytes)
  | arr (items : List Val)
  | obj (members : List (Bytes × Val))

/-! ## Characters -/

def isBlank (b : UInt8) : Bool := b == 0x20 || b == 0x09 || b == 0x0a || b == 0x0d

def skip (text : Bytes) : Bytes := text.dropWhile isBlank

def expect (b : UInt8) : Bytes → Option Bytes
  | [] => none
  | c :: text => if c = b then some text else none

/-- A character that stands for itself in a string. -/
def isClean (b : UInt8) : Bool := b != 0x22 && b != 0x5c && 0x20 ≤ b

def Clean (text : Bytes) : Prop := text.all isClean = true

instance : DecidablePred Clean := fun _ => inferInstanceAs (Decidable (_ = _))

theorem clean_cons {b : UInt8} {text : Bytes} :
    Clean (b :: text) ↔ isClean b = true ∧ Clean text := by
  rw [Clean, Clean, List.all_cons, Bool.and_eq_true]

theorem Clean.not_mem {b : UInt8} {text : Bytes} (h : Clean text) (hb : isClean b = false) :
    b ∉ text := by
  intro hm
  have hclean := List.all_eq_true.mp h b hm
  rw [hb] at hclean
  cases hclean

def hexDigit (b : UInt8) : Option Nat :=
  if 0x30 ≤ b ∧ b ≤ 0x39 then some (b.toNat - 0x30)
  else if 0x41 ≤ b ∧ b ≤ 0x46 then some (b.toNat - 0x37)
  else if 0x61 ≤ b ∧ b ≤ 0x66 then some (b.toNat - 0x57)
  else none

def hex4 (a b c d : UInt8) : Option Nat := do
  let a ← hexDigit a
  let b ← hexDigit b
  let c ← hexDigit c
  let d ← hexDigit d
  return ((a * 16 + b) * 16 + c) * 16 + d

/-- The UTF-8 form of a 16-bit code unit. -/
def utf8 (u : Nat) : Bytes :=
  if u < 0x80 then [UInt8.ofNat u]
  else if u < 0x800 then [UInt8.ofNat (0xc0 + u / 64), UInt8.ofNat (0x80 + u % 64)]
  else [UInt8.ofNat (0xe0 + u / 4096), UInt8.ofNat (0x80 + u / 64 % 64),
    UInt8.ofNat (0x80 + u % 64)]

/-- The character after a backslash. -/
def escape (b : UInt8) : Option UInt8 :=
  if b = 0x22 ∨ b = 0x5c ∨ b = 0x2f then some b
  else if b = 0x62 then some 0x08
  else if b = 0x66 then some 0x0c
  else if b = 0x6e then some 0x0a
  else if b = 0x72 then some 0x0d
  else if b = 0x74 then some 0x09
  else none

def prepend (front : Bytes) (p : Bytes × Bytes) : Bytes × Bytes := (front ++ p.1, p.2)

/-- A string after its opening quote, and what follows its closing quote. -/
def chars : Bytes → Option (Bytes × Bytes)
  | [] => none
  | b :: text =>
    if b = 0x22 then some ([], text)
    else if b = 0x5c then
      match text with
      | [] => none
      | e :: text =>
        if e = 0x75 then
          match text with
          | h₁ :: h₂ :: h₃ :: h₄ :: text =>
            (hex4 h₁ h₂ h₃ h₄).bind (fun u => (chars text).map (prepend (utf8 u)))
          | _ => none
        else (escape e).bind (fun c => (chars text).map (prepend [c]))
    else if b < 0x20 then none
    else (chars text).map (prepend [b])

/-! ## Numbers -/

/-- Digits, at least one, and what follows them. -/
def digits (text : Bytes) : Option (Bytes × Bytes) :=
  let front := text.takeWhile isDigit
  if front = [] then none else some (front, text.dropWhile isDigit)

/-- The digits before the point: no zero in front of others. -/
def natural (text : Bytes) : Option (Bytes × Bytes) :=
  match expect 0x30 text with
  | some text => some ([0x30], text)
  | none => digits text

def fraction (text : Bytes) : Option (Bytes × Bytes) :=
  match expect 0x2e text with
  | some text => (digits text).map (prepend [0x2e])
  | none => some ([], text)

/-- The exponent, whose sign may be left out. -/
def exponent : Bytes → Option (Bytes × Bytes)
  | [] => some ([], [])
  | b :: text =>
    if b = 0x65 ∨ b = 0x45 then
      match expect 0x2b text, expect 0x2d text with
      | some text, _ => (digits text).map (prepend [b, 0x2b])
      | none, some text => (digits text).map (prepend [b, 0x2d])
      | none, none => (digits text).map (prepend [b])
    else some ([], b :: text)

def unsigned (text : Bytes) : Option (Bytes × Bytes) := do
  let (n, text) ← natural text
  let (f, text) ← fraction text
  let (e, text) ← exponent text
  return (n ++ f ++ e, text)

def number (text : Bytes) : Option (Bytes × Bytes) :=
  match expect 0x2d text with
  | some text => (unsigned text).map (prepend [0x2d])
  | none => unsigned text

/-! ## Values -/

section Composite

variable (value : Bytes → Option (Val × Bytes))

/-- The members of an object and its closing brace. -/
def members : Nat → Bytes → Option (List (Bytes × Val) × Bytes)
  | 0, _ => none
  | fuel + 1, text => do
    let text ← expect 0x22 (skip text)
    let (key, text) ← chars text
    let text ← expect 0x3a (skip text)
    let (v, text) ← value text
    match skip text with
    | [] => none
    | b :: text =>
      if b = 0x2c then (members fuel text).map (fun p => ((key, v) :: p.1, p.2))
      else if b = 0x7d then some ([(key, v)], text)
      else none

def object (fuel : Nat) (text : Bytes) : Option (List (Bytes × Val) × Bytes) :=
  match expect 0x7d (skip text) with
  | some text => some ([], text)
  | none => members value fuel text

/-- The items of an array and its closing bracket. -/
def items : Nat → Bytes → Option (List Val × Bytes)
  | 0, _ => none
  | fuel + 1, text => do
    let (v, text) ← value text
    match skip text with
    | [] => none
    | b :: text =>
      if b = 0x2c then (items fuel text).map (fun p => (v :: p.1, p.2))
      else if b = 0x5d then some ([v], text)
      else none

def array (fuel : Nat) (text : Bytes) : Option (List Val × Bytes) :=
  match expect 0x5d (skip text) with
  | some text => some ([], text)
  | none => items value fuel text

end Composite

/-- A keyword in front of a text. -/
def keyword (word : String) (v : Val) (text : Bytes) : Option (Val × Bytes) :=
  if (ascii word).isPrefixOf text then some (v, text.drop (ascii word).length) else none

/-- A value with blanks in front, and what follows it; `fuel` bounds the depth and the lengths. -/
def value : Nat → Bytes → Option (Val × Bytes)
  | 0, _ => none
  | fuel + 1, text =>
    match skip text with
    | [] => none
    | b :: text =>
      if b = 0x22 then (chars text).map (fun p => (.str p.1, p.2))
      else if b = 0x7b then (object (value fuel) fuel text).map (fun p => (.obj p.1, p.2))
      else if b = 0x5b then (array (value fuel) fuel text).map (fun p => (.arr p.1, p.2))
      else if b = 0x74 then keyword "true" (.bool true) (b :: text)
      else if b = 0x66 then keyword "false" (.bool false) (b :: text)
      else if b = 0x6e then keyword "null" .null (b :: text)
      else (number (b :: text)).map (fun p => (.num p.1, p.2))

def parse (text : Bytes) : Option Val :=
  match value (text.length + 1) text with
  | some (v, rest) => if skip rest = [] then some v else none
  | none => none

/-! ## Lengths -/

theorem utf8_length (u : Nat) : (utf8 u).length ≤ 3 := by
  unfold utf8
  split_ifs <;> simp

theorem skip_length (text : Bytes) : (skip text).length ≤ text.length :=
  (List.dropWhile_sublist _).length_le

theorem expect_eq_some {b : UInt8} {text rest : Bytes} :
    expect b text = some rest ↔ text = b :: rest := by
  cases text with
  | nil => simp [expect]
  | cons c text => simp [expect]

/-- A string is no shorter than what it stands for, and as short only without escapes. -/
theorem chars_length {text s rest : Bytes} (h : chars text = some (s, rest)) :
    s.length + rest.length + 1 ≤ text.length ∧
      (text.length ≤ s.length + rest.length + 1 → Clean s) := by
  fun_induction chars text generalizing s rest with
  | case1 => cases h
  | case2 text =>
    cases h
    simp [Clean]
  | case3 => cases h
  | case4 h₁ h₂ h₃ h₄ text _ ih =>
    obtain ⟨u, -, hu⟩ := Option.bind_eq_some_iff.mp h
    obtain ⟨⟨s', rest'⟩, hrest, he⟩ := Option.map_eq_some_iff.mp hu
    cases he
    have hlen := (ih hrest).1
    have hutf := utf8_length u
    simp only [List.length_append, List.length_cons]
    exact ⟨by omega, fun hshort => by omega⟩
  | case5 => cases h
  | case6 e text _ _ ih =>
    obtain ⟨c, -, hc⟩ := Option.bind_eq_some_iff.mp h
    obtain ⟨⟨s', rest'⟩, hrest, he⟩ := Option.map_eq_some_iff.mp hc
    cases he
    have hlen := (ih hrest).1
    simp only [List.length_append, List.length_cons, List.length_nil]
    exact ⟨by omega, fun hshort => by omega⟩
  | case7 => cases h
  | case8 c text hquote hback hcontrol ih =>
    obtain ⟨⟨s', rest'⟩, hrest, he⟩ := Option.map_eq_some_iff.mp h
    cases he
    obtain ⟨hlen, hclean⟩ := ih hrest
    simp only [List.length_append, List.length_cons, List.length_nil]
    refine ⟨by omega, fun hshort => ?_⟩
    refine clean_cons.mpr ⟨?_, hclean (by omega)⟩
    simp [isClean, hquote, hback, UInt8.not_lt.mp hcontrol]

/-- What a parser of values does with strings. -/
def Costs (value : Bytes → Option (Val × Bytes)) : Prop :=
  ∀ text s rest, value text = some (.str s, rest) →
    s.length + rest.length + 2 ≤ text.length ∧
      (text.length ≤ s.length + rest.length + 2 → Clean s)

theorem value_costs (fuel : Nat) : Costs (value fuel) := by
  intro text s rest h
  cases fuel with
  | zero => cases h
  | succ fuel =>
    have hskip := skip_length text
    rw [value] at h
    cases hs : skip text with
    | nil => simp [hs] at h
    | cons b text' =>
      rw [hs, List.length_cons] at hskip
      simp only [hs] at h
      split_ifs at h
      · obtain ⟨⟨s', rest'⟩, hc, he⟩ := Option.map_eq_some_iff.mp h
        simp only [Prod.mk.injEq, Val.str.injEq] at he
        obtain ⟨rfl, rfl⟩ := he
        obtain ⟨hlen, hclean⟩ := chars_length hc
        exact ⟨by omega, fun hshort => hclean (by omega)⟩
      · obtain ⟨p, -, he⟩ := Option.map_eq_some_iff.mp h
        cases he
      · obtain ⟨p, -, he⟩ := Option.map_eq_some_iff.mp h
        cases he
      · simp [keyword] at h
      · simp [keyword] at h
      · simp [keyword] at h
      · obtain ⟨p, -, he⟩ := Option.map_eq_some_iff.mp h
        cases he

/-- A member whose value is a string. -/
def strMember (p : Bytes × Bytes) : Bytes × Val := (p.1, .str p.2)

/-- The length of the members: four quotes, a colon, and a comma or brace for each. -/
def total : List (Bytes × Bytes) → Nat
  | [] => 0
  | p :: pairs => p.1.length + p.2.length + 6 + total pairs

section Members

variable {value : Bytes → Option (Val × Bytes)} {pairs : List (Bytes × Bytes)}

theorem members_length (hval : Costs value) {fuel : Nat} {text rest : Bytes}
    (h : members value fuel text = some (pairs.map strMember, rest)) :
    total pairs + rest.length ≤ text.length ∧
      (text.length ≤ total pairs + rest.length → ∀ p ∈ pairs, Clean p.1 ∧ Clean p.2) := by
  induction fuel generalizing text pairs with
  | zero => cases h
  | succ fuel ih =>
    simp only [members, Option.bind_eq_bind, Option.bind_eq_some_iff, expect_eq_some] at h
    obtain ⟨t₁, ht₁, ⟨key, t₂⟩, hkey, t₃, ht₃, ⟨v, t₄⟩, hv, hrest⟩ := h
    have hlen₁ := skip_length text
    have hlen₂ := skip_length t₂
    have hlen₃ := skip_length t₄
    obtain ⟨hkeyLen, hkeyClean⟩ := chars_length hkey
    simp only [ht₁, ht₃, List.length_cons] at hlen₁ hlen₂ hkeyLen hkeyClean hrest
    split at hrest
    · cases hrest
    · rename_i b t₅ ht₅
      rw [ht₅, List.length_cons] at hlen₃
      split_ifs at hrest
      · obtain ⟨⟨ms, rest'⟩, hms, he⟩ := Option.map_eq_some_iff.mp hrest
        cases pairs with
        | nil => cases he
        | cons p pairs =>
          simp only [List.map_cons, strMember, Prod.mk.injEq, List.cons.injEq] at he
          obtain ⟨⟨⟨rfl, rfl⟩, rfl⟩, rfl⟩ := he
          obtain ⟨hvLen, hvClean⟩ := hval _ _ _ hv
          obtain ⟨hmsLen, hmsClean⟩ := ih hms
          simp only [total]
          refine ⟨by omega, fun hshort => ?_⟩
          intro q hq
          rcases List.mem_cons.mp hq with rfl | hq
          · exact ⟨hkeyClean (by omega), hvClean (by omega)⟩
          · exact hmsClean (by omega) q hq
      · cases pairs with
        | nil => cases hrest
        | cons p pairs =>
          simp only [List.map_cons, strMember, Option.some.injEq, Prod.mk.injEq,
            List.cons.injEq] at hrest
          obtain ⟨⟨⟨rfl, rfl⟩, hnil⟩, rfl⟩ := hrest
          obtain rfl : pairs = [] := by simpa using hnil.symm
          obtain ⟨hvLen, hvClean⟩ := hval _ _ _ hv
          simp only [total]
          refine ⟨by omega, fun hshort => ?_⟩
          intro q hq
          obtain rfl : q = p := by simpa using hq
          exact ⟨hkeyClean (by omega), hvClean (by omega)⟩

end Members

/-- A text is no shorter than the members it stands for, and as short only without escapes. -/
theorem parse_length {text : Bytes} {pairs : List (Bytes × Bytes)}
    (h : parse text = some (.obj (pairs.map strMember))) :
    total pairs + 1 ≤ text.length ∧
      (text.length ≤ total pairs + 1 → ∀ p ∈ pairs, Clean p.1 ∧ Clean p.2) := by
  unfold parse at h
  split at h
  · rename_i v rest hv
    split_ifs at h
    cases h
    have hskip := skip_length text
    rw [value] at hv
    cases hs : skip text with
    | nil => simp [hs] at hv
    | cons b text' =>
      rw [hs, List.length_cons] at hskip
      simp only [hs] at hv
      split_ifs at hv
      · obtain ⟨p, -, he⟩ := Option.map_eq_some_iff.mp hv
        cases he
      · obtain ⟨⟨ms, rest'⟩, hobj, he⟩ := Option.map_eq_some_iff.mp hv
        cases he
        unfold object at hobj
        split at hobj
        · cases pairs with
          | nil => simp [total]; omega
          | cons p pairs => cases hobj
        · obtain ⟨hlen, hclean⟩ := members_length (value_costs _) hobj
          exact ⟨by omega, fun hshort => hclean (by omega)⟩
      · obtain ⟨p, -, he⟩ := Option.map_eq_some_iff.mp hv
        cases he
      · simp [keyword] at hv
      · simp [keyword] at hv
      · simp [keyword] at hv
      · obtain ⟨p, -, he⟩ := Option.map_eq_some_iff.mp hv
        cases he
  · cases h

end JsonText
end BuildingBlocks
