import Mathlib.Data.List.Basic
import Mathlib.Tactic.Common

/-!
# BuildingBlocks.Lib.Text

Text as the C library reads it: bytes, up to a NUL.
-/

namespace BuildingBlocks

/-- The bytes of an ASCII text. -/
def ascii (s : String) : List UInt8 := s.toList.map (fun c => UInt8.ofNat c.toNat)

/-- A literal is read character by character, without its encoding. -/
theorem ascii_ofList (cs : List Char) :
    ascii (String.ofList cs) = cs.map (fun c => UInt8.ofNat c.toNat) := by
  rw [ascii, String.toList_ofList]

theorem ascii_append (s t : String) : ascii (s ++ t) = ascii s ++ ascii t := by
  rw [ascii, String.toList_append, List.map_append, ascii, ascii]

/-- A statement about the bytes of a text is decided on the text, not on all 256 bytes. -/
instance (priority := 1100) decidableForallByte (P : UInt8 → Prop) [DecidablePred P]
    (text : List UInt8) : Decidable (∀ b ∈ text, P b) :=
  List.decidableBAll P text

/-- What stands before the first delimiter. -/
theorem takeWhile_append_delim {a : List UInt8} {delim : UInt8} (h : delim ∉ a)
    (rest : List UInt8) : (a ++ delim :: rest).takeWhile (· ≠ delim) = a := by
  have hall : ∀ b ∈ a, decide (b ≠ delim) = true :=
    fun b hb => decide_eq_true (fun he => h (he ▸ hb))
  rw [List.takeWhile_append_of_pos hall, List.takeWhile_cons_of_neg (by simp), List.append_nil]

/-- The C string at the front of a buffer. -/
def cstr (bytes : List UInt8) : List UInt8 := bytes.takeWhile (· ≠ 0)

/-- At most `n` bytes, up to and with the first newline. -/
def takeLine : Nat → List UInt8 → List UInt8
  | 0, _ => []
  | _ + 1, [] => []
  | n + 1, b :: bs => if b = 0x0a then [b] else b :: takeLine n bs

/-- `fgets` with a buffer of `size` bytes on a fresh stream; `none` at the end of the file. -/
def fgets (size : Nat) (input : List UInt8) : Option (List UInt8) :=
  if input.isEmpty then none else some (takeLine (size - 1) input)

/-- `strstr`: the text from the first occurrence of `pat` on. -/
def strstr (pat : List UInt8) : List UInt8 → Option (List UInt8)
  | [] => if pat.isEmpty then some [] else none
  | b :: bs => if pat.isPrefixOf (b :: bs) then some (b :: bs) else strstr pat bs

/-- `isspace` in the C locale. -/
def isSpace (b : UInt8) : Bool := b == 0x20 || (0x09 ≤ b && b ≤ 0x0d)

/-- The directive `%Ns` of `sscanf`: blanks are skipped, then up to `n` bytes up to a blank; `none`
when there are none. -/
def scanWord (n : Nat) (text : List UInt8) : Option (List UInt8 × List UInt8) :=
  let text := text.dropWhile isSpace
  let word := (text.take n).takeWhile (fun b => !isSpace b)
  if word.isEmpty then none else some (word, text.drop word.length)

/-- The line before the first newline of a C string, and what follows it (`strchr`). -/
def splitLine (text : List UInt8) : Option (List UInt8 × List UInt8) :=
  let line := text.takeWhile (fun b => b ≠ 0 && b ≠ 0x0a)
  match text.drop line.length with
  | 0x0a :: rest => some (line, rest)
  | _ => none

/-- All lines of a C string that end in a newline, and the rest; `fuel` bounds their number. -/
def splitLines : Nat → List UInt8 → List (List UInt8) × List UInt8
  | 0, text => ([], text)
  | fuel + 1, text =>
    match splitLine text with
    | none => ([], text)
    | some (line, rest) =>
      let (lines, rest) := splitLines fuel rest
      (line :: lines, rest)

end BuildingBlocks
