import BuildingBlocks.Lib.Text

/-!
# BuildingBlocks.Lib.Decimal

Decimal numbers as the C library writes and reads them.

* `natText`, `intText` — `printf` with `%u` and `%d`.
* `atoi` — blanks, a sign, digits; what does not fit a `long` becomes its bound, and an `int` keeps
  the low 32 bits. `strtoull` reads the same into 64 bits without a sign.
-/

namespace BuildingBlocks

/-- The digits of a number. -/
def natText (n : Nat) : List UInt8 := (Nat.toDigits 10 n).map (fun c => UInt8.ofNat c.toNat)

/-- `%d`. -/
def intText (z : Int) : List UInt8 :=
  if z < 0 then 0x2d :: natText z.natAbs else natText z.natAbs

/-- `isdigit`. -/
def isDigit (b : UInt8) : Bool := 0x30 ≤ b && b ≤ 0x39

/-- The value of the digits in front, after `acc`. -/
def scanNat (acc : Nat) : List UInt8 → Nat
  | [] => acc
  | b :: bs => if isDigit b then scanNat (10 * acc + (b.toNat - 0x30)) bs else acc

/-- An optional sign and digits. -/
def scanSigned : List UInt8 → Int
  | [] => 0
  | b :: bs =>
    if b = 0x2d then -(scanNat 0 bs : Int)
    else if b = 0x2b then scanNat 0 bs
    else scanNat 0 (b :: bs)

/-- `strtol` with base 10: the value, cut to the range of a 64-bit `long`. -/
def strtol (text : List UInt8) : Int :=
  max (-0x8000000000000000) (min (scanSigned (text.dropWhile isSpace)) (0x7fffffffffffffff))

def atoi (text : List UInt8) : Int := (strtol text).bmod (0x100000000)

/-- `strtoull` with base 10: what does not fit becomes the largest value, a minus sign negates. -/
def strtoull (text : List UInt8) : Nat :=
  let z := scanSigned (text.dropWhile isSpace)
  if z.natAbs < 0x10000000000000000 then (z % 0x10000000000000000).toNat else 0xffffffffffffffff

/-! ## What is written -/

theorem natText_of_lt {n : Nat} (h : n < 10) : natText n = [UInt8.ofNat (0x30 + n)] := by
  rw [natText, Nat.toDigits_of_lt_base h]
  revert n
  decide

theorem natText_of_ge {n : Nat} (h : 10 ≤ n) :
    natText n = natText (n / 10) ++ [UInt8.ofNat (0x30 + n % 10)] := by
  have hmod : n % 10 < 10 := Nat.mod_lt n (by decide)
  rw [← natText_of_lt hmod, natText, natText, natText, Nat.toDigits_of_base_le (by decide) h,
    List.map_append, Nat.toDigits_of_lt_base hmod]

theorem isDigit_digit : ∀ n, n < 10 → isDigit (UInt8.ofNat (0x30 + n)) = true := by decide

theorem isDigit_natText (n : Nat) : ∀ b ∈ natText n, isDigit b = true := by
  induction n using Nat.strongRecOn with
  | _ n ih =>
    intro b hb
    rcases Nat.lt_or_ge n 10 with h | h
    · rw [natText_of_lt h, List.mem_singleton] at hb
      rw [hb]
      exact isDigit_digit n h
    · rw [natText_of_ge h] at hb
      rcases List.mem_append.mp hb with hb | hb
      · exact ih (n / 10) (by omega) b hb
      · rw [List.mem_singleton.mp hb]
        exact isDigit_digit _ (Nat.mod_lt n (by decide))

/-- A positive number does not start with the digit zero. -/
theorem natText_head {n : Nat} (h : 0 < n) : ∃ b bs, natText n = b :: bs ∧ b ≠ 0x30 := by
  induction n using Nat.strongRecOn with
  | _ n ih =>
    rcases Nat.lt_or_ge n 10 with hn | hn
    · refine ⟨_, [], natText_of_lt hn, ?_⟩
      have hall : ∀ n, n < 10 → 0 < n → UInt8.ofNat (0x30 + n) ≠ 0x30 := by decide
      exact hall n hn h
    · obtain ⟨b, bs, he, hb⟩ := ih (n / 10) (by omega) (by omega)
      exact ⟨b, bs ++ [UInt8.ofNat (0x30 + n % 10)], by rw [natText_of_ge hn, he]; rfl, hb⟩

theorem natText_ne_nil (n : Nat) : natText n ≠ [] := by
  rcases Nat.lt_or_ge n 10 with h | h
  · simp [natText_of_lt h]
  · simp [natText_of_ge h]

/-- An `int` takes at most eleven characters. -/
theorem length_intText_le {z : Int} (hlo : -0x80000000 ≤ z) (hhi : z < 0x80000000) :
    (intText z).length ≤ 11 := by
  have hdigits : (natText z.natAbs).length ≤ 10 := by
    rw [natText, List.length_map]
    exact (Nat.length_toDigits_le_iff (by decide) (by decide)).mpr (by omega)
  rw [intText]
  split
  · rw [List.length_cons]
    omega
  · omega

/-! ## What is read back -/

/-- The text does not go on with a digit. -/
def EndsDigits (rest : List UInt8) : Prop := ∀ b ∈ rest.head?, isDigit b = false

theorem EndsDigits.cons {b : UInt8} (h : isDigit b = false) (rest : List UInt8) :
    EndsDigits (b :: rest) := by
  intro b' hb'
  obtain rfl : b = b' := by simpa using hb'
  exact h

theorem scanNat_endsDigits {rest : List UInt8} (h : EndsDigits rest) (acc : Nat) :
    scanNat acc rest = acc := by
  cases rest with
  | nil => rfl
  | cons b bs => simp [scanNat, h b rfl]

theorem scanNat_digit {n acc : Nat} (h : n < 10) (rest : List UInt8) :
    scanNat acc (UInt8.ofNat (0x30 + n) :: rest) = scanNat (10 * acc + n) rest := by
  have hval : ∀ n, n < 10 → (UInt8.ofNat (0x30 + n)).toNat - 0x30 = n := by decide
  rw [scanNat, if_pos (isDigit_digit n h), hval n h]

theorem scanNat_natText (n : Nat) (rest : List UInt8) :
    scanNat 0 (natText n ++ rest) = scanNat n rest := by
  induction n using Nat.strongRecOn generalizing rest with
  | _ n ih =>
    rcases Nat.lt_or_ge n 10 with h | h
    · rw [natText_of_lt h, List.singleton_append, scanNat_digit h, Nat.mul_zero, Nat.zero_add]
    · rw [natText_of_ge h, List.append_assoc, ih (n / 10) (by omega), List.singleton_append,
        scanNat_digit (Nat.mod_lt n (by decide)), Nat.div_add_mod]

/-- A digit is no blank and no sign. -/
theorem not_isSpace_of_isDigit {b : UInt8} (h : isDigit b = true) :
    isSpace b = false ∧ b ≠ 0x2d ∧ b ≠ 0x2b := by
  simp only [isDigit, isSpace, Bool.and_eq_true, decide_eq_true_eq] at h ⊢
  grind

theorem scanSigned_intText (z : Int) {rest : List UInt8} (h : EndsDigits rest) :
    scanSigned (intText z ++ rest) = z := by
  have hread := scanNat_natText z.natAbs rest
  rw [scanNat_endsDigits h] at hread
  by_cases hz : z < 0
  · rw [intText, if_pos hz, List.cons_append, scanSigned, if_pos rfl, hread]
    omega
  · rw [intText, if_neg hz]
    obtain ⟨b, bs, he⟩ := List.exists_cons_of_ne_nil (natText_ne_nil z.natAbs)
    have hb : isDigit b = true := isDigit_natText z.natAbs b (by rw [he]; exact List.mem_cons_self)
    obtain ⟨-, hminus, hplus⟩ := not_isSpace_of_isDigit hb
    rw [he, List.cons_append] at hread ⊢
    rw [scanSigned, if_neg hminus, if_neg hplus, hread]
    omega

theorem notMem_natText {b : UInt8} (h : isDigit b = false) (n : Nat) : b ∉ natText n :=
  fun hmem => Bool.false_ne_true (h.symm.trans (isDigit_natText n b hmem))

theorem notMem_intText {b : UInt8} (h : isDigit b = false) (hminus : b ≠ 0x2d) (z : Int) :
    b ∉ intText z := by
  rw [intText]
  split
  · rw [List.mem_cons, not_or]
    exact ⟨hminus, notMem_natText h _⟩
  · exact notMem_natText h _

theorem intText_head (z : Int) : ∃ b bs, intText z = b :: bs ∧ (isDigit b = true ∨ b = 0x2d) := by
  by_cases hz : z < 0
  · exact ⟨0x2d, _, by rw [intText, if_pos hz], Or.inr rfl⟩
  · obtain ⟨b, bs, he⟩ := List.exists_cons_of_ne_nil (natText_ne_nil z.natAbs)
    refine ⟨b, bs, by rw [intText, if_neg hz, he], Or.inl ?_⟩
    exact isDigit_natText z.natAbs b (by rw [he]; exact List.mem_cons_self)

theorem dropWhile_isSpace_intText (z : Int) (rest : List UInt8) :
    (intText z ++ rest).dropWhile isSpace = intText z ++ rest := by
  obtain ⟨b, bs, he, hb⟩ := intText_head z
  have hspace : isSpace b = false := by
    rcases hb with hb | rfl
    · exact (not_isSpace_of_isDigit hb).1
    · decide
  rw [he, List.cons_append, List.dropWhile_cons_of_neg (by simp [hspace])]

/-- An `int` written with `%d` is read back by `atoi`. -/
theorem atoi_intText {z : Int} (hlo : -0x80000000 ≤ z) (hhi : z < 0x80000000) {rest : List UInt8}
    (h : EndsDigits rest) : atoi (intText z ++ rest) = z := by
  have hlong : strtol (intText z ++ rest) = z := by
    rw [strtol, dropWhile_isSpace_intText, scanSigned_intText z h]
    omega
  rw [atoi, hlong]
  exact Int.bmod_eq_of_le (by omega) (by omega)

theorem intText_ofNat (n : Nat) : intText n = natText n := by
  rw [intText, if_neg (by omega), Int.natAbs_natCast]

/-- A number of 64 bits written with `%llu` is read back by `strtoull`. -/
theorem strtoull_natText {n : Nat} (hn : n < 0x10000000000000000) {rest : List UInt8}
    (h : EndsDigits rest) : strtoull (natText n ++ rest) = n := by
  rw [← intText_ofNat, strtoull, dropWhile_isSpace_intText, scanSigned_intText (n : Int) h,
    Int.natAbs_natCast, if_pos hn]
  omega

/-- Text that is no number reads as zero. -/
theorem atoi_of_not_number {b : UInt8}
    (h : isSpace b = false ∧ isDigit b = false ∧ b ≠ 0x2d ∧ b ≠ 0x2b) (text : List UInt8) :
    atoi (b :: text) = 0 := by
  obtain ⟨hspace, hdigit, hminus, hplus⟩ := h
  have hlong : strtol (b :: text) = 0 := by
    rw [strtol, List.dropWhile_cons_of_neg (by simp [hspace]), scanSigned, if_neg hminus,
      if_neg hplus, scanNat, if_neg (by simp [hdigit])]
    decide
  rw [atoi, hlong]
  decide

theorem atoi_range (text : List UInt8) : -0x80000000 ≤ atoi text ∧ atoi text < 0x80000000 := by
  have hlo := Int.le_bmod (x := strtol text) (m := 0x100000000) (by decide)
  have hhi := Int.bmod_lt (x := strtol text) (m := 0x100000000) (by decide)
  unfold atoi
  omega

end BuildingBlocks
