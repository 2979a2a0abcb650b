import BuildingBlocks.Lib.Layout
import Mathlib.Data.BitVec
import Mathlib.Data.Nat.Bitwise
import Mathlib.Logic.Function.Iterate

/-!
# BuildingBlocks.Lib.Crc

Cyclic redundancy checks of any width, as a register that takes one bit after the other, lowest
coefficient last (the reflected form).

* `shift` is division by the polynomial `p` one place further; it is linear over exclusive or, and
  loses nothing when the top bit of `p` is set.
* `crc` takes a text of bits. `crc_zipWith` is its linearity, `crc_eq_iterate` that up to `w` bits
  are a word the register starts with.
* `crc_ne_zero`: errors within `w` consecutive bits are never lost.
* `bits` is the order of the bits in bytes, lowest bit first.
-/

namespace BuildingBlocks
namespace Lib
namespace Crc

variable {w : Nat} {p c d : BitVec w}

/-- The lowest bit goes out, and takes the polynomial with it when it is set. -/
def shift (p c : BitVec w) : BitVec w := (c >>> 1) ^^^ (if c.getLsbD 0 then p else 0#w)

/-- A bit as a word. -/
def bit (b : Bool) : BitVec w := if b then 1#w else 0#w

/-- The bits of a word, lowest first. -/
def word : List Bool → BitVec w
  | [] => 0#w
  | b :: bs => bit b ^^^ (word bs <<< 1)

/-- The register behind a text that found it at `c`. -/
def crc (p c : BitVec w) (bs : List Bool) : BitVec w :=
  bs.foldl (fun c b => shift p (c ^^^ bit b)) c

/-! ## Shifting -/

theorem shift_zero (p : BitVec w) : shift p 0#w = 0#w := by
  simp [shift]

theorem shift_xor (p c d : BitVec w) : shift p (c ^^^ d) = shift p c ^^^ shift p d := by
  unfold shift
  rw [BitVec.ushiftRight_xor_distrib, BitVec.getLsbD_xor]
  cases c.getLsbD 0 <;> cases d.getLsbD 0
  · simp
  · simp [BitVec.xor_assoc]
  · simp only [Bool.xor_false, if_true, Bool.false_eq_true, if_false]
    ac_rfl
  · -- the polynomial goes in twice
    have hcancel : c >>> 1 ^^^ p ^^^ (d >>> 1 ^^^ p) = c >>> 1 ^^^ d >>> 1 := by
      rw [BitVec.xor_assoc, BitVec.xor_comm p, BitVec.xor_assoc, BitVec.xor_self, BitVec.xor_zero]
    simpa using hcancel.symm

/-- With the top bit of the polynomial set nothing is lost. -/
theorem shift_eq_zero (hp : p.msb = true) (h : shift p c = 0#w) : c = 0#w := by
  have hw : 0 < w := by
    by_contra h0
    obtain rfl : w = 0 := by omega
    rw [BitVec.eq_nil p] at hp
    cases hp
  unfold shift at h
  by_cases hlow : c.getLsbD 0 = true
  · -- the top bit comes from the polynomial
    have htop := congrArg (fun x => x.getLsbD (w - 1)) h
    have hmsb : p.getLsbD (w - 1) = true := by rwa [BitVec.msb_eq_getLsbD_last] at hp
    simp [hlow, hmsb, BitVec.getLsbD_of_ge c (1 + (w - 1)) (by omega)] at htop
  · apply BitVec.eq_of_getLsbD_eq
    intro i hi
    cases i with
    | zero => simpa using hlow
    | succ i =>
      have hbit := congrArg (fun x => x.getLsbD i) h
      simpa [hlow, Nat.add_comm] using hbit

theorem iterate_zero (p : BitVec w) (n : Nat) : (shift p)^[n] 0#w = 0#w := by
  induction n with
  | zero => rfl
  | succ n ih => rw [Function.iterate_succ_apply, shift_zero, ih]

theorem iterate_eq_zero (hp : p.msb = true) {n : Nat} (h : (shift p)^[n] c = 0#w) : c = 0#w := by
  induction n generalizing c with
  | zero => exact h
  | succ n ih => exact shift_eq_zero hp (ih h)

/-- A word that was moved up comes down again. -/
theorem shift_shiftLeft (p : BitVec w) {x : BitVec w} (hx : x.getLsbD (w - 1) = false) :
    shift p (x <<< 1) = x := by
  have hlow : (x <<< 1).getLsbD 0 = false := by simp
  rw [shift, hlow]
  apply BitVec.eq_of_getLsbD_eq
  intro i hi
  rw [if_neg Bool.false_ne_true, BitVec.getLsbD_xor, BitVec.getLsbD_zero, Bool.xor_false,
    BitVec.getLsbD_ushiftRight, BitVec.getLsbD_shiftLeft]
  by_cases htop : i = w - 1
  · subst htop
    rw [hx, decide_eq_false (show ¬ 1 + (w - 1) < w by omega)]
    rfl
  · rw [decide_eq_true (show 1 + i < w by omega)]
    simp

/-! ## Words -/

theorem getLsbD_word (bs : List Bool) {i : Nat} (hi : i < w) :
    (word bs : BitVec w).getLsbD i = bs.getD i false := by
  induction bs generalizing i with
  | nil => simp [word]
  | cons b bs ih =>
    cases i with
    | zero => cases b <;> simp [word, bit, hi]
    | succ i =>
      have hbit : (bit b : BitVec w).getLsbD (i + 1) = false := by
        cases b <;> simp [bit, BitVec.getLsbD_one]
      rw [word, BitVec.getLsbD_xor, hbit, BitVec.getLsbD_shiftLeft]
      simp [hi, ih (show i < w by omega)]

theorem word_eq_zero {bs : List Bool} (hlen : bs.length ≤ w) (h : (word bs : BitVec w) = 0#w) :
    ∀ b ∈ bs, b = false := by
  intro b hb
  obtain ⟨i, hi, rfl⟩ := List.mem_iff_getElem.mp hb
  have hbit := getLsbD_word bs (show i < w by omega)
  rw [h] at hbit
  simpa [List.getD_eq_getElem?_getD, List.getElem?_eq_getElem hi] using hbit.symm

/-! ## Texts -/

theorem crc_append (p c : BitVec w) (as bs : List Bool) :
    crc p c (as ++ bs) = crc p (crc p c as) bs := List.foldl_append

theorem crc_zipWith (p : BitVec w) {as bs : List Bool} (hlen : as.length = bs.length) :
    crc p (c ^^^ d) (List.zipWith xor as bs) = crc p c as ^^^ crc p d bs := by
  induction as generalizing bs c d with
  | nil =>
    cases bs with
    | nil => rfl
    | cons b bs => cases hlen
  | cons a as ih =>
    cases bs with
    | nil => cases hlen
    | cons b bs =>
      have hbit : (bit (xor a b) : BitVec w) = bit a ^^^ bit b := by
        cases a <;> cases b <;> simp [bit]
      have hstep : shift p (c ^^^ d ^^^ bit (xor a b)) =
          shift p (c ^^^ bit a) ^^^ shift p (d ^^^ bit b) := by
        rw [← shift_xor, hbit]
        congr 1
        ac_rfl
      have htail : as.length = bs.length := by simpa using hlen
      have hih : crc p (shift p (c ^^^ bit a) ^^^ shift p (d ^^^ bit b))
          (List.zipWith xor as bs) = _ := ih htail
      rw [← hstep] at hih
      exact hih

theorem crc_replicate (p c : BitVec w) (n : Nat) :
    crc p c (List.replicate n false) = (shift p)^[n] c := by
  induction n generalizing c with
  | zero => rfl
  | succ n ih =>
    have hbit : c ^^^ bit false = c := by simp [bit]
    rw [List.replicate_succ, Function.iterate_succ_apply, ← ih, crc, List.foldl_cons, hbit]
    rfl

/-- A text of at most `w` bits is a word that the register could have had in it. -/
theorem crc_eq_iterate (p c : BitVec w) {bs : List Bool} (hlen : bs.length ≤ w) :
    crc p c bs = (shift p)^[bs.length] (c ^^^ word bs) := by
  induction bs generalizing c with
  | nil => simp [crc, word]
  | cons b bs ih =>
    rw [List.length_cons] at hlen
    have htop : (word bs : BitVec w).getLsbD (w - 1) = false := by
      rw [getLsbD_word bs (show w - 1 < w by omega), List.getD_eq_default _ _ (by omega)]
    have hfirst : shift p (c ^^^ word (b :: bs)) = shift p (c ^^^ bit b) ^^^ word bs := by
      rw [word, ← BitVec.xor_assoc, shift_xor, shift_shiftLeft p htop]
    rw [List.length_cons, Function.iterate_succ_apply, hfirst, ← ih _ (by omega)]
    rfl

/-- A text of `w` bits leaves zero exactly when it is what the register held. -/
theorem crc_word_eq_zero (hp : p.msb = true) {bs : List Bool} (hlen : bs.length = w) :
    crc p c bs = 0#w ↔ c = word bs := by
  rw [crc_eq_iterate p c hlen.le]
  constructor
  · intro h
    exact BitVec.xor_eq_zero_iff.mp (iterate_eq_zero hp h)
  · rintro rfl
    rw [BitVec.xor_self, iterate_zero]

/-- **Errors within `w` consecutive bits leave a trace.** -/
theorem crc_ne_zero (hp : p.msb = true) {bs : List Bool} {i : Nat}
    (hburst : ∀ k, bs[k]? = some true → i ≤ k ∧ k < i + w) (hne : true ∈ bs) :
    crc p 0#w bs ≠ 0#w := by
  intro h
  have hfalse : ∀ l : List Bool, (∀ b ∈ l, b = false) → l = List.replicate l.length false :=
    fun l hl => List.eq_replicate_iff.mpr ⟨rfl, hl⟩
  -- nothing in front of the errors, and nothing behind them
  have hfront : bs.take i = List.replicate (bs.take i).length false := by
    apply hfalse
    intro b hb
    obtain ⟨k, hk, rfl⟩ := List.mem_iff_getElem.mp hb
    rw [List.getElem_take]
    by_contra hb
    have hk' : k < i := lt_of_lt_of_le hk (by simp)
    have := hburst k (List.getElem?_eq_some_iff.mpr ⟨by simp at hk; omega, by simpa using hb⟩)
    omega
  have hback : (bs.drop i).drop w = List.replicate ((bs.drop i).drop w).length false := by
    apply hfalse
    intro b hb
    rw [List.drop_drop] at hb
    obtain ⟨k, hk, rfl⟩ := List.mem_iff_getElem.mp hb
    rw [List.getElem_drop]
    by_contra hb
    have := hburst (i + w + k) (List.getElem?_eq_some_iff.mpr
      ⟨by simp at hk; omega, by simpa using hb⟩)
    omega
  have hsplit : bs = bs.take i ++ ((bs.drop i).take w ++ (bs.drop i).drop w) := by
    rw [List.take_append_drop, List.take_append_drop]
  rw [hsplit, crc_append, crc_append, hfront, hback, crc_replicate, crc_replicate,
    iterate_zero] at h
  have hlen : ((bs.drop i).take w).length ≤ w := List.length_take_le _ _
  have hword := iterate_eq_zero hp h
  rw [crc_eq_iterate p _ hlen] at hword
  have hzero := iterate_eq_zero hp hword
  rw [BitVec.zero_xor] at hzero
  have hmid := word_eq_zero hlen hzero
  rw [hsplit, List.mem_append, List.mem_append] at hne
  rcases hne with hb | hb | hb
  · rw [hfront] at hb
    exact absurd (List.eq_of_mem_replicate hb) (by decide)
  · exact absurd (hmid true hb) (by decide)
  · rw [hback] at hb
    exact absurd (List.eq_of_mem_replicate hb) (by decide)

/-! ## Bytes -/

/-- The bits of a byte, lowest first. -/
def byteBits (b : UInt8) : List Bool := (List.range 8).map b.toNat.testBit

/-- Bytes in order, the bits of each lowest first. -/
def bits (bytes : List UInt8) : List Bool := bytes.flatMap byteBits

theorem length_byteBits (b : UInt8) : (byteBits b).length = 8 := rfl

theorem bits_cons (b : UInt8) (bytes : List UInt8) : bits (b :: bytes) = byteBits b ++ bits bytes :=
  List.flatMap_cons

theorem bits_append (as bs : List UInt8) : bits (as ++ bs) = bits as ++ bits bs :=
  List.flatMap_append

theorem length_bits (bytes : List UInt8) : (bits bytes).length = 8 * bytes.length := by
  induction bytes with
  | nil => rfl
  | cons b bytes ih =>
    rw [bits_cons, List.length_append, length_byteBits, ih, List.length_cons]
    omega

theorem bits_replicate_zero (n : Nat) :
    bits (List.replicate n 0) = List.replicate (8 * n) false := by
  induction n with
  | zero => rfl
  | succ n ih =>
    have hbyte : byteBits 0 = List.replicate 8 false := by decide
    rw [List.replicate_succ, bits_cons, ih, hbyte, List.replicate_append_replicate, Nat.mul_succ,
      Nat.add_comm]

/-- An error in a few consecutive bytes lies within their bits. -/
theorem burst_of_bytes (m : Nat) (bytes : List UInt8) (n : Nat) {k : Nat}
    (hk : (bits (List.replicate m 0 ++ bytes ++ List.replicate n 0))[k]? = some true) :
    8 * m ≤ k ∧ k < 8 * m + 8 * bytes.length := by
  rw [bits_append, bits_append, bits_replicate_zero, bits_replicate_zero] at hk
  have hlen : (List.replicate (8 * m) false ++ bits bytes).length = 8 * m + 8 * bytes.length := by
    rw [List.length_append, List.length_replicate, length_bits]
  rcases Nat.lt_or_ge k (8 * m + 8 * bytes.length) with hlt | hge
  · refine ⟨?_, hlt⟩
    by_contra hbefore
    have hzero : k < (List.replicate (8 * m) false).length := by
      rw [List.length_replicate]
      omega
    rw [List.getElem?_append_left (hlen ▸ hlt), List.getElem?_append_left hzero,
      List.getElem?_replicate] at hk
    split_ifs at hk
    cases hk
  · rw [List.getElem?_append_right (hlen ▸ hge), List.getElem?_replicate] at hk
    split_ifs at hk
    cases hk

theorem getD_byteBits (b : UInt8) (i : Nat) : (byteBits b).getD i false = b.toNat.testBit i := by
  by_cases hi : i < 8
  · simp [byteBits, List.getD_eq_getElem?_getD, hi]
  · have hlt : b.toNat < 2 ^ i :=
      lt_of_lt_of_le b.toNat_lt (Nat.pow_le_pow_right (by decide) (by omega))
    rw [List.getD_eq_default _ _ (by rw [length_byteBits]; omega), Nat.testBit_lt_two_pow hlt]

theorem byteBits_xor (a b : UInt8) :
    byteBits (a ^^^ b) = List.zipWith xor (byteBits a) (byteBits b) := by
  simp only [byteBits, List.zipWith_map, List.zipWith_self, UInt8.toNat_xor]
  exact List.map_congr_left (fun i _ => Nat.testBit_xor ..)

theorem bits_zipWith {as bs : List UInt8} (hlen : as.length = bs.length) :
    bits (List.zipWith (· ^^^ ·) as bs) = List.zipWith xor (bits as) (bits bs) := by
  induction as generalizing bs with
  | nil => rfl
  | cons a as ih =>
    cases bs with
    | nil => cases hlen
    | cons b bs =>
      rw [List.zipWith_cons_cons, bits_cons, bits_cons, bits_cons, byteBits_xor,
        ih (by simpa using hlen), List.zipWith_append (by simp [length_byteBits])]

theorem true_mem_bits {bytes : List UInt8} {b : UInt8} (hb : b ∈ bytes) (hne : b ≠ 0) :
    true ∈ bits bytes := by
  have hnat : b.toNat ≠ 0 := fun h => hne (UInt8.toNat_inj.mp h)
  obtain ⟨i, hi⟩ := Nat.exists_testBit_of_ne_zero hnat
  refine List.mem_flatMap.mpr ⟨b, hb, ?_⟩
  rw [← getD_byteBits] at hi
  by_cases hlt : i < (byteBits b).length
  · rw [List.getD_eq_getElem?_getD, List.getElem?_eq_getElem hlt] at hi
    exact hi ▸ List.getElem_mem hlt
  · rw [List.getD_eq_default _ _ (by omega)] at hi
    cases hi

/-- The bits of little-endian bytes are those of the number they stand for. -/
theorem testBit_leValue (bytes : List UInt8) (i : Nat) :
    (leValue bytes).testBit i = (bits bytes).getD i false := by
  induction bytes generalizing i with
  | nil => simp [leValue, bits]
  | cons b bytes ih =>
    have hvalue : leValue (b :: bytes) = 2 ^ 8 * leValue bytes + b.toNat := by
      rw [leValue]
      omega
    rw [hvalue, Nat.testBit_two_pow_mul_add _ b.toNat_lt, bits_cons]
    split_ifs with hi
    · rw [List.getD_append _ _ _ _ (by rwa [length_byteBits]), getD_byteBits]
    · rw [List.getD_append_right _ _ _ _ (by rw [length_byteBits]; omega), length_byteBits, ih]

theorem word_bits (bytes : List UInt8) :
    (word (bits bytes) : BitVec w) = BitVec.ofNat w (leValue bytes) := by
  apply BitVec.eq_of_getLsbD_eq
  intro i hi
  rw [getLsbD_word _ hi, BitVec.getLsbD_ofNat, testBit_leValue]
  simp [hi]

/-- A byte goes in at once: it is added to the register, which then moves on by eight. -/
theorem crc_byteBits (hw : 8 ≤ w) (p c : BitVec w) (b : UInt8) :
    crc p c (byteBits b) = (shift p)^[8] (c ^^^ BitVec.ofNat w b.toNat) := by
  have hone := word_bits (w := w) [b]
  have hvalue : leValue [b] = b.toNat := by simp [leValue]
  have hbits : bits [b] = byteBits b := by simp [bits]
  rw [hvalue, hbits] at hone
  rw [crc_eq_iterate p c (by rwa [length_byteBits]), hone, length_byteBits]

end Crc
end Lib
end BuildingBlocks
