import Mathlib.Algebra.Ring.Nat
import Mathlib.Data.List.Basic
import Mathlib.Tactic.Common

/-!
# BuildingBlocks.Lib.Layout

Memory layouts of fixed size: how a value stands in bytes, and the value any bytes stand for.

* `leBytes`, `leValue`: little-endian numbers.
* `Layout` carries its own laws: the size, and that reading what was written gives the value back.
* `Layout.byte`, `bytes`, `le`, `pair`, `map` build the layout of a C struct.
* `Layout.load` is `fread` of one object: bytes that are missing keep their old content.
* `Layout.Exact`: writing what was read gives the bytes back, so that enough bytes are always some
  value's.
-/

namespace BuildingBlocks

/-- The low `k` base-256 digits of `n`, least significant first. -/
def leBytes : Nat → Nat → List UInt8
  | 0, _ => []
  | k + 1, n => UInt8.ofNat n :: leBytes k (n / 256)

/-- The number little-endian bytes stand for. -/
def leValue : List UInt8 → Nat
  | [] => 0
  | b :: bs => b.toNat + 256 * leValue bs

@[simp] theorem length_leBytes (k n : Nat) : (leBytes k n).length = k := by
  induction k generalizing n with
  | zero => rfl
  | succ k ih => simp [leBytes, ih]

theorem leValue_leBytes (k n : Nat) : leValue (leBytes k n) = n % 256 ^ k := by
  induction k generalizing n with
  | zero => simp [leBytes, leValue, Nat.mod_one]
  | succ k ih =>
    have hb : (UInt8.ofNat n).toNat = n % 256 := by simp
    rw [leBytes, leValue, ih, hb, Nat.pow_succ, Nat.mul_comm (256 ^ k) 256, Nat.mod_mul]

/-- Bytes are the digits of their value. -/
theorem leBytes_leValue (bs : List UInt8) : leBytes bs.length (leValue bs) = bs := by
  induction bs with
  | nil => rfl
  | cons b bs ih =>
    have hb := b.toNat_lt
    have hdigit : UInt8.ofNat (b.toNat + 256 * leValue bs) = b := by
      apply UInt8.toNat_inj.mp
      rw [UInt8.toNat_ofNat']
      omega
    have hrest : (b.toNat + 256 * leValue bs) / 256 = leValue bs := by omega
    rw [List.length_cons, leValue, leBytes, hdigit, hrest, ih]

theorem leValue_lt (bs : List UInt8) : leValue bs < 256 ^ bs.length := by
  induction bs with
  | nil => simp [leValue]
  | cons b bs ih =>
    have hb := b.toNat_lt
    rw [leValue, List.length_cons, Nat.pow_succ]
    omega

structure Layout (α : Type*) where
  size : Nat
  put : α → List UInt8
  get : List UInt8 → α
  length_put : ∀ a, (put a).length = size
  get_put : ∀ a rest, get (put a ++ rest) = a

namespace Layout

attribute [simp] length_put get_put

variable {α β : Type*}

def byte : Layout UInt8 where
  size := 1
  put b := [b]
  get bs := bs.headD 0
  length_put _ := rfl
  get_put _ _ := rfl

/-- `char x[n]`. -/
def bytes (n : Nat) : Layout (Vector UInt8 n) where
  size := n
  put v := v.toList
  get bs := Vector.ofFn (fun i => bs.getD i 0)
  length_put v := by simp
  get_put v rest := by
    ext i hi
    simp [List.getElem?_append]

/-- An unsigned little-endian integer of `k` bytes. -/
def le (k : Nat) : Layout (BitVec (8 * k)) where
  size := k
  put x := leBytes k x.toNat
  get bs := BitVec.ofNat (8 * k) (leValue (bs.take k))
  length_put x := by simp
  get_put x rest := by
    have hx : x.toNat < 256 ^ k := by
      have := x.isLt
      rwa [Nat.pow_mul] at this
    rw [List.take_append_of_le_length (by simp), List.take_of_length_le (by simp),
      leValue_leBytes, Nat.mod_eq_of_lt hx]
    simp

def pair (l : Layout α) (r : Layout β) : Layout (α × β) where
  size := l.size + r.size
  put x := l.put x.1 ++ r.put x.2
  get bs := (l.get bs, r.get (bs.drop l.size))
  length_put x := by simp
  get_put x rest := by
    have hdrop : (l.put x.1 ++ (r.put x.2 ++ rest)).drop l.size = r.put x.2 ++ rest := by
      rw [List.drop_append_of_le_length (by simp), List.drop_of_length_le (by simp)]
      rfl
    rw [List.append_assoc, hdrop]
    simp

/-- The same bytes read as another type. -/
def map (l : Layout α) (f : β → α) (g : α → β) (h : ∀ b, g (f b) = b) : Layout β where
  size := l.size
  put b := l.put (f b)
  get bs := g (l.get bs)
  length_put b := by simp
  get_put b rest := by simp [h]

/-- `fread` into an object that holds `old`. -/
def load (l : Layout α) (old : α) (input : List UInt8) : α :=
  l.get (input.take l.size ++ (l.put old).drop input.length)

theorem load_put (l : Layout α) (old a : α) (rest : List UInt8) :
    l.load old (l.put a ++ rest) = a := by
  unfold load
  rw [List.take_append_of_le_length (by simp), List.take_of_length_le (by simp), get_put]

/-- Writing what was read gives the bytes back. -/
def Exact (l : Layout α) : Prop := ∀ bs, l.size ≤ bs.length → l.put (l.get bs) = bs.take l.size

theorem exact_byte : Exact byte := by
  intro bs hbs
  cases bs with
  | nil => exact absurd hbs (by decide)
  | cons b bs => rfl

theorem exact_bytes (n : Nat) : Exact (bytes n) := by
  intro bs hbs
  have hlen : n ≤ bs.length := hbs
  apply List.ext_getElem
  · simp [bytes, hlen]
  · intro i hi hi'
    have hib : i < bs.length := by
      rw [List.length_take] at hi'
      omega
    simp [bytes, hib]

theorem exact_le (k : Nat) : Exact (le k) := by
  intro bs hbs
  have hlen : (bs.take k).length = k := by
    rw [List.length_take]
    exact min_eq_left hbs
  have hlt := leValue_lt (bs.take k)
  rw [hlen] at hlt
  have hval : (BitVec.ofNat (8 * k) (leValue (bs.take k))).toNat = leValue (bs.take k) := by
    rw [BitVec.toNat_ofNat, Nat.pow_mul]
    exact Nat.mod_eq_of_lt hlt
  have hdigits := leBytes_leValue (bs.take k)
  rw [hlen] at hdigits
  show leBytes k (BitVec.ofNat (8 * k) (leValue (bs.take k))).toNat = bs.take k
  rw [hval, hdigits]

theorem Exact.pair {l : Layout α} {r : Layout β} (hl : l.Exact) (hr : r.Exact) :
    (l.pair r).Exact := by
  intro bs hbs
  have hsize : l.size + r.size ≤ bs.length := hbs
  show l.put (l.get bs) ++ r.put (r.get (bs.drop l.size)) = bs.take (l.size + r.size)
  rw [hl bs (by omega), hr _ (by rw [List.length_drop]; omega), List.take_add]

theorem Exact.map {l : Layout α} {f : β → α} {g : α → β} {h : ∀ b, g (f b) = b} (hl : l.Exact)
    (hinv : ∀ a, f (g a) = a) : (l.map f g h).Exact := by
  intro bs hbs
  show l.put (f (g (l.get bs))) = bs.take l.size
  rw [hinv, hl bs hbs]

/-- With all its bytes there, an object is read as the one they were written from. -/
theorem Exact.put_load {l : Layout α} (hl : l.Exact) (old : α) {input : List UInt8}
    (h : l.size ≤ input.length) : l.put (l.load old input) = input.take l.size := by
  have hold : (l.put old).drop input.length = [] :=
    List.drop_eq_nil_of_le (by rw [l.length_put]; exact h)
  have hlen : l.size ≤ (input.take l.size).length := by
    rw [List.length_take, min_eq_left h]
  rw [load, hold, List.append_nil, hl _ hlen, List.take_take, min_self]

end Layout
end BuildingBlocks
