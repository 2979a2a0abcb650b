import BuildingBlocks.Lib.Crc
import BuildingBlocks.Lib.Run
import BuildingBlocks.Lib.Text

/-!
# BuildingBlocks.Persist.Mfg

The manufacturing record of `libbb/bb_persist.c`: `bb_mfg_read` and the accessors of its fields.

* `Record` is `bb_mfg_data_t`, as the bytes it lies in.
* `State` is the cache with its flag and the record of the caller. An accessor passes the cache
  itself as the record to be filled, so `mfgRead` is told which of the two it fills.
* `burst_rejected` — errors within 32 consecutive bits of an accepted record are found.
* `exposed_iff` — only verified data is exposed exactly when no failing call leaves bytes behind.
-/

namespace BuildingBlocks
namespace Persist
namespace Mfg

open Lib

/-! ## The record -/

/-- `sizeof(bb_mfg_data_t)`. -/
def recordSize : Nat := 192

structure Record where
  bytes : List UInt8
  length_eq : bytes.length = recordSize
deriving DecidableEq

/-- A static record before anything is stored in it. -/
def Record.zero : Record := ⟨List.replicate recordSize 0, List.length_replicate⟩

/-- The fields that have an accessor. -/
inductive Field where
  | serial
  | hwRevision
  | partNumber
deriving DecidableEq, Repr

/-- Behind the serial stand two hardware addresses, behind the revision the date. -/
def Field.offset : Field → Nat
  | .serial => 0
  | .hwRevision => 32 + 6 + 6
  | .partNumber => 32 + 6 + 6 + 32 + 16

def Field.size : Field → Nat
  | .serial | .hwRevision | .partNumber => 32

def Record.field (r : Record) (f : Field) : List UInt8 := (r.bytes.drop f.offset).take f.size

/-- The member `crc32`, little-endian. -/
def Record.crc32 (r : Record) : UInt32 := UInt32.ofNat (leValue (r.bytes.drop (recordSize - 4)))

/-- The body of the inner loop. -/
def crcShift (crc : UInt32) : UInt32 := (crc >>> 1) ^^^ (if crc &&& 1 ≠ 0 then 0xEDB88320 else 0)

/-- The body of the outer loop: the inner one runs eight times. -/
def crcByte (crc : UInt32) (b : UInt8) : UInt32 := crcShift^[8] (crc ^^^ b.toUInt32)

def Record.crc (r : Record) : UInt32 := (r.bytes.take (recordSize - 4)).foldl crcByte 0

/-- The test of `bb_mfg_read`. -/
def Record.Verified (r : Record) : Prop := r.crc = r.crc32

instance (r : Record) : Decidable r.Verified := inferInstanceAs (Decidable (_ = _))

/-- What `read` stores at the front of a record. -/
def Record.overwrite (r : Record) (bytes : List UInt8) : Record where
  bytes := (bytes ++ r.bytes.drop bytes.length).take recordSize
  length_eq := by
    have hr := r.length_eq
    rw [List.length_take, List.length_append, List.length_drop]
    omega

/-! ## The code -/

/-- What `open` and `read` of the partition gave: no descriptor, -1, or bytes. -/
inductive Access where
  | noDevice
  | failed
  | got (bytes : List UInt8)
deriving DecidableEq, Repr

/-- `g_mfg` and `g_mfg_loaded`, and the record of the caller. `verified` is history: the records
that passed the test. -/
structure State where
  cache : Record
  loaded : Bool
  caller : Record
  verified : List Record

/-- The record `out` points to. -/
inductive Dest where
  | caller
  | cache
deriving DecidableEq, Repr

def State.get (s : State) : Dest → Record
  | .caller => s.caller
  | .cache => s.cache

def State.set (s : State) (r : Record) : Dest → State
  | .caller => { s with caller := r }
  | .cache => { s with cache := r }

def State.init : State where
  cache := .zero
  loaded := false
  caller := .zero
  verified := []

/-- `bb_mfg_read`: the record is filled before its length and its checksum are tested. -/
def mfgRead (s : State) (out : Dest) (a : Access) : Int × State :=
  if s.loaded then (0, s.set s.cache out)
  else
    match a with
    | .noDevice => (-1, s)
    | .failed => (-1, s)
    | .got bytes =>
      let r := (s.get out).overwrite bytes
      let s := s.set r out
      if bytes.length ≠ recordSize then (-1, s)
      else if r.Verified then
        (0, { s with cache := r, loaded := true, verified := s.verified ++ [r] })
      else (-1, s)

/-- `bb_mfg_serial`, `bb_mfg_hw_revision` and `bb_mfg_part_number`: the result of the read is not
looked at. -/
def mfgField (s : State) (f : Field) (a : Access) : List UInt8 × State :=
  let s := if s.loaded then s else (mfgRead s .cache a).2
  (s.cache.field f, s)

/-- A call, with what the device gives it. -/
inductive Call where
  | read (out : Record) (a : Access)
  | field (f : Field) (a : Access)
deriving DecidableEq

/-- `read` gives at most the bytes it is asked for. -/
def Access.Possible : Access → Prop
  | .got bytes => bytes.length ≤ recordSize
  | _ => True

instance (a : Access) : Decidable a.Possible :=
  match a with
  | .noDevice | .failed => .isTrue trivial
  | .got _ => inferInstanceAs (Decidable (_ ≤ _))

def step (s : State) : Call → Option State
  | .read out a => if a.Possible then some (mfgRead { s with caller := out } .caller a).2 else none
  | .field f a => if a.Possible then some (mfgField s f a).2 else none

/-! ## Overwriting -/

section Overwrite

variable {r : Record} {bytes : List UInt8}

theorem Record.ext_bytes {r r' : Record} (h : r.bytes = r'.bytes) : r = r' := by
  cases r
  cases r'
  congr

theorem Record.overwrite_bytes (hlen : bytes.length ≤ recordSize) :
    (r.overwrite bytes).bytes = bytes ++ r.bytes.drop bytes.length := by
  have hr := r.length_eq
  refine List.take_of_length_le ?_
  rw [List.length_append, List.length_drop]
  omega

theorem Record.overwrite_full (hlen : bytes.length = recordSize) :
    (r.overwrite bytes).bytes = bytes := by
  rw [overwrite_bytes hlen.le, List.drop_eq_nil_of_le (by rw [r.length_eq, hlen]), List.append_nil]

/-- A record stays as it is when what is stored is what it starts with. -/
theorem Record.overwrite_eq_iff (hlen : bytes.length ≤ recordSize) :
    r.overwrite bytes = r ↔ bytes <+: r.bytes := by
  constructor
  · intro h
    rw [← h, overwrite_bytes hlen]
    exact List.prefix_append _ _
  · rintro ⟨rest, hrest⟩
    apply ext_bytes
    rw [overwrite_bytes hlen, ← hrest, List.drop_left]

end Overwrite

/-! ## The checksum -/

/-- The generator, lowest coefficient on top. -/
def poly : BitVec 32 := 0xEDB88320

theorem poly_msb : poly.msb = true := by decide

theorem crcShift_toBitVec (crc : UInt32) :
    (crcShift crc).toBitVec = Crc.shift poly crc.toBitVec := by
  have hlow : (crc &&& 1 ≠ 0) ↔ crc.toBitVec.getLsbD 0 = true := by
    rw [ne_eq, ← UInt32.toBitVec_inj, UInt32.toBitVec_and]
    have hand : crc.toBitVec &&& (1 : UInt32).toBitVec =
        BitVec.setWidth 32 (BitVec.ofBool (crc.toBitVec.getLsbD 0)) :=
      BitVec.and_one_eq_setWidth_ofBool_getLsbD
    rw [hand]
    cases crc.toBitVec.getLsbD 0 <;> decide
  unfold crcShift Crc.shift
  by_cases h : crc.toBitVec.getLsbD 0 = true
  · rw [if_pos (hlow.mpr h), if_pos h]
    rfl
  · rw [if_neg (fun h' => h (hlow.mp h')), if_neg h]
    rfl

theorem iterate_crcShift (n : Nat) (crc : UInt32) :
    (crcShift^[n] crc).toBitVec = (Crc.shift poly)^[n] crc.toBitVec := by
  induction n generalizing crc with
  | zero => rfl
  | succ n ih =>
    rw [Function.iterate_succ_apply, Function.iterate_succ_apply, ih, crcShift_toBitVec]

theorem crcByte_toBitVec (crc : UInt32) (b : UInt8) :
    (crcByte crc b).toBitVec = Crc.crc poly crc.toBitVec (Crc.byteBits b) := by
  have hbyte : (crc ^^^ b.toUInt32).toBitVec = crc.toBitVec ^^^ BitVec.ofNat 32 b.toNat := by
    rw [UInt32.toBitVec_xor]
    congr 1
    apply BitVec.eq_of_toNat_eq
    simp
  rw [crcByte, iterate_crcShift, hbyte, Crc.crc_byteBits (by decide)]

theorem foldl_crcByte (bytes : List UInt8) (crc : UInt32) :
    (bytes.foldl crcByte crc).toBitVec = Crc.crc poly crc.toBitVec (Crc.bits bytes) := by
  induction bytes generalizing crc with
  | nil => rfl
  | cons b bytes ih =>
    rw [List.foldl_cons, ih, crcByte_toBitVec, Crc.bits_cons, Crc.crc_append]

/-- The test passes exactly when the register ends at zero behind the whole record. -/
theorem Record.verified_iff (r : Record) :
    r.Verified ↔ Crc.crc poly 0#32 (Crc.bits r.bytes) = 0#32 := by
  have hr := r.length_eq
  have hlen : (Crc.bits (r.bytes.drop (recordSize - 4))).length = 32 := by
    rw [Crc.length_bits, List.length_drop, hr]
    rfl
  have hcrc : r.crc32.toBitVec = Crc.word (Crc.bits (r.bytes.drop (recordSize - 4))) := by
    rw [Crc.word_bits]
    rfl
  have hsplit : Crc.bits r.bytes = Crc.bits (r.bytes.take (recordSize - 4)) ++
      Crc.bits (r.bytes.drop (recordSize - 4)) := by
    rw [← Crc.bits_append, List.take_append_drop]
  have hfold := foldl_crcByte (r.bytes.take (recordSize - 4)) 0
  rw [hsplit, Crc.crc_append, Crc.crc_word_eq_zero poly_msb hlen, ← hcrc]
  unfold Verified crc
  rw [← UInt32.toBitVec_inj, hfold]
  rfl

/-- An error within 32 consecutive bits of a verified record. -/
theorem Record.Verified.not_verified {r r' : Record} (hr : r.Verified) {e : List UInt8}
    (hlen : e.length = recordSize) (hr' : r'.bytes = List.zipWith (· ^^^ ·) r.bytes e)
    (hne : ∃ b ∈ e, b ≠ 0) {i : Nat}
    (hburst : ∀ k, (Crc.bits e)[k]? = some true → i ≤ k ∧ k < i + 32) : ¬ r'.Verified := by
  have hbytes : r.bytes.length = e.length := r.length_eq.trans hlen.symm
  have hbits : (Crc.bits r.bytes).length = (Crc.bits e).length := by
    rw [Crc.length_bits, Crc.length_bits, hbytes]
  obtain ⟨b, hb, hb0⟩ := hne
  have hsum := Crc.crc_zipWith poly (c := 0#32) (d := 0#32) hbits
  rw [r.verified_iff] at hr
  rw [BitVec.zero_xor, hr, BitVec.zero_xor, ← Crc.bits_zipWith hbytes, ← hr'] at hsum
  rw [r'.verified_iff, hsum]
  exact Crc.crc_ne_zero poly_msb hburst (Crc.true_mem_bits hb hb0)

/-! ## Reading -/

section Read

variable {s : State} {out : Dest} {a : Access} {bytes : List UInt8}

theorem State.set_get (s : State) (out : Dest) : s.set (s.get out) out = s := by
  cases out <;> rfl

/-- What reading bytes from the device comes to. -/
theorem mfgRead_got (hs : s.loaded = false) :
    mfgRead s out (.got bytes) =
      if bytes.length = recordSize ∧ ((s.get out).overwrite bytes).Verified then
        (0, { s.set ((s.get out).overwrite bytes) out with
          cache := (s.get out).overwrite bytes
          loaded := true
          verified := s.verified ++ [(s.get out).overwrite bytes] })
      else (-1, s.set ((s.get out).overwrite bytes) out) := by
  have hverified : ∀ r, (s.set r out).verified = s.verified := by
    intro r
    cases out <;> rfl
  simp only [mfgRead, hs, Bool.false_eq_true, if_false, hverified]
  split_ifs <;> simp_all

theorem mfgRead_loaded (hs : s.loaded = true) : mfgRead s out a = (0, s.set s.cache out) := by
  simp [mfgRead, hs]

/-- **Errors within 32 consecutive bits are found.** For every record the test accepts and every
error that is not zero and lies within 32 consecutive bits of the record, the checksum included, the
corrupted record is rejected. -/
theorem burst_rejected (s : State) (hs : s.loaded = false) (out : Dest) (bytes e : List UInt8)
    (hacc : (mfgRead s out (.got bytes)).1 = 0) (hlen : e.length = recordSize)
    (hne : ∃ b ∈ e, b ≠ 0) (i : Nat)
    (hburst : ∀ k, (Crc.bits e)[k]? = some true → i ≤ k ∧ k < i + 32) :
    (mfgRead s out (.got (List.zipWith (· ^^^ ·) bytes e))).1 = -1 := by
  rw [mfgRead_got hs] at hacc ⊢
  split_ifs at hacc with h
  · obtain ⟨hbytes, hverified⟩ := h
    have hzip : (List.zipWith (· ^^^ ·) bytes e).length = recordSize := by
      rw [List.length_zipWith, hbytes, hlen, Nat.min_self]
    have hcorrupt : ¬ ((s.get out).overwrite (List.zipWith (· ^^^ ·) bytes e)).Verified :=
      hverified.not_verified hlen
        (by rw [Record.overwrite_full hzip, Record.overwrite_full hbytes]) hne hburst
    rw [if_neg (fun h => hcorrupt h.2)]
  · exact absurd hacc (by simp)

/-- A text field of `n` bytes. -/
def padded (n : Nat) (text : String) : List UInt8 :=
  ascii text ++ List.replicate (n - text.length) 0

/-- The record of a board, with its checksum. -/
def sampleRecord : List UInt8 :=
  padded 32 "IMX8MP-000042" ++ [2, 0, 0, 0, 0, 0x2a] ++ [2, 0, 0, 0, 0, 0x2b] ++ padded 32 "B2" ++
    padded 16 "2024-05-17" ++ padded 32 "PN-7" ++ List.replicate 64 0x61 ++ [0x67, 0x08, 0x2c, 0xd8]

/-- An error that begins in the last byte before the checksum. -/
def sampleError : List UInt8 :=
  List.replicate 187 0 ++ [0x81, 0xff, 0x10, 0x80] ++ List.replicate 1 0

theorem burst_rejected_sample :
    (mfgRead .init .caller (.got (List.zipWith (· ^^^ ·) sampleRecord sampleError))).1 = -1 := by
  refine burst_rejected .init rfl .caller sampleRecord sampleError ?_ rfl
    ⟨0xff, by decide, by decide⟩ (8 * 187) ?_
  · decide +kernel
  · exact fun k hk => Crc.burst_of_bytes 187 [0x81, 0xff, 0x10, 0x80] 1 hk

/-! ## What is exposed -/

/-- A call that fails leaves both records as they were. -/
def Keeps (s : State) (out : Dest) (a : Access) : Prop :=
  (mfgRead s out a).1 = -1 →
    (mfgRead s out a).2.cache = s.cache ∧ (mfgRead s out a).2.caller = s.caller

/-- An accessor gives the field of a record that passed the test, or an empty string when there is
none. -/
def Exposes (s : State) (f : Field) (a : Access) : Prop :=
  (∃ r ∈ (mfgField s f a).2.verified, r.Verified ∧ (mfgField s f a).1 = r.field f) ∨
    ((mfgField s f a).2.verified = [] ∧ cstr (mfgField s f a).1 = [])

/-- The law of one call; an accessor that finds nothing loaded is a call of `bb_mfg_read` too. -/
def Call.Law (s : State) : Call → Prop
  | .read out a => Keeps { s with caller := out } .caller a
  | .field f a => (s.loaded = false → Keeps s .cache a) ∧ Exposes s f a

/-- What the device gave is no bytes, a verified record, or what the record starts with anyway. -/
def Access.Harmless (r : Record) : Access → Prop
  | .noDevice | .failed => True
  | .got bytes =>
    (bytes.length = recordSize ∧ (r.overwrite bytes).Verified) ∨ bytes <+: r.bytes

instance (r : Record) (a : Access) : Decidable (a.Harmless r) :=
  match a with
  | .noDevice | .failed => .isTrue trivial
  | .got _ => inferInstanceAs (Decidable (_ ∨ _))

theorem Access.harmless_got {r : Record} {bytes : List UInt8} :
    (Access.got bytes).Harmless r ↔
      (bytes.length = recordSize ∧ (r.overwrite bytes).Verified) ∨ bytes <+: r.bytes := Iff.rfl

/-- The condition: the cache is loaded, or the device leaves nothing behind. -/
def Call.Clean (s : State) : Call → Prop
  | .read out a => s.loaded = true ∨ a.Harmless out
  | .field _ a => s.loaded = true ∨ a.Harmless s.cache

instance (s : State) (c : Call) : Decidable (c.Clean s) :=
  match c with
  | .read _ _ | .field _ _ => inferInstanceAs (Decidable (_ ∨ _))

theorem keeps_iff (hs : s.loaded = false) (ha : a.Possible) :
    Keeps s out a ↔ a.Harmless (s.get out) := by
  cases a with
  | noDevice => simp [Keeps, mfgRead, hs, Access.Harmless]
  | failed => simp [Keeps, mfgRead, hs, Access.Harmless]
  | got bytes =>
    unfold Keeps
    rw [mfgRead_got hs, Access.harmless_got]
    split_ifs with h
    · simp [h]
    · have hsame : (s.set ((s.get out).overwrite bytes) out).cache = s.cache ∧
          (s.set ((s.get out).overwrite bytes) out).caller = s.caller ↔
          (s.get out).overwrite bytes = s.get out := by
        cases out <;> simp [State.set, State.get]
      rw [or_iff_right h, ← Record.overwrite_eq_iff ha, ← hsame]
      exact forall_prop_of_true rfl

/-- A loaded cache is a verified record, and one that is not loaded is still zero. -/
structure Inv (s : State) : Prop where
  loaded : s.loaded = true → s.cache ∈ s.verified
  empty : s.loaded = false → s.verified = [] ∧ s.cache = .zero
  verified : ∀ r ∈ s.verified, r.Verified

theorem inv_init : Inv .init where
  loaded := fun h => absurd h (by decide)
  empty := fun _ => ⟨rfl, rfl⟩
  verified := fun _ hr => absurd hr List.not_mem_nil

/-- What is there after a harmless read: everything but the record of the caller as it was, or a
verified record. -/
theorem mfgRead_cases (ha : s.loaded = true ∨ a.Harmless (s.get out)) (hp : a.Possible) :
    (∃ r, (mfgRead s out a).2 = { s with caller := r }) ∨
    (s.loaded = false ∧ ∃ r caller, r.Verified ∧ (mfgRead s out a).2 =
      { cache := r, loaded := true, caller := caller, verified := s.verified ++ [r] }) := by
  by_cases hs : s.loaded = true
  · rw [mfgRead_loaded hs]
    cases out with
    | caller => exact .inl ⟨s.cache, rfl⟩
    | cache => exact .inl ⟨s.caller, rfl⟩
  · rw [Bool.not_eq_true] at hs
    cases a with
    | noDevice => exact .inl ⟨s.caller, by rw [mfgRead, if_neg (by simp [hs])]⟩
    | failed => exact .inl ⟨s.caller, by rw [mfgRead, if_neg (by simp [hs])]⟩
    | got bytes =>
      rw [mfgRead_got hs]
      split_ifs with h
      · cases out with
        | caller => exact .inr ⟨hs, _, _, h.2, rfl⟩
        | cache => exact .inr ⟨hs, _, _, h.2, rfl⟩
      · have hsame : (s.get out).overwrite bytes = s.get out := by
          rw [Record.overwrite_eq_iff hp]
          rcases ha with ha | ha | ha
          · rw [hs] at ha
            cases ha
          · exact absurd ha h
          · exact ha
        rw [hsame, State.set_get]
        exact .inl ⟨s.caller, rfl⟩

theorem Inv.read (hi : Inv s) (ha : s.loaded = true ∨ a.Harmless (s.get out)) (hp : a.Possible) :
    Inv (mfgRead s out a).2 := by
  rcases mfgRead_cases ha hp with ⟨r, he⟩ | ⟨hs, r, caller, hr, he⟩
  · rw [he]
    exact ⟨hi.loaded, hi.empty, hi.verified⟩
  · rw [he]
    refine ⟨fun _ => List.mem_append_right _ List.mem_cons_self, fun h => absurd h (by simp), ?_⟩
    intro r' hr'
    rcases List.mem_append.mp hr' with hr' | hr'
    · exact hi.verified r' hr'
    · rw [List.mem_singleton.mp hr']
      exact hr

theorem Inv.mfgField {f : Field} (hi : Inv s) (hc : Call.Clean s (.field f a))
    (hp : a.Possible) : Inv (mfgField s f a).2 := by
  unfold Mfg.mfgField
  by_cases hs : s.loaded = true
  · simpa [hs] using hi
  · have hread : Inv (mfgRead s .cache a).2 := hi.read hc hp
    simpa [hs] using hread

theorem Inv.exposes {f : Field} (hi : Inv s) (hc : Call.Clean s (.field f a))
    (hp : a.Possible) : Exposes s f a := by
  have hi' := hi.mfgField hc hp
  have htext : (Mfg.mfgField s f a).1 = (Mfg.mfgField s f a).2.cache.field f := rfl
  unfold Exposes
  rw [htext]
  by_cases hl : (Mfg.mfgField s f a).2.loaded = true
  · exact .inl ⟨_, hi'.loaded hl, hi'.verified _ (hi'.loaded hl), rfl⟩
  · obtain ⟨hnone, hzero⟩ := hi'.empty (by simpa using hl)
    rw [hnone, hzero]
    refine .inr ⟨rfl, ?_⟩
    cases f <;> decide

end Read

theorem step_read {s s' : State} {out : Record} {a : Access}
    (h : step s (.read out a) = some s') :
    a.Possible ∧ s' = (mfgRead { s with caller := out } .caller a).2 := by
  simp only [step] at h
  split_ifs at h with hp
  cases h
  exact ⟨hp, rfl⟩

theorem step_field {s s' : State} {f : Field} {a : Access} (h : step s (.field f a) = some s') :
    a.Possible ∧ s' = (mfgField s f a).2 := by
  simp only [step] at h
  split_ifs at h with hp
  cases h
  exact ⟨hp, rfl⟩

theorem law_iff_clean {s s' : State} {c : Call} (hi : Inv s) (h : step s c = some s') :
    c.Law s ↔ c.Clean s := by
  cases c with
  | read out a =>
    obtain ⟨hp, -⟩ := step_read h
    show Keeps { s with caller := out } .caller a ↔ s.loaded = true ∨ a.Harmless out
    by_cases hs : s.loaded = true
    · simp [Keeps, mfgRead, hs]
    · rw [keeps_iff (by simpa using hs) hp, or_iff_right hs]
      rfl
  | field f a =>
    obtain ⟨hp, -⟩ := step_field h
    constructor
    · rintro ⟨hkeeps, -⟩
      by_cases hs : s.loaded = true
      · exact .inl hs
      · rw [Bool.not_eq_true] at hs
        exact .inr ((keeps_iff hs hp).mp (hkeeps hs))
    · intro hc
      refine ⟨fun hs => (keeps_iff hs hp).mpr (hc.resolve_left (by simp [hs])), hi.exposes hc hp⟩

theorem inv_step {s s' : State} {c : Call} (hi : Inv s) (hc : c.Clean s)
    (h : step s c = some s') : Inv s' := by
  cases c with
  | read out a =>
    obtain ⟨hp, rfl⟩ := step_read h
    have hi' : Inv { s with caller := out } := ⟨hi.loaded, hi.empty, hi.verified⟩
    exact hi'.read hc hp
  | field f a =>
    obtain ⟨hp, rfl⟩ := step_field h
    exact hi.mfgField hc hp

/-- **Exactly the clean calls expose verified data only.** In every sequence of calls, every call
that fails leaves the cache and the record of the caller as they were and every accessor gives the
field of a verified record or an empty string, if and only if no call finds the cache not loaded
and is given bytes that are no verified record and not those already there. -/
theorem exposed_iff (calls : List Call) (s : State) (hrun : run step .init calls = some s) :
    Meets step (fun s c => c.Law s) .init calls ↔ Meets step (fun s c => c.Clean s) .init calls :=
  meets_iff_of_invariant (P := fun s c => c.Law s) (Q := fun s c => c.Clean s) (I := Inv)
    (fun _ _ _ hi h => law_iff_clean hi h) (fun _ _ _ hi hc h => inv_step hi hc h) inv_init hrun

/-- A partition whose record is all right, read and then asked for the serial. -/
theorem exposed_twice :
    Meets step (fun s c => c.Law s) .init
      [.field .serial .noDevice, .read .zero (.got Record.zero.bytes), .field .serial .failed] := by
  have hrun : ∃ s, run step .init
      [.field .serial .noDevice, .read .zero (.got Record.zero.bytes), .field .serial .failed] =
      some s := Option.isSome_iff_exists.mp (by decide +kernel)
  obtain ⟨s, hs⟩ := hrun
  rw [exposed_iff _ s hs]
  decide +kernel

/-- The serial of a blank partition, read as all ones, is handed out unverified. -/
theorem blank_exposed :
    (mfgField .init .serial (.got (List.replicate recordSize 0xff))).1 = List.replicate 32 0xff ∧
      ¬ Meets step (fun s c => c.Law s) .init
        [.field .serial (.got (List.replicate recordSize 0xff))] := by
  refine ⟨by decide +kernel, ?_⟩
  rintro ⟨⟨hkeeps, -⟩, -⟩
  have hharmless := (keeps_iff rfl (by decide +kernel)).mp (hkeeps rfl)
  exact absurd hharmless (by decide +kernel)

end Mfg
end Persist
end BuildingBlocks
