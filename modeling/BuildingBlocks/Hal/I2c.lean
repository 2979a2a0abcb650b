import Mathlib.Algebra.Group.Nat.Defs
import Mathlib.Data.List.Basic
import Mathlib.Tactic.Common

/-!
# BuildingBlocks.Hal.I2c

The combined transfer of `hal/bb_hal_i2c.c`.

* `writeRead` is `bb_i2c_write_read`; `perform` is the `I2C_RDWR` ioctl, which does the messages it
  is given.
* `Combined` — a call that returns 0 has written all bytes and then read all bytes, in one
  transaction.
* `combined_iff` — exactly when: the lengths fit 16 bits, and a read comes with a write.
-/

namespace BuildingBlocks
namespace Hal
namespace I2c

/-! ## The code -/

/-- The buffer a message points to. -/
inductive Buf where
  | wbuf
  | rbuf
deriving DecidableEq, Repr

/-- `struct i2c_msg`. -/
structure Msg where
  addr : UInt16
  flags : UInt16
  len : UInt16
  buf : Buf
deriving DecidableEq, Repr

/-- `I2C_M_RD`. -/
def readFlag : UInt16 := 1

/-- A message on the bus, with the bytes that went over it. -/
inductive Transfer where
  | write (addr : UInt16) (bytes : List UInt8)
  | read (addr : UInt16) (bytes : List UInt8)
deriving DecidableEq, Repr

/-- What the slave sends, byte by byte, after some messages of the transaction. -/
abbrev Slave := List Transfer → Nat → UInt8

def Slave.bytes (slave : Slave) (done : List Transfer) (n : Nat) : List UInt8 :=
  (List.range n).map (slave done)

/-- The buffers of the caller. -/
structure Mem where
  wbuf : List UInt8
  rbuf : List UInt8
deriving DecidableEq, Repr

def Mem.get (mem : Mem) : Buf → List UInt8
  | .wbuf => mem.wbuf
  | .rbuf => mem.rbuf

/-- The front of a buffer is overwritten. -/
def Mem.store (mem : Mem) (buf : Buf) (bytes : List UInt8) : Mem :=
  match buf with
  | .wbuf => { mem with wbuf := bytes ++ mem.wbuf.drop bytes.length }
  | .rbuf => { mem with rbuf := bytes ++ mem.rbuf.drop bytes.length }

/-- `ioctl(fd, I2C_RDWR, &rdwr)`: the messages one after another; `done` is what went before. -/
def perform (slave : Slave) : List Msg → List Transfer → Mem → List Transfer × Mem
  | [], done, mem => (done, mem)
  | m :: msgs, done, mem =>
    if m.flags = readFlag then
      let bytes := slave.bytes done m.len.toNat
      perform slave msgs (done ++ [.read m.addr bytes]) (mem.store m.buf bytes)
    else
      perform slave msgs (done ++ [.write m.addr ((mem.get m.buf).take m.len.toNat)]) mem

/-- A call of `bb_i2c_write_read`; `wlen` and `rlen` are the lengths of the buffers, and `fails`
tells whether the ioctl returns an error. -/
structure Call where
  fd : Int
  addr : UInt8
  mem : Mem
  fails : Bool
deriving DecidableEq, Repr

def Call.wlen (c : Call) : Nat := c.mem.wbuf.length

def Call.rlen (c : Call) : Nat := c.mem.rbuf.length

/-- The return value, the transactions on the bus and the buffers after a call. -/
structure Outcome where
  ret : Int
  transactions : List (List Transfer)
  mem : Mem
deriving DecidableEq, Repr

/-- The array `msgs`; a length is narrowed to the 16 bits of the field. -/
def Call.msgs (c : Call) : List Msg :=
  [{ addr := c.addr.toUInt16, flags := 0, len := UInt16.ofNat c.wlen, buf := .wbuf },
    { addr := c.addr.toUInt16, flags := readFlag, len := UInt16.ofNat c.rlen, buf := .rbuf }]

def Call.nmsgs (c : Call) : Nat :=
  if 0 < c.wlen ∧ 0 < c.rlen then 2 else if 0 < c.wlen then 1 else if 0 < c.rlen then 1 else 0

/-- `bb_i2c_write_read`. -/
def writeRead (slave : Slave) (c : Call) : Outcome :=
  if c.fd < 0 then { ret := -1, transactions := [], mem := c.mem }
  else if c.nmsgs = 0 then { ret := 0, transactions := [], mem := c.mem }
  else if c.fails then { ret := -1, transactions := [], mem := c.mem }
  else
    let (done, mem) := perform slave (c.msgs.take c.nmsgs) [] c.mem
    { ret := 0, transactions := [done], mem := mem }

/-! ## The law -/

/-- The write that was asked for, if there is one. -/
def Call.writes (c : Call) : List Transfer :=
  if 0 < c.wlen then [.write c.addr.toUInt16 c.mem.wbuf] else []

/-- The bytes that were asked for. -/
def Call.answer (slave : Slave) (c : Call) : List UInt8 := slave.bytes c.writes c.rlen

def Call.reads (slave : Slave) (c : Call) : List Transfer :=
  if 0 < c.rlen then [.read c.addr.toUInt16 (c.answer slave)] else []

/-- A return of 0 means one transaction, with the messages that were asked for and no others (none
at all when there are none), and the answer of the slave in the buffer. -/
def Combined (slave : Slave) (c : Call) : Prop :=
  (writeRead slave c).ret = 0 →
    (writeRead slave c).transactions = [c.writes ++ c.reads slave].filter (fun t => !t.isEmpty) ∧
      (writeRead slave c).mem.rbuf = c.answer slave

/-- The lengths fit the 16 bits of a message, and nothing is read without a write. -/
def Expressible (c : Call) : Prop :=
  c.wlen < 2 ^ 16 ∧ c.rlen < 2 ^ 16 ∧ (c.wlen = 0 → c.rlen = 0)

instance (c : Call) : Decidable (Expressible c) := inferInstanceAs (Decidable (_ ∧ _ ∧ (_ → _)))

section Law

variable {slave : Slave} {c : Call}

theorem writeFlag_ne : (0 : UInt16) ≠ readFlag := by decide

theorem length_bytes (done : List Transfer) (n : Nat) : (slave.bytes done n).length = n := by
  rw [Slave.bytes, List.length_map, List.length_range]

/-- The write message takes the front of the buffer. -/
theorem perform_write (hw : 0 < c.wlen) (hr : c.rlen = 0) :
    perform slave (c.msgs.take c.nmsgs) [] c.mem =
      ([.write c.addr.toUInt16 (c.mem.wbuf.take (c.wlen % 2 ^ 16))], c.mem) := by
  have hn : c.nmsgs = 1 := by
    rw [Call.nmsgs, if_neg (by omega), if_pos hw]
  rw [hn, Call.msgs, List.take_succ_cons, List.take_zero, perform, if_neg writeFlag_ne, perform]
  rfl

/-- Without a write the first message of the array is still the write. -/
theorem perform_empty (hw : c.wlen = 0) (hr : 0 < c.rlen) :
    perform slave (c.msgs.take c.nmsgs) [] c.mem =
      ([.write c.addr.toUInt16 []], c.mem) := by
  have hn : c.nmsgs = 1 := by
    rw [Call.nmsgs, if_neg (by omega), if_neg (by omega), if_pos hr]
  have hnil : c.mem.wbuf = [] := List.length_eq_zero_iff.mp hw
  rw [hn, Call.msgs, List.take_succ_cons, List.take_zero, perform, if_neg writeFlag_ne, perform,
    Mem.get, hnil, List.take_nil, List.nil_append]

theorem perform_both (hw : 0 < c.wlen) (hr : 0 < c.rlen) :
    perform slave (c.msgs.take c.nmsgs) [] c.mem =
      (let sent := Transfer.write c.addr.toUInt16 (c.mem.wbuf.take (c.wlen % 2 ^ 16))
       let got := slave.bytes [sent] (c.rlen % 2 ^ 16)
       ([sent, .read c.addr.toUInt16 got], c.mem.store .rbuf got)) := by
  have hn : c.nmsgs = 2 := if_pos ⟨hw, hr⟩
  rw [hn, Call.msgs, List.take_succ_cons, List.take_succ_cons, List.take_zero, perform,
    if_neg writeFlag_ne, perform, if_pos rfl, perform]
  rfl

theorem take_mod_eq_self_iff {bytes : List UInt8} :
    bytes.take (bytes.length % 2 ^ 16) = bytes ↔ bytes.length < 2 ^ 16 := by
  constructor
  · intro h
    have hlen := congrArg List.length h
    rw [List.length_take] at hlen
    omega
  · intro h
    rw [Nat.mod_eq_of_lt h, List.take_length]

theorem writeRead_eq (hfd : ¬ c.fd < 0) (hfails : c.fails = false) (hn : c.nmsgs ≠ 0) :
    writeRead slave c =
      { ret := 0, transactions := [(perform slave (c.msgs.take c.nmsgs) [] c.mem).1],
        mem := (perform slave (c.msgs.take c.nmsgs) [] c.mem).2 } := by
  rw [writeRead, if_neg hfd, if_neg hn, if_neg (by simp [hfails])]

theorem combined_fails (hfails : c.fails = true) (hn : 0 < c.wlen ∨ 0 < c.rlen) :
    Combined slave c := by
  intro hret
  have hmsgs : c.nmsgs ≠ 0 := by
    rw [Call.nmsgs]
    split_ifs <;> omega
  unfold writeRead at hret
  rw [if_neg hmsgs, if_pos hfails] at hret
  split_ifs at hret
  · cases hret
  · cases hret

theorem writes_of_pos (hw : 0 < c.wlen) : c.writes = [.write c.addr.toUInt16 c.mem.wbuf] :=
  if_pos hw

theorem reads_of_zero (hr : c.rlen = 0) : c.reads slave = [] := if_neg (by omega)

theorem reads_of_pos (hr : 0 < c.rlen) :
    c.reads slave = [.read c.addr.toUInt16 (c.answer slave)] := if_pos hr

theorem answer_of_zero (hr : c.rlen = 0) : c.answer slave = [] := by
  rw [Call.answer, hr]
  rfl

theorem rbuf_of_zero (hr : c.rlen = 0) : c.mem.rbuf = [] := List.length_eq_zero_iff.mp hr

theorem combined_empty (hw : c.wlen = 0) (hr : c.rlen = 0) : Combined slave c := by
  intro hret
  have hn : c.nmsgs = 0 := by
    rw [Call.nmsgs, if_neg (by omega), if_neg (by omega), if_neg (by omega)]
  have hwrites : c.writes = [] := if_neg (by omega)
  rw [hwrites, reads_of_zero hr, answer_of_zero hr]
  unfold writeRead at hret ⊢
  split_ifs at hret ⊢ with hfd
  · cases hret
  · exact ⟨rfl, rbuf_of_zero hr⟩

theorem combined_write_iff (hfd : ¬ c.fd < 0) (hfails : c.fails = false) (hw : 0 < c.wlen)
    (hr : c.rlen = 0) : Combined slave c ↔ c.wlen < 2 ^ 16 := by
  have hn : c.nmsgs ≠ 0 := by
    rw [Call.nmsgs, if_neg (by omega), if_pos hw]
    exact Nat.one_ne_zero
  rw [Combined, writeRead_eq hfd hfails hn, perform_write hw hr, writes_of_pos hw, reads_of_zero hr,
    answer_of_zero hr, rbuf_of_zero hr]
  refine Iff.trans ?_ (@take_mod_eq_self_iff c.mem.wbuf)
  simp [Call.wlen]

/-- The empty write is sent instead of the read. -/
theorem not_combined_read (hfd : ¬ c.fd < 0) (hfails : c.fails = false) (hw : c.wlen = 0)
    (hr : 0 < c.rlen) : ¬ Combined slave c := by
  intro h
  have hn : c.nmsgs ≠ 0 := by
    rw [Call.nmsgs, if_neg (by omega), if_neg (by omega), if_pos hr]
    exact Nat.one_ne_zero
  have hwrites : c.writes = [] := if_neg (by omega)
  rw [Combined, writeRead_eq hfd hfails hn, perform_empty hw hr, hwrites, reads_of_pos hr] at h
  have htransfers := (h rfl).1
  simp at htransfers

theorem combined_both_iff (hfd : ¬ c.fd < 0) (hfails : c.fails = false) (hw : 0 < c.wlen)
    (hr : 0 < c.rlen) : Combined slave c ↔ c.wlen < 2 ^ 16 ∧ c.rlen < 2 ^ 16 := by
  have hn : c.nmsgs ≠ 0 := by
    rw [Call.nmsgs, if_pos ⟨hw, hr⟩]
    exact Nat.succ_ne_zero 1
  have hwhole : c.mem.wbuf.take (c.wlen % 2 ^ 16) = c.mem.wbuf ↔ c.wlen < 2 ^ 16 :=
    take_mod_eq_self_iff
  rw [Combined, writeRead_eq hfd hfails hn, perform_both hw hr, reads_of_pos hr, Call.answer,
    writes_of_pos hw]
  constructor
  · intro h
    have htransfers := (h rfl).1
    simp only [List.singleton_append, List.filter_cons, List.isEmpty_cons, Bool.not_false, if_true,
      List.filter_nil, List.cons.injEq, Transfer.write.injEq, true_and, and_true,
      Transfer.read.injEq] at htransfers
    obtain ⟨hwrite, hread⟩ := htransfers
    have hlen := congrArg List.length hread
    rw [length_bytes, length_bytes] at hlen
    exact ⟨hwhole.mp hwrite, by omega⟩
  · rintro ⟨hwlen, hrlen⟩ -
    have hdrop : c.mem.rbuf.drop c.rlen = [] := List.drop_length
    rw [Nat.mod_eq_of_lt hrlen, hwhole.mpr hwlen]
    refine ⟨rfl, ?_⟩
    simp only [Mem.store, length_bytes, hdrop, List.append_nil]

end Law

/-- **A combined transfer does what was asked for exactly when** the bus is not open, the ioctl
fails, or the lengths fit 16 bits and a read comes with a write. -/
theorem combined_iff (slave : Slave) (c : Call) :
    Combined slave c ↔ c.fd < 0 ∨ c.fails = true ∨ Expressible c := by
  by_cases hfd : c.fd < 0
  · refine iff_of_true (fun hret => ?_) (Or.inl hfd)
    rw [writeRead, if_pos hfd] at hret
    cases hret
  · rw [or_iff_right hfd, Expressible]
    rcases Nat.eq_zero_or_pos c.wlen with hw | hw <;>
      rcases Nat.eq_zero_or_pos c.rlen with hr | hr
    · exact iff_of_true (combined_empty hw hr) (Or.inr (by omega))
    · cases hfails : c.fails with
      | true => exact iff_of_true (combined_fails hfails (by omega)) (Or.inl rfl)
      | false => exact iff_of_false (not_combined_read hfd hfails hw hr) (by simp; omega)
    · cases hfails : c.fails with
      | true => exact iff_of_true (combined_fails hfails (by omega)) (Or.inl rfl)
      | false =>
        rw [combined_write_iff hfd hfails hw hr]
        simp only [Bool.false_eq_true, false_or]
        omega
    · cases hfails : c.fails with
      | true => exact iff_of_true (combined_fails hfails (by omega)) (Or.inl rfl)
      | false =>
        rw [combined_both_iff hfd hfails hw hr]
        simp only [Bool.false_eq_true, false_or]
        omega

/-- Reading one byte without a write. -/
def readOne : Call :=
  { fd := 3, addr := 0x50, mem := { wbuf := [], rbuf := [0] }, fails := false }

/-- An empty write goes over the bus, the buffer is not filled, and the call returns 0. -/
theorem readOne_sends_write :
    ¬ Combined (fun _ _ => 0x7f) readOne ∧
      writeRead (fun _ _ => 0x7f) readOne =
        { ret := 0, transactions := [[.write 0x50 []]], mem := { wbuf := [], rbuf := [0] } } := by
  refine ⟨fun h => ?_, by decide⟩
  obtain ⟨htransfers, -⟩ := h (by decide)
  exact absurd htransfers (by decide)

end I2c
end Hal
end BuildingBlocks
