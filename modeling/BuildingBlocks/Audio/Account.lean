import BuildingBlocks.Audio.Sentinel

/-!
# BuildingBlocks.Audio.Account

Where every period of a stream goes that is read and written in whole periods, without a codec.

* `inFlight` counts the periods the threads and the pools have.
* `Ledger`: so many periods were played, so many dropped, and these with the periods in flight are
  all that were read. A counter that is updated before or after the operation it counts is off by
  one in between (`ahead`, `behind`).
* `periods_balance` — the equation, wherever no counter is off.
-/

namespace BuildingBlocks
namespace Audio

open Pool Lib

/-- Read and not yet committed. -/
def heldByCapture : CapPc → Nat
  | .count _ | .commit => 1
  | .off | .top | .acquire | .full | .discard | .read | .release _ | .fail | .done => 0

section Held

variable {N : Nat}

/-- A frame that is filled is the second pool's once it is marked. -/
def heldByCodec (codec : CodecPc) (prod : MpProdPc N) : Nat :=
  match codec with
  | .acquire _ | .full _ | .fullRelease _ | .encode _ | .release _ => 1
  | .enqueue => if ∃ i, prod = .owns i then 1 else 0
  | .off | .top | .dequeue | .drain | .drainRelease _ | .post _ | .sentinel | .sentinelEnqueue
  | .done => 0

/-- Taken from the second pool and not yet written. -/
def takenByPlayback (pb : PbPc) (cons : MpConsPc N) : Nat :=
  match pb with
  | .dequeue => if cons.taken.isSome then 1 else 0
  | .test | .write => 1
  | _ => 0

end Held

/-- `drop_frames` is counted, the period not yet read. -/
def aheadCap : CapPc → Nat
  | .discard => 1
  | _ => 0

/-- `drop_frames` is counted, the period not yet given back. -/
def aheadCodec : CodecPc → Nat
  | .fullRelease _ => 1
  | _ => 0

/-- The period is written, `pb_frames` not yet counted. -/
def behind : PbPc → Nat
  | .stat _ => 1
  | _ => 0

/-- The capture device has the format the stream was asked for. -/
structure Matches (c : Setup) (dev : Device) : Prop where
  channels : dev.channels = c.cfg.channels
  fmt : dev.fmt = c.cfg.fmt

/-- The kernel gave `bb_audio_read` all it asked for, a period. -/
def Whole (c : Setup) (dev : Device) (r : Read) : Prop :=
  r.n = c.periodFrames.toNat ∧ r.n = audioRead dev (dev.bytesOf c.periodFrames)

instance (c : Setup) (dev : Device) : DecidablePred (Whole c dev) :=
  fun _ => inferInstanceAs (Decidable (_ ∧ _))

namespace Pipeline

variable {N : Nat} {c : Setup} {dev : Device} {s s' : Pipeline N}

/-- The periods in flight: with the capture thread, queued in the first pool, with the codec thread,
ready in the second pool, with the playback thread. -/
def inFlight (s : Pipeline N) : Nat :=
  heldByCapture s.cap + (s.sp.committed.length - s.sp.delivered.length) +
    heldByCodec s.codec (s.mp.prod ()) + tally s.mp.Ready + takenByPlayback s.pb s.mp.cons

/-- Where `drop_frames` is counted before the period is read, or given back. -/
def ahead (s : Pipeline N) : Nat := aheadCap s.cap + aheadCodec s.codec

/-- `x` periods were played and `y` dropped. -/
structure Ledger (c : Setup) (s : Pipeline N) (x y : Nat) : Prop where
  played : s.pbFrames = UInt32.ofNat (c.periodFrames.toNat * x)
  dropped : s.dropFrames = UInt32.ofNat (c.periodFrames.toNat * y)
  books : s.reads + ahead s = x + y + inFlight s + behind s.pb

/-- One start, no stop, and whole periods read and written. -/
def Steady (c : Setup) (dev : Device) (s : Pipeline N) : Act → Prop
  | .start => s.main = .idle
  | .spawn rc => rc = 0
  | .stop => False
  | .cap r => Whole c dev r
  | .pb w => w = c.periodFrames.toNat
  | .codec _ | .join => True

instance (c : Setup) (dev : Device) (s : Pipeline N) : DecidablePred (Steady c dev s)
  | .start => inferInstanceAs (Decidable (s.main = .idle))
  | .spawn rc => inferInstanceAs (Decidable (rc = 0))
  | .stop => .isFalse id
  | .cap r => inferInstanceAs (Decidable (Whole c dev r))
  | .pb w => inferInstanceAs (Decidable (w = c.periodFrames.toNat))
  | .codec _ | .join => .isTrue trivial

/-- Every frame of the first pool that was filled has bytes. -/
structure Full (s : Pipeline N) : Prop where
  committed : ∀ e ∈ s.sp.committed, e.2.size ≠ 0
  delivered : ∀ e ∈ s.sp.delivered, e.2.size ≠ 0
  owned : heldByCapture s.cap = 1 → ∀ idx, s.sp.prod = .owns idx →
    (s.sp.frames idx).body.size ≠ 0

structure Calm (c : Setup) (s : Pipeline N) : Prop where
  size : SizeOk s
  sp : Spsc.Inv N s.sp
  running : s.main = .idle ∨ s.running = true
  idle : s.main = .idle → s.sp.committed = [] ∧ s.mp.enqueued = []
  full : Full s
  stat : ∀ n, s.pb = .stat n → n = c.periodFrames
  ledger : ∃ x y, Ledger c s x y

theorem ofNat_period (c : Setup) (x : Nat) :
    UInt32.ofNat (c.periodFrames.toNat * x) + c.periodFrames =
      UInt32.ofNat (c.periodFrames.toNat * (x + 1)) := by
  rw [Nat.mul_succ, UInt32.ofNat_add, UInt32.ofNat_toNat]

theorem ofNat_read (c : Setup) :
    UInt32.ofNat (c.periodFrames.toNat : Int).toNat = c.periodFrames := by
  rw [Int.toNat_natCast, UInt32.ofNat_toNat]

/-- A period that was read has bytes, also where sizes wrap around. -/
theorem Whole.size_ne_zero {r : Read} (hdev : Matches c dev) (hperiod : c.periodFrames ≠ 0)
    (hr : Whole c dev r) :
    (framesToBytes (UInt32.ofNat r.n.toNat) c.cfg.channels c.cfg.fmt).toNat ≠ 0 := by
  obtain ⟨hn, hbytes⟩ := hr
  rw [hn, ofNat_read]
  intro hzero
  have hnone : dev.bytesOf c.periodFrames = 0 := by
    rw [Device.bytesOf, hdev.channels, hdev.fmt]
    exact UInt32.toNat_inj.mp hzero
  have hread : r.n = 0 := by
    rw [hbytes, hnone, audioRead, UInt32.zero_div]
    simp [toInt32]
  rw [hn] at hread
  exact hperiod (UInt32.toNat_inj.mp (by simpa using hread))

/-! ## The capture thread -/

theorem capStep_ledger {r : Read} {x y : Nat} (hr : Steady c dev s (.cap r)) (hl : Ledger c s x y)
    (hle : s.sp.delivered.length ≤ s.sp.committed.length) (h : capStep c s r = some s') :
    ∃ y', Ledger c s' x y' := by
  obtain ⟨hplayed, hdropped, hbooks⟩ := hl
  have hn : r.n = c.periodFrames.toNat := hr.1
  cases hpc : s.cap <;> simp only [capStep, hpc, Option.map_eq_some_iff, reduceCtorEq] at h <;>
    simp only [ahead, inFlight, hpc, aheadCap, heldByCapture] at hbooks
  case top =>
    cases h
    refine ⟨y, hplayed, hdropped, ?_⟩
    simp only [ahead, inFlight]
    split <;> simp only [aheadCap, heldByCapture] <;> omega
  case acquire =>
    obtain ⟨sp, hsp, rfl⟩ := h
    refine ⟨y, hplayed, hdropped, ?_⟩
    rcases Spsc.acquire_cases hsp with ⟨-, rfl⟩ | ⟨w, -, rfl⟩ | ⟨w, -, rfl⟩ |
        ⟨idx, -, -, rfl⟩ | ⟨idx, -, rfl⟩ <;>
      simp only [ahead, inFlight, aheadCap, Spsc.acquireCall, heldByCapture] <;> omega
  case full =>
    cases h
    refine ⟨y + 1, hplayed, ?_, ?_⟩
    · simp only [hdropped, ofNat_period]
    · simp only [ahead, inFlight, aheadCap, heldByCapture]
      omega
  case discard =>
    have hpipe : ¬ (r.n = epipe ∧ s.capXrun + 1 > 10) := by
      rintro ⟨hr, -⟩
      rw [hn, epipe] at hr
      omega
    rw [if_neg hpipe] at h
    cases h
    refine ⟨y, hplayed, hdropped, ?_⟩
    have hpos : 0 ≤ r.n := by omega
    simp only [ahead, inFlight, aheadCap, heldByCapture, if_pos hpos]
    omega
  case read =>
    have hpos : ¬ r.n < 0 := by omega
    rw [if_neg hpos] at h
    split at h
    · obtain ⟨sp, hsp, rfl⟩ := Option.map_eq_some_iff.mp h
      obtain ⟨idx, -, rfl⟩ := Spsc.fill_eq_some hsp
      refine ⟨y, hplayed, hdropped, ?_⟩
      simp only [ahead, inFlight, aheadCap, heldByCapture]
      omega
    · cases h
  case count =>
    cases h
    refine ⟨y, hplayed, hdropped, ?_⟩
    simp only [ahead, inFlight, aheadCap, heldByCapture]
    omega
  case commit =>
    obtain ⟨sp, hsp, rfl⟩ := h
    obtain ⟨idx, -, rfl⟩ := Spsc.commit_eq_some hsp
    refine ⟨y, hplayed, hdropped, ?_⟩
    simp only [ahead, inFlight, aheadCap, heldByCapture, List.length_append, List.length_singleton]
    omega
  case release n =>
    obtain ⟨sp, hsp, rfl⟩ := h
    obtain ⟨idx, -, rfl⟩ := Spsc.abandon_eq_some hsp
    split
    · refine ⟨y, hplayed, hdropped, ?_⟩
      simp only [ahead, inFlight]
      split <;> simp only [aheadCap, heldByCapture] <;> omega
    · refine ⟨y, hplayed, hdropped, ?_⟩
      simp only [ahead, inFlight, aheadCap, heldByCapture]
      omega
  case fail =>
    cases h
    refine ⟨y, hplayed, hdropped, ?_⟩
    simp only [ahead, inFlight, aheadCap, heldByCapture]
    omega

/-- A thread that leaves what was committed and what it filled alone. -/
theorem Full.congr (hi : Full s) (hc : s'.sp.committed = s.sp.committed)
    (hd : s'.sp.delivered = s.sp.delivered)
    (ho : heldByCapture s'.cap = 1 → heldByCapture s.cap = 1 ∧
      ∀ idx, s'.sp.prod = .owns idx → s.sp.prod = .owns idx ∧
        (s'.sp.frames idx).body = (s.sp.frames idx).body) : Full s' where
  committed := by
    rw [hc]
    exact hi.committed
  delivered := by
    rw [hd]
    exact hi.delivered
  owned := by
    intro hheld idx hown
    obtain ⟨hheld', hframe⟩ := ho hheld
    obtain ⟨hown', hbody⟩ := hframe idx hown
    rw [hbody]
    exact hi.owned hheld' idx hown'

theorem capStep_full {r : Read} (hsize : (framesToBytes (UInt32.ofNat r.n.toNat) c.cfg.channels
    c.cfg.fmt).toNat ≠ 0) (hi : Full s) (h : capStep c s r = some s') : Full s' := by
  cases hpc : s.cap <;> simp only [capStep, hpc, Option.map_eq_some_iff, reduceCtorEq] at h
  case top =>
    cases h
    refine hi.congr rfl rfl ?_
    simp only
    split <;> simp [heldByCapture]
  case acquire =>
    obtain ⟨sp, hsp, rfl⟩ := h
    rcases Spsc.acquire_cases hsp with ⟨-, rfl⟩ | ⟨w, -, rfl⟩ | ⟨w, -, rfl⟩ |
        ⟨idx, -, -, rfl⟩ | ⟨idx, -, rfl⟩ <;>
      exact hi.congr rfl rfl (by simp [Spsc.acquireCall, heldByCapture])
  case full =>
    cases h
    exact hi.congr rfl rfl (by simp [heldByCapture])
  case discard => split at h <;> cases h <;> exact hi.congr rfl rfl (by simp [heldByCapture])
  case read =>
    split at h
    · cases h
      exact hi.congr rfl rfl (by simp [heldByCapture])
    · split at h
      · obtain ⟨sp, hsp, rfl⟩ := Option.map_eq_some_iff.mp h
        obtain ⟨idx, hown, rfl⟩ := Spsc.fill_eq_some hsp
        refine ⟨hi.committed, hi.delivered, ?_⟩
        intro _ idx' hown'
        obtain rfl : idx = idx' := by simpa [hown] using hown'
        simpa only [setBody, Function.update_self] using hsize
      · cases h
  case count n =>
    cases h
    refine hi.congr rfl rfl ?_
    intro _
    exact ⟨by rw [hpc]; rfl, fun idx hown => ⟨hown, rfl⟩⟩
  case commit =>
    obtain ⟨sp, hsp, rfl⟩ := h
    obtain ⟨idx, hown, rfl⟩ := Spsc.commit_eq_some hsp
    refine ⟨?_, hi.delivered, by simp⟩
    intro e he
    rcases List.mem_append.mp he with hold | hnew
    · exact hi.committed e hold
    · obtain rfl := List.mem_singleton.mp hnew
      exact hi.owned (by rw [hpc]; rfl) idx hown
  case release n =>
    obtain ⟨sp, hsp, rfl⟩ := h
    obtain ⟨idx, -, rfl⟩ := Spsc.abandon_eq_some hsp
    split
    · refine hi.congr rfl rfl ?_
      simp only
      split <;> simp [heldByCapture]
    · exact hi.congr rfl rfl (by simp [heldByCapture])
  case fail =>
    cases h
    exact hi.congr rfl rfl (by simp [heldByCapture])

/-! ## The codec thread -/

/-- What the codec thread takes is a period. -/
theorem codecStep_full {e : Encode} (hsp : Spsc.Inv N s.sp) (hi : Full s)
    (h : codecStep c s e = some s') : Full s' := by
  have hcap : s'.cap = s.cap := by
    obtain ⟨sp, mp, codec, drop, rfl⟩ := codecStep_frame h
    rfl
  have hbody : s'.sp.committed = s.sp.committed ∧ s'.sp.prod = s.sp.prod ∧
      (∀ i, (s'.sp.frames i).body = (s.sp.frames i).body) ∧
      ∀ e ∈ s'.sp.delivered, e ∈ s.sp.delivered ∨ e ∈ s.sp.committed := by
    rcases codecStep_sp h with hsame | hstep | ⟨f, hstep⟩
    · rw [hsame]
      exact ⟨rfl, rfl, fun _ => rfl, fun e he => .inl he⟩
    · have hcons := hsp.cons
      rcases Spsc.dequeue_cases hstep with ⟨-, hsp'⟩ | ⟨w, n, -, -, hsp'⟩ | ⟨w, n, -, -, hsp'⟩ |
        ⟨idx, n, -, -, hsp'⟩ | ⟨idx, n, -, hsp'⟩ | ⟨idx, hcons', hsp'⟩ <;> rw [hsp']
      case inr.inr.inr.inr.inr =>
        rw [Spsc.ConsOk, hcons'] at hcons
        obtain ⟨hidx, hin⟩ := hcons
        obtain ⟨hcom, -⟩ := hsp.queue _ hin
        refine ⟨rfl, rfl, fun _ => rfl, ?_⟩
        intro e he
        rcases List.mem_append.mp he with hold | hnew
        · exact .inl hold
        · obtain rfl := List.mem_singleton.mp hnew
          rw [hidx]
          exact .inr (List.mem_of_getElem? hcom)
      all_goals exact ⟨rfl, rfl, fun _ => rfl, fun e he => .inl he⟩
    · obtain ⟨-, -, hsp'⟩ := Spsc.release_eq_some hstep
      rw [hsp']
      exact ⟨rfl, rfl, fun _ => setRef_body _, fun e he => .inl he⟩
  obtain ⟨hcom, hprod, hframe, hdel⟩ := hbody
  refine ⟨?_, ?_, ?_⟩
  · rw [hcom]
    exact hi.committed
  · intro e he
    rcases hdel e he with hold | hnew
    · exact hi.delivered e hold
    · exact hi.committed e hnew
  · rw [hcap, hprod]
    intro hheld idx hown
    rw [hframe idx]
    exact hi.owned hheld idx hown

theorem codecStep_ledger {e : Encode} {x y : Nat} (hi : Aligned s) (hmp' : Mpsc.MInv s'.mp)
    (hsp : Spsc.Inv N s.sp) (hrun : s.running = true) (hl : Ledger c s x y)
    (h : codecStep c s e = some s') : ∃ y', Ledger c s' x y' := by
  obtain ⟨hplayed, hdropped, hbooks⟩ := hl
  have hcount := hi.mp.count.enqueued
  have hcount' := hmp'.count.enqueued
  have hle := hsp.le
  cases hpc : s.codec <;> simp only [codecStep, hpc, Option.map_eq_some_iff, reduceCtorEq] at h <;>
    simp only [ahead, inFlight, hpc, aheadCodec, heldByCodec] at hbooks
  case top =>
    cases h
    refine ⟨y, hplayed, hdropped, ?_⟩
    simp only [ahead, inFlight, hrun, if_true, aheadCodec, heldByCodec]
    omega
  case dequeue =>
    obtain ⟨sp, hstep, rfl⟩ := h
    refine ⟨y, hplayed, hdropped, ?_⟩
    have hcons := hsp.cons
    rcases Spsc.dequeue_cases hstep with ⟨hcons', rfl⟩ | ⟨w, n, hcons', -, rfl⟩ |
      ⟨w, n, hcons', -, rfl⟩ | ⟨idx, n, hcons', -, rfl⟩ | ⟨idx, n, hcons', rfl⟩ |
      ⟨idx, hcons', rfl⟩
    case inr.inr.inr.inr.inr =>
      rw [Spsc.ConsOk, hcons'] at hcons
      have hlt := hcons.2.2
      simp only [ahead, inFlight, Spsc.dequeueCall, hcons', aheadCodec, heldByCodec,
        List.length_append, List.length_singleton]
      omega
    all_goals
      simp only [ahead, inFlight, Spsc.dequeueCall, hcons', aheadCodec, heldByCodec]
      omega
  case full f =>
    cases h
    refine ⟨y + 1, hplayed, ?_, ?_⟩
    · simp only [hdropped, ofNat_period]
    · simp only [ahead, inFlight, aheadCodec, heldByCodec]
      omega
  case fullRelease f =>
    obtain ⟨sp, hstep, rfl⟩ := h
    obtain ⟨-, -, rfl⟩ := Spsc.release_eq_some hstep
    refine ⟨y, hplayed, hdropped, ?_⟩
    simp only [ahead, inFlight, aheadCodec, heldByCodec]
    omega
  case release f =>
    obtain ⟨sp, hstep, rfl⟩ := h
    obtain ⟨-, -, rfl⟩ := Spsc.release_eq_some hstep
    obtain ⟨i, hown⟩ : ∃ i, s.mp.prod () = .owns i := by
      have hmp := hi.codecMp
      rwa [hpc] at hmp
    refine ⟨y, hplayed, hdropped, ?_⟩
    simp only [ahead, inFlight, aheadCodec, heldByCodec]
    rw [if_pos ⟨i, hown⟩]
    omega
  case encode f =>
    split at h
    · obtain ⟨mp, hstep, rfl⟩ := Option.map_eq_some_iff.mp h
      obtain ⟨j, -, rfl⟩ := Mpsc.fill_eq_some hstep
      refine ⟨y, hplayed, hdropped, ?_⟩
      simp only [ahead, inFlight, aheadCodec, heldByCodec] at hcount' ⊢
      omega
    · cases h
  case acquire f =>
    obtain ⟨mp, hstep, rfl⟩ := h
    refine ⟨y, hplayed, hdropped, ?_⟩
    rcases Mpsc.acquire_cases hstep with ⟨-, rfl⟩ | ⟨i, -, -, rfl⟩ | ⟨i, -, -, rfl⟩ |
        ⟨i, -, -, rfl⟩ <;>
      simp only [ahead, inFlight, Mpsc.setProd, Function.update_self, Mpsc.acquireCall,
        aheadCodec, heldByCodec] at hcount' ⊢ <;>
      omega
  case enqueue =>
    obtain ⟨mp, hstep, rfl⟩ := h
    refine ⟨y, hplayed, hdropped, ?_⟩
    rcases Mpsc.enqueue_cases hstep with ⟨i, hown, rfl⟩ | ⟨hprod, -, rfl⟩ | ⟨hprod, rfl⟩ |
      ⟨hprod, rfl⟩ | ⟨hprod, rfl⟩
    case inl =>
      rw [if_pos ⟨i, hown⟩] at hbooks
      simp only [ahead, inFlight, Mpsc.marked, Mpsc.setProd, Function.update_self,
        Mpsc.enqueueCall, aheadCodec, heldByCodec, List.length_append,
        List.length_singleton] at hcount' ⊢
      rw [if_neg (by simp)]
      omega
    all_goals
      rw [if_neg (by simp [hprod])] at hbooks
      simp only [ahead, inFlight, Mpsc.setProd, Function.update_self, Mpsc.enqueueCall,
        aheadCodec, heldByCodec] at hcount' ⊢
      first
        | omega
        | rw [if_neg (by simp)]; omega
  case drain | drainRelease | post | sentinel | sentinelEnqueue =>
    have hstop := hi.left (by rw [hpc]; rfl)
    rw [hrun] at hstop
    cases hstop

/-! ## The playback thread -/

theorem pbStep_ledger {w : Int} {x y : Nat} (hi : Aligned s) (hmp' : Mpsc.MInv s'.mp)
    (hsurvives : Survives s') (hstat : ∀ n, s.pb = .stat n → n = c.periodFrames)
    (hrun : s.running = true) (hw : Steady c dev s (.pb w)) (hl : Ledger c s x y)
    (h : pbStep c s w = some s') : ∃ x', Ledger c s' x' y := by
  obtain ⟨hplayed, hdropped, hbooks⟩ := hl
  have hw' : w = c.periodFrames.toNat := hw
  have hcount := hi.mp.count.enqueued
  have hcount' := hmp'.count.enqueued
  have hpb := hi.pb
  cases hpc : s.pb <;> simp only [pbStep, hpc, Option.map_eq_some_iff, reduceCtorEq] at h <;>
    simp only [ahead, inFlight, hpc, behind, takenByPlayback] at hbooks <;> rw [hpc] at hpb
  case top =>
    cases h
    have hidle : s.mp.cons = .idle := hpb
    refine ⟨x, hplayed, hdropped, ?_⟩
    simp only [ahead, inFlight, hrun, if_true, behind, takenByPlayback, hidle, taken_idle,
      Option.isSome_none, Bool.false_eq_true, if_false]
    omega
  case dequeue =>
    obtain ⟨mp, hstep, rfl⟩ := h
    refine ⟨x, hplayed, hdropped, ?_⟩
    rcases Mpsc.dequeue_cases hi.mp hstep with ⟨hcons, -, rfl⟩ | ⟨hcons, -, rfl⟩ |
        ⟨hcons, -, rfl⟩ | ⟨hcons, -, rfl⟩ | ⟨i, hcons, -, rfl⟩ | ⟨i, hcons, -, rfl⟩ |
        ⟨i, hcons, rfl⟩ | ⟨i, hcons, rfl⟩ <;>
      simp only [hcons, MpConsPc.taken, Option.isSome_none, Option.isSome_some,
        Bool.false_eq_true, if_true, if_false] at hbooks <;>
      simp only [ahead, inFlight, Mpsc.dequeueCall, Mpsc.takenOut, behind, takenByPlayback,
        MpConsPc.taken, Option.isSome_none, Option.isSome_some, Bool.false_eq_true, if_true,
        if_false, List.length_append, List.length_singleton] at hcount' ⊢ <;>
      omega
  case test =>
    split at h <;> cases h
    rename_i i hcons
    by_cases hzero : (s.mp.frames i).body.size = 0
    · have hfatal := hsurvives.fatal hrun .sentinel (.inl (by simp only [if_pos hzero]))
      cases hfatal
    · refine ⟨x, hplayed, hdropped, ?_⟩
      simp only [ahead, inFlight, if_neg hzero, behind, takenByPlayback]
      omega
  case write =>
    have hpos : ¬ w < 0 := by omega
    split at h
    · rw [if_neg hpos] at h
      split at h <;> cases h
      refine ⟨x, hplayed, hdropped, ?_⟩
      simp only [ahead, inFlight, behind, takenByPlayback]
      omega
    · cases h
  case stat n =>
    cases h
    obtain rfl := hstat n hpc
    refine ⟨x + 1, ?_, hdropped, ?_⟩
    · simp only [hplayed, ofNat_period]
    · simp only [ahead, inFlight, behind, takenByPlayback]
      omega
  case release | leave =>
    obtain ⟨mp, hstep, rfl⟩ := h
    obtain ⟨i, hcons, rfl⟩ := Mpsc.release_eq_some hstep
    refine ⟨x, hplayed, hdropped, ?_⟩
    simp only [ahead, inFlight, behind, takenByPlayback] at hcount' ⊢
    omega

/-- What is written is a period. -/
theorem pbStep_stat {w : Int} (hw : Steady c dev s (.pb w)) (h : pbStep c s w = some s')
    (n : UInt32) (hpb : s'.pb = .stat n) : n = c.periodFrames := by
  have hw' : w = c.periodFrames.toNat := hw
  cases hpc : s.pb <;> simp only [pbStep, hpc, Option.map_eq_some_iff, reduceCtorEq] at h
  case top =>
    cases h
    simp only at hpb
    split at hpb <;> cases hpb
  case dequeue =>
    obtain ⟨mp, -, rfl⟩ := h
    simp only at hpb
    split at hpb <;> cases hpb
  case test =>
    split at h <;> cases h
    simp only at hpb
    split at hpb <;> cases hpb
  case write =>
    have hpos : ¬ w < 0 := by omega
    split at h
    · rw [if_neg hpos] at h
      split at h <;> cases h
      cases hpb
      rw [hw', ofNat_read]
    · cases h
  case stat =>
    cases h
    cases hpb
  case release | leave =>
    obtain ⟨mp, -, rfl⟩ := h
    cases hpb

/-! ## All threads -/

/-- The threads run only after a start, and there is no stop. -/
theorem Calm.running_of {t : Pipeline N} (hi : Calm c t)
    (h : ¬ CapEnded t.cap ∨ ¬ CodecEnded t.codec ∨ ¬ PbEnded t.pb) : t.running = true := by
  rcases hi.running with hidle | hrun
  · have hm := hi.size.aligned.main
    unfold MainOk at hm
    rw [hidle] at hm
    obtain ⟨-, hcap, hcodec, hpb⟩ := hm
    rcases h with hne | hne | hne
    · exact absurd hcap hne
    · exact absurd hcodec hne
    · exact absurd hpb hne
  · exact hrun

/-- Before the start there is nothing in either pool. -/
theorem Calm.none_ready (hi : Calm c s) (hidle : s.main = .idle) (i : Fin N) : ¬ s.mp.Ready i := by
  intro hready
  obtain ⟨p, hp⟩ := hi.size.aligned.mp.tok.ready i hready
  rw [(hi.idle hidle).2] at hp
  cases hp

/-- A steady stream fills no empty frame. -/
theorem Calm.kept {a : Act} (hcodec : c.hasCodec = false) (hi : Calm c s)
    (ha : Steady c dev s a) : Kept c s a := by
  cases a with
  | codec e =>
    intro f hf
    have hheld : f ∈ s.sp.held := by
      have hsp := hi.size.aligned.codecSp
      cases hpc : s.codec <;> rw [hpc] at hf hsp <;> cases hf
      rw [hsp.2]
      exact List.mem_singleton_self _
    rw [NotEmpty, if_neg (by simp [hcodec])]
    exact hi.full.delivered _ (hi.sp.held f hheld).2.1
  | start =>
    intro i hready
    have hidle : s.main = .idle := ha
    have hm := hi.size.aligned.main
    unfold MainOk at hm
    rw [hidle] at hm
    have hcons := hi.size.aligned.ended.2.2 hm.2.2.2
    exact absurd ⟨hready, by rw [hcons]; simp⟩ (hi.none_ready hidle i)
  | _ => trivial

/-- A step that moves no period. -/
theorem Ledger.congr {x y : Nat} (hl : Ledger c s x y) (hplayed : s'.pbFrames = s.pbFrames)
    (hdropped : s'.dropFrames = s.dropFrames) (hreads : s'.reads = s.reads)
    (hahead : ahead s' = ahead s) (hflight : inFlight s' = inFlight s)
    (hbehind : behind s'.pb = behind s.pb) : Ledger c s' x y where
  played := by
    rw [hplayed]
    exact hl.played
  dropped := by
    rw [hdropped]
    exact hl.dropped
  books := by
    rw [hreads, hahead, hflight, hbehind]
    exact hl.books

/-- While the stream runs it is not idle. -/
theorem Aligned.not_idle (hi : Aligned s) (hrun : s.running = true) : s.main ≠ .idle := by
  intro hidle
  have hm := hi.main
  unfold MainOk at hm
  rw [hidle, hrun] at hm
  cases hm.1

theorem startStores_ledger (hi : Calm c s) (hidle : s.main = .idle) :
    Ledger c s.startStores 0 0 where
  played := by simp [startStores]
  dropped := by simp [startStores]
  books := by
    have hready : tally s.startStores.mp.Ready = 0 := tally_eq_zero (hi.none_ready hidle)
    rw [inFlight, hready]
    simp [ahead, startStores, heldByCapture, heldByCodec, takenByPlayback, aheadCap, aheadCodec,
      behind, (hi.idle hidle).1]

theorem step_calm {a : Act} (hcodec : c.hasCodec = false) (hdev : Matches c dev)
    (hperiod : c.periodFrames ≠ 0) (hi : Calm c s) (ha : Steady c dev s a)
    (h : step c s a = some s') (hlt : s'.sp.committed.length < 2 ^ 31) : Calm c s' := by
  have hsize := step_size hi.size (hi.kept hcodec ha) h
  have hsp := step_spInv hi.sp h hlt
  obtain ⟨x, y, hledger⟩ := hi.ledger
  cases a with
  | cap r =>
    have hrun := hi.running_of (.inl (capStep_running h))
    have hfull := capStep_full (Whole.size_ne_zero hdev hperiod ha) hi.full h
    obtain ⟨y', hledger'⟩ := capStep_ledger ha hledger hi.sp.le h
    obtain ⟨sp, cap, xrun, error, frames, drop, reads, rfl⟩ := capStep_frame h
    exact ⟨hsize, hsp, .inr hrun, fun hidle => absurd hidle (hi.size.aligned.not_idle hrun), hfull,
      hi.stat, x, y', hledger'⟩
  | codec e =>
    have hrun := hi.running_of (.inr (.inl (codecStep_running h)))
    have hfull := codecStep_full hi.sp hi.full h
    obtain ⟨y', hledger'⟩ := codecStep_ledger hi.size.aligned hsize.aligned.mp hi.sp hrun hledger h
    obtain ⟨sp, mp, codec, drop, rfl⟩ := codecStep_frame h
    exact ⟨hsize, hsp, .inr hrun, fun hidle => absurd hidle (hi.size.aligned.not_idle hrun), hfull,
      hi.stat, x, y', hledger'⟩
  | pb w =>
    have hrun := hi.running_of (.inr (.inr (pbStep_running h)))
    have hstat := pbStep_stat ha h
    obtain ⟨x', hledger'⟩ := pbStep_ledger hi.size.aligned hsize.aligned.mp hsize.survives hi.stat
      hrun ha hledger h
    obtain ⟨mp, pb, xrun, error, frames, rfl⟩ := pbStep_frame h
    exact ⟨hsize, hsp, .inr hrun, fun hidle => absurd hidle (hi.size.aligned.not_idle hrun),
      hi.full.congr rfl rfl (fun hheld => ⟨hheld, fun _ hown => ⟨hown, rfl⟩⟩), hstat, x', y,
      hledger'⟩
  | start =>
    have hidle : s.main = .idle := ha
    have hledger' := startStores_ledger hi hidle
    simp only [step, mainStep, hidle, Option.some.injEq] at h
    subst h
    exact ⟨hsize, hsp, .inr rfl, by simp [startStores],
      hi.full.congr rfl rfl (by simp [startStores, heldByCapture]), by simp [startStores], 0, 0,
      hledger'⟩
  | spawn rc =>
    obtain rfl : rc = 0 := ha
    have hm := hi.size.aligned.main
    unfold MainOk at hm
    cases hpc : s.main <;> simp only [step, mainStep, spawnStep, hpc, reduceCtorEq] at h <;>
      rw [hpc] at hm <;> simp only [Int.lt_irrefl, if_false, Option.some.injEq] at h <;> subst h
    case spawnPb =>
      exact ⟨hsize, hsp, .inr hm.1, by simp, hi.full.congr rfl rfl (fun hheld =>
        ⟨hheld, fun _ hown => ⟨hown, rfl⟩⟩), by simp [spawned], x, y, hledger.congr rfl rfl rfl rfl
          (by simp [inFlight, spawned, takenByPlayback, hm.2.2.2])
          (by simp [spawned, behind, hm.2.2.2])⟩
    case spawnCodec =>
      exact ⟨hsize, hsp, .inr hm.1, by simp, hi.full.congr rfl rfl (fun hheld =>
        ⟨hheld, fun _ hown => ⟨hown, rfl⟩⟩), hi.stat, x, y, hledger.congr rfl rfl rfl
          (by simp [ahead, spawned, aheadCodec, hm.2.2])
          (by simp [inFlight, spawned, heldByCodec, hm.2.2]) rfl⟩
    case spawnCap =>
      exact ⟨hsize, hsp, .inr hm.1, by simp, hi.full.congr rfl rfl (by
        simp [spawned, heldByCapture]), hi.stat, x, y, hledger.congr rfl rfl rfl
          (by simp [ahead, spawned, aheadCap, hm.2])
          (by simp [inFlight, spawned, heldByCapture, hm.2]) rfl⟩
  | stop => exact ha.elim
  | join =>
    have hm := hi.size.aligned.main
    unfold MainOk at hm
    rcases hi.running with hidle | hrun
    · simp [step, mainStep, joinStep, hidle] at h
    · cases hpc : s.main <;> simp only [step, mainStep, joinStep, hpc, reduceCtorEq] at h <;>
        rw [hpc, hrun] at hm <;> simp at hm

/-! ## The number of commits -/

/-- Whatever was committed was read since the start. -/
structure Counted (s : Pipeline N) : Prop where
  idle : s.main = .idle → s.sp.committed = []
  le : s.sp.committed.length + heldByCapture s.cap ≤ s.reads

theorem capStep_counted {r : Read} (hr : Whole c dev r) (hle : s.sp.committed.length +
    heldByCapture s.cap ≤ s.reads) (h : capStep c s r = some s') :
    s'.sp.committed.length + heldByCapture s'.cap ≤ s'.reads := by
  have hn : r.n = c.periodFrames.toNat := hr.1
  cases hpc : s.cap <;> simp only [capStep, hpc, Option.map_eq_some_iff, reduceCtorEq] at h <;>
    simp only [hpc, heldByCapture] at hle
  case top =>
    cases h
    simp only
    split <;> simpa only [heldByCapture] using hle
  case acquire =>
    obtain ⟨sp, hsp, rfl⟩ := h
    rcases Spsc.acquire_cases hsp with ⟨-, rfl⟩ | ⟨w, -, rfl⟩ | ⟨w, -, rfl⟩ |
        ⟨idx, -, -, rfl⟩ | ⟨idx, -, rfl⟩ <;>
      simpa only [Spsc.acquireCall, heldByCapture] using hle
  case full =>
    cases h
    simpa only [heldByCapture] using hle
  case discard =>
    split at h <;> cases h <;> simp only [heldByCapture] <;> split <;> omega
  case read =>
    split at h
    · omega
    · split at h
      · obtain ⟨sp, hsp, rfl⟩ := Option.map_eq_some_iff.mp h
        obtain ⟨idx, -, rfl⟩ := Spsc.fill_eq_some hsp
        simp only [heldByCapture]
        omega
      · cases h
  case count =>
    cases h
    simpa only [heldByCapture] using hle
  case commit =>
    obtain ⟨sp, hsp, rfl⟩ := h
    obtain ⟨idx, -, rfl⟩ := Spsc.commit_eq_some hsp
    simp only [heldByCapture, List.length_append, List.length_singleton]
    omega
  case release n =>
    obtain ⟨sp, hsp, rfl⟩ := h
    obtain ⟨idx, -, rfl⟩ := Spsc.abandon_eq_some hsp
    split
    · simp only
      split <;> simpa only [heldByCapture] using hle
    · simpa only [heldByCapture] using hle
  case fail =>
    cases h
    simpa only [heldByCapture] using hle

theorem step_counted {a : Act} (hi : Aligned s) (hk : Counted s) (ha : Steady c dev s a)
    (h : step c s a = some s') : Counted s' := by
  have hidle : s.main = .idle → CapEnded s.cap := by
    intro hidle
    have hm := hi.main
    unfold MainOk at hm
    rw [hidle] at hm
    exact hm.2.1
  cases a with
  | cap r =>
    have hle := capStep_counted ha hk.le h
    have hne := capStep_running h
    obtain ⟨sp, cap, xrun, error, frames, drop, reads, rfl⟩ := capStep_frame h
    exact ⟨fun hm => absurd (hidle hm) hne, hle⟩
  | codec e =>
    have hcom := codecStep_committed h
    obtain ⟨sp, mp, codec, drop, rfl⟩ := codecStep_frame h
    refine ⟨?_, ?_⟩
    · rw [hcom]
      exact hk.idle
    · rw [hcom]
      exact hk.le
  | pb w =>
    obtain ⟨mp, pb, xrun, error, frames, rfl⟩ := pbStep_frame h
    exact ⟨hk.idle, hk.le⟩
  | start =>
    have hm : s.main = .idle := ha
    simp only [step, mainStep, hm, Option.some.injEq] at h
    subst h
    exact ⟨by simp [startStores], by simp [startStores, heldByCapture, hk.idle hm]⟩
  | spawn rc =>
    have hm := hi.main
    unfold MainOk at hm
    cases hpc : s.main <;> simp only [step, mainStep, spawnStep, hpc, reduceCtorEq] at h <;>
      rw [hpc] at hm <;> split at h <;> cases h
    case spawn.spawnCap.isFalse.refl =>
      have hle := hk.le
      rw [hm.2] at hle
      refine ⟨by simp, ?_⟩
      simp only [spawned]
      split <;> exact hle
    all_goals exact ⟨by simp, hk.le⟩
  | stop => exact ha.elim
  | join =>
    simp only [step, mainStep, joinStep] at h
    split at h
    case h_6 => cases h
    all_goals
      split at h <;> cases h
      exact ⟨by simp, hk.le⟩

theorem step_committed_le {a : Act} (h : step c s a = some s') :
    s.sp.committed.length ≤ s'.sp.committed.length := by
  rcases step_sp h with hsame | ⟨l, hl⟩
  · rw [hsame]
  · exact Spsc.step_committed_le hl

/-- No thread is between a counter and the operation that it counts. -/
structure Quiet (s : Pipeline N) : Prop where
  cap : s.cap ≠ .discard
  codec : ∀ f, s.codec ≠ .fullRelease f
  pb : ∀ n, s.pb ≠ .stat n

/-- Every period read was played, dropped, or is in flight. -/
structure Balanced (c : Setup) (s : Pipeline N) : Prop where
  frames : c.periodFrames.toNat * s.reads ≡
    s.pbFrames.toNat + s.dropFrames.toNat + c.periodFrames.toNat * inFlight s [MOD 2 ^ 32]
  periods : ∃ x y, s.reads = x + y + inFlight s ∧
    s.pbFrames = UInt32.ofNat (c.periodFrames.toNat * x) ∧
      s.dropFrames = UInt32.ofNat (c.periodFrames.toNat * y)

theorem Ledger.balanced {x y : Nat} (hl : Ledger c s x y) (hq : Quiet s) : Balanced c s := by
  have hbooks : s.reads = x + y + inFlight s := by
    have hahead : ahead s = 0 := by
      have hcap : aheadCap s.cap = 0 := by
        cases hpc : s.cap
        case discard => exact absurd hpc hq.cap
        all_goals rfl
      have hcodec : aheadCodec s.codec = 0 := by
        cases hpc : s.codec
        case fullRelease f => exact absurd hpc (hq.codec f)
        all_goals rfl
      rw [ahead, hcap, hcodec]
    have hbehind : behind s.pb = 0 := by
      cases hpc : s.pb
      case stat n => exact absurd hpc (hq.pb n)
      all_goals rfl
    have hl' := hl.books
    rw [hahead, hbehind] at hl'
    exact hl'
  refine ⟨?_, x, y, hbooks, hl.played, hl.dropped⟩
  rw [hl.played, hl.dropped, UInt32.toNat_ofNat', UInt32.toNat_ofNat', hbooks]
  calc c.periodFrames.toNat * (x + y + inFlight s)
      = c.periodFrames.toNat * x + c.periodFrames.toNat * y +
          c.periodFrames.toNat * inFlight s := by ring
    _ ≡ c.periodFrames.toNat * x % 2 ^ 32 + c.periodFrames.toNat * y % 2 ^ 32 +
          c.periodFrames.toNat * inFlight s [MOD 2 ^ 32] :=
        ((Nat.mod_modEq _ _).symm.add (Nat.mod_modEq _ _).symm).add_right _

theorem calm_init (spBody : Int → Body) (mpBody : Fin N → Body) :
    Calm c (init spBody mpBody) where
  size :=
    { aligned := aligned_init spBody mpBody
      empty := by
        intro i hready
        simp [init, Mpsc.init] at hready
      filled := .of_codec (by simp [init]) (by simp [init])
      survives := ⟨by simp [init], by simp [init]⟩ }
  sp := Spsc.inv_init spBody
  running := .inl rfl
  idle _ := ⟨rfl, rfl⟩
  full := ⟨by simp [init, Spsc.init], by simp [init, Spsc.init], by simp [init, heldByCapture]⟩
  stat := by simp [init]
  ledger := by
    have hready : tally (init spBody mpBody).mp.Ready = 0 :=
      tally_eq_zero fun i hi => by simp [init, Mpsc.init, Mpsc.Ready] at hi
    refine ⟨0, 0, by simp [init], by simp [init], ?_⟩
    rw [inFlight, hready]
    simp [init, Spsc.init, ahead, aheadCap, aheadCodec, heldByCapture, heldByCodec,
      takenByPlayback, behind]

theorem run_counted {spBody : Int → Body} {mpBody : Fin N → Body} {as : List Act}
    (hr : run (step c) (init spBody mpBody) as = some s)
    (hm : Meets (step c) (Steady c dev) (init spBody mpBody) as) : Counted s := by
  have hstep : ∀ (t : Pipeline N) a t', Aligned t ∧ Counted t → Steady c dev t a →
      step c t a = some t' → Aligned t' ∧ Counted t' := by
    rintro t a t' ⟨hi, hk⟩ ha h
    exact ⟨step_aligned hi h, step_counted hi hk ha h⟩
  have hinit : Counted (init spBody mpBody) := ⟨fun _ => rfl, le_rfl⟩
  exact (run_invariant_of_meets hstep ⟨aligned_init spBody mpBody, hinit⟩ hm hr).2

/-- **Period accounting.** A fresh stream without a codec, matching devices, periods of at least one
frame, read and written whole: in every schedule, with fewer than `2 ^ 31` periods, and wherever
no thread is between a counter and the operation that it counts, every period read was played, was
dropped, or is in flight. -/
theorem periods_balance {spBody : Int → Body} {mpBody : Fin N → Body} {as : List Act}
    (hcodec : c.hasCodec = false) (hdev : Matches c dev) (hperiod : c.periodFrames ≠ 0)
    (hr : run (step c) (init spBody mpBody) as = some s)
    (hm : Meets (step c) (Steady c dev) (init spBody mpBody) as) (hlt : s.reads < 2 ^ 31)
    (hq : Quiet s) : Balanced c s := by
  have hbound : s.sp.committed.length < 2 ^ 31 := by
    have hle := (run_counted hr hm).le
    omega
  have hmono : ∀ (t : Pipeline N) a t', step c t a = some t' →
      t.sp.committed.length ≤ t'.sp.committed.length := fun _ _ _ => step_committed_le
  have hmeets := meets_and hm (meets_lt_of_mono hmono hr hbound)
  have hcalm : Calm c s := by
    refine run_invariant_of_meets ?_ (calm_init spBody mpBody) hmeets hr
    rintro t a t' hi ⟨ha, hcommits⟩ h
    exact step_calm hcodec hdev hperiod hi ha h (hcommits t' h)
  obtain ⟨x, y, hledger⟩ := hcalm.ledger
  exact hledger.balanced hq

/-- A device that reads periods of 480 frames. -/
def stereoDevice : Device where
  fmt := .s16
  rate := 48000
  channels := 2
  periodFrames := 480
  periodBytes := 1920
  bufferFrames := 1920

/-- Two periods are read, the first is played, the second is with the capture thread. -/
theorem periods_balance_two :
    ∃ s, run (step stereoSetup) (fresh 4) (onePeriod { n := 480, data := [] } ++
        List.replicate 3 (.pb 480) ++ List.replicate 5 (.cap { n := 480, data := [] })) = some s ∧
      s.reads = 2 ∧ s.pbFrames = 480 ∧ Balanced stereoSetup s := by
  obtain ⟨s, hs, hreads, hplayed, hcap, hcodec, hpb⟩ :
      ∃ s, run (step stereoSetup) (fresh 4) (onePeriod { n := 480, data := [] } ++
          List.replicate 3 (.pb 480) ++ List.replicate 5 (.cap { n := 480, data := [] })) =
            some s ∧ s.reads = 2 ∧ s.pbFrames = 480 ∧ s.cap = .count 480 ∧ s.codec = .top ∧
              s.pb = .top := ⟨_, rfl, rfl, rfl, rfl, rfl, rfl⟩
  refine ⟨s, hs, hreads, hplayed, ?_⟩
  have hdev : Matches stereoSetup stereoDevice := ⟨rfl, rfl⟩
  exact periods_balance rfl hdev (by decide) hs (by decide) (by omega)
    ⟨by simp [hcap], by simp [hcodec], by simp [hpb]⟩

end Pipeline
end Audio
end BuildingBlocks
