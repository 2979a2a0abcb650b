import BuildingBlocks.Audio.Start
import BuildingBlocks.Audio.Wake

/-!
# BuildingBlocks.Audio.Stop

The joins of `bb_audio_stream_stop` can all complete, from every state any interleaving reaches.

Each phase has a rank that some step decreases: `capRank` while the capture thread is joined,
`codecRank` and `lockRank` while the codec thread is (it may have to wait for the playback thread to
give up the mutex), `pbRank` while the playback thread is. `stop_completes` runs the phases one
after the other.
-/

namespace BuildingBlocks
namespace Audio

open Pool Lib

/-! ## The ranks -/

def capRank (cap : CapPc) (pc : ProdPc) : Nat :=
  match cap with
  | .off | .done => 0
  | .top | .fail => 1
  | .discard | .commit | .release _ => 2
  | .full | .count _ => 3
  | .read => 4
  | .acquire =>
    match pc with
    | .acqSlot _ | .owns _ => 5
    | .acqWrite _ => 6
    | .idle => 7

def dequeueRank : ConsPc → Nat
  | .deqTake _ => 1
  | .deqSlot _ _ => 2
  | .deqWrite _ _ => 3
  | .idle => 4

section Ranks

variable {N : Nat}

def scanRank : MpProdPc N → Nat
  | .scan i => N + 1 - i
  | _ => N + 2

def enqueueRank : MpProdPc N → Nat
  | .owns _ => 5
  | .marked => 4
  | .locked => 3
  | .posted => 2
  | _ => 1

/-- More than all attempts to post the sentinel take. -/
def drainRank (N : Nat) : Nat := 10 + 100 * (N + 3)

/-- The way of the codec thread to its end, one frame of the first pool aside. -/
def stageRank (codec : CodecPc) (cons : ConsPc) (prod : MpProdPc N) : Nat :=
  match codec with
  | .off | .done => 0
  | .sentinelEnqueue => enqueueRank prod
  | .sentinel => 6
  | .post retry => 7 + (99 - retry) * (N + 3) + scanRank prod
  | .drain => drainRank N + dequeueRank cons
  | .drainRelease _ => drainRank N + 5
  | .top => drainRank N + 6
  | .enqueue => drainRank N + 6 + enqueueRank prod
  | .fullRelease _ => drainRank N + 7
  | .full _ => drainRank N + 8
  | .dequeue => drainRank N + 7 + dequeueRank cons
  | .release _ => drainRank N + 12
  | .encode _ => drainRank N + 13
  | .acquire _ => drainRank N + 14 + scanRank prod

/-- Until the mutex is free. -/
def lockRank : MpConsPc N → Nat
  | .leave _ => 1
  | .found _ => 2
  | .scan i => 3 + (N - i)
  | .check => 4 + N
  | _ => 0

def pbRank (pb : PbPc) (cons : MpConsPc N) : Nat :=
  match pb with
  | .off | .done _ => 0
  | .top | .leave _ => 1
  | .release => 2
  | .stat _ => 3
  | .write => 4
  | .test => 5
  | .dequeue =>
    match cons with
    | .idle | .waiting => 10 + N
    | pc => 5 + lockRank pc

end Ranks

/-! ## The pools -/

theorem dequeue_rank {count : Nat} {sp sp' : Spsc Body} (hr : Spsc.Range sp)
    (h : Spsc.step count sp (Spsc.dequeueOp sp.cons) = some sp') :
    (Spsc.dequeueCall sp.cons sp'.cons = .inside ∧ sp'.readIdx = sp.readIdx ∧
        dequeueRank sp'.cons < dequeueRank sp.cons) ∨
      (Spsc.dequeueCall sp.cons sp'.cons = .returned none ∧ sp'.readIdx = sp.readIdx ∧
        2 ≤ dequeueRank sp.cons) ∨
      ∃ f, Spsc.dequeueCall sp.cons sp'.cons = .returned (some f) ∧
        sp'.readIdx = sp.readIdx + 1 ∧ sp.readIdx + 1 < 2 ^ 31 := by
  rcases Spsc.dequeue_cases h with ⟨hpc, rfl⟩ | ⟨w, n, hpc, -, rfl⟩ | ⟨w, n, hpc, -, rfl⟩ |
    ⟨idx, n, hpc, -, rfl⟩ | ⟨idx, n, hpc, rfl⟩ | ⟨idx, hpc, rfl⟩
  case inr.inr.inr.inr.inr =>
    have hcons := hr.cons
    simp only [hpc] at hcons
    have hlow := hr.low
    refine .inr (.inr ⟨idx, by simp [Spsc.dequeueCall, hpc], ?_, hcons⟩)
    exact int32_eq (by omega) hcons
  all_goals simp [Spsc.dequeueCall, hpc, dequeueRank]

theorem release_enabled (count : Nat) {sp : Spsc Body} {f : Int}
    (h : sp.cons = .idle ∧ sp.held = [f]) : ∃ sp', Spsc.step count sp (.release f) = some sp' := by
  have hheld : f ∈ sp.held := by
    rw [h.2]
    exact List.mem_singleton_self f
  simp only [Spsc.step, h.1, if_pos hheld]
  exact ⟨_, rfl⟩

theorem release_readIdx {count : Nat} {sp sp' : Spsc Body} {f : Int}
    (h : Spsc.step count sp (.release f) = some sp') : sp'.readIdx = sp.readIdx := by
  obtain ⟨-, -, rfl⟩ := Spsc.release_eq_some h
  rfl

section Mp

variable {N : Nat} {mp mp' : Mpsc Unit Body N}

theorem acquire_rank (h : Mpsc.step mp (Mpsc.acquireOp () (mp.prod ())) = some mp') :
    (Mpsc.acquireCall (mp'.prod ()) = .inside ∧ scanRank (mp'.prod ()) < scanRank (mp.prod ())) ∨
      (Mpsc.acquireCall (mp'.prod ()) = .returned none ∧ mp'.prod () = .idle) ∨
      ∃ i, Mpsc.acquireCall (mp'.prod ()) = .returned (some i) := by
  rcases Mpsc.acquire_cases h with ⟨hpc, rfl⟩ | ⟨i, -, -, rfl⟩ | ⟨i, hpc, -, rfl⟩ | ⟨i, -, -, rfl⟩
  · simp [Mpsc.setProd, Mpsc.acquireCall, scanRank, hpc]
  · simp [Mpsc.setProd, Mpsc.acquireCall]
  · have hlt := i.isLt
    simp only [Mpsc.setProd, Function.update_self, Mpsc.acquireCall, scanRank, hpc]
    left
    exact ⟨trivial, by omega⟩
  · simp [Mpsc.setProd, Mpsc.acquireCall]

theorem enqueue_rank (h : Mpsc.step mp (Mpsc.enqueueOp () (mp.prod ())) = some mp') :
    (Mpsc.enqueueCall (mp'.prod ()) = .inside ∧
        enqueueRank (mp'.prod ()) < enqueueRank (mp.prod ())) ∨
      Mpsc.enqueueCall (mp'.prod ()) = .returned () ∧ 1 ≤ enqueueRank (mp.prod ()) := by
  rcases Mpsc.enqueue_cases h with ⟨i, hpc, rfl⟩ | ⟨hpc, -, rfl⟩ | ⟨hpc, rfl⟩ | ⟨hpc, rfl⟩ |
      ⟨hpc, rfl⟩ <;>
    simp [Mpsc.marked, Mpsc.setProd, Mpsc.enqueueCall, enqueueRank, hpc]

end Mp

/-! ## The capture thread -/

namespace Pipeline

variable {N : Nat} {c : Setup} {s s' : Pipeline N}

/-- A read that returns no frames. -/
def noRead : Read := { n := 0, data := [] }

theorem cap_progress (hi : CapOk s.cap s.sp.prod) (hrun : s.running = false)
    (hne : ¬ CapEnded s.cap) :
    ∃ s', capStep c s noRead = some s' ∧ capRank s'.cap s'.sp.prod < capRank s.cap s.sp.prod := by
  cases hpc : s.cap <;> rw [hpc] at hi
  case off => exact absurd (.inl hpc) hne
  case done => exact absurd (.inr hpc) hne
  case top =>
    simp only [capStep, hpc, hrun]
    exact ⟨_, rfl, by simp [capRank]⟩
  case acquire =>
    obtain ⟨sp, hsp⟩ := Spsc.acquire_enabled N hi
    simp only [capStep, hpc, hsp, Option.map_some]
    refine ⟨_, rfl, ?_⟩
    rcases Spsc.acquire_cases hsp with ⟨hprod, rfl⟩ | ⟨w, hprod, rfl⟩ | ⟨w, hprod, rfl⟩ |
      ⟨idx, hprod, -, rfl⟩ | ⟨idx, hprod, rfl⟩ <;>
      simp [capRank, Spsc.acquireCall, hprod]
  case full =>
    simp only [capStep, hpc]
    exact ⟨_, rfl, by simp [capRank]⟩
  case discard =>
    simp only [capStep, hpc]
    exact ⟨_, rfl, by simp [capRank]⟩
  case read =>
    obtain ⟨idx, hown⟩ := hi
    have hread : ¬ noRead.n < 0 := by decide
    simp only [capStep, hpc, if_neg hread, Spsc.step, hown, Option.map_some]
    exact ⟨_, rfl, by simp [capRank]⟩
  case count =>
    simp only [capStep, hpc]
    exact ⟨_, rfl, by simp [capRank]⟩
  case commit =>
    obtain ⟨idx, hown⟩ := hi
    simp only [capStep, hpc, Spsc.step, hown, Option.map_some]
    exact ⟨_, rfl, by simp [capRank]⟩
  case release n =>
    obtain ⟨idx, hown⟩ := hi
    simp only [capStep, hpc, Spsc.step, hown, Option.map_some]
    refine ⟨_, rfl, ?_⟩
    split
    · simp only
      split <;> simp [capRank]
    · simp [capRank]
  case fail =>
    simp only [capStep, hpc]
    exact ⟨_, rfl, by simp [capRank]⟩

/-! ## The codec thread -/

/-- A codec that does nothing. -/
def noEncode : Encode := { ret := 0, data := [], outLen := 0 }

/-- Every frame of the first pool may have to be drained, and `read_idx` counts them up. -/
def codecRank (s : Pipeline N) : Nat :=
  stageRank s.codec s.sp.cons (s.mp.prod ()) + (N + 20) * (2 ^ 31 - s.sp.readIdx).toNat

/-- A step that keeps `read_idx`. -/
theorem codecRank_lt (hread : s'.sp.readIdx = s.sp.readIdx)
    (hstage : stageRank s'.codec s'.sp.cons (s'.mp.prod ()) <
      stageRank s.codec s.sp.cons (s.mp.prod ())) : codecRank s' < codecRank s := by
  unfold codecRank
  rw [hread]
  omega

/-- A step that advances `read_idx` may cost a frame's worth. -/
theorem codecRank_advance (hread : s'.sp.readIdx = s.sp.readIdx + 1)
    (hlt : s.sp.readIdx + 1 < 2 ^ 31)
    (hstage : stageRank s'.codec s'.sp.cons (s'.mp.prod ()) <
      stageRank s.codec s.sp.cons (s.mp.prod ()) + (N + 20)) : codecRank s' < codecRank s := by
  have hsucc : (2 ^ 31 - s.sp.readIdx).toNat = (2 ^ 31 - (s.sp.readIdx + 1)).toNat + 1 := by omega
  unfold codecRank
  rw [hread, hsucc, Nat.mul_succ]
  omega

theorem codec_progress (hi : Aligned s) (hr : Spsc.Range s.sp) (hrun : s.running = false)
    (hne : ¬ CodecEnded s.codec) (hfree : s.mp.prod () = .marked → s.mp.mutex = none) :
    ∃ s', codecStep c s noEncode = some s' ∧ codecRank s' < codecRank s := by
  have hsp := hi.codecSp
  have hmp := hi.codecMp
  cases hpc : s.codec <;> rw [hpc] at hsp hmp
  case off => exact absurd (.inl hpc) hne
  case done => exact absurd (.inr hpc) hne
  case top =>
    have hidle : s.sp.cons = .idle := hsp.1
    simp only [codecStep, hpc, hrun]
    refine ⟨_, rfl, codecRank_lt rfl ?_⟩
    simp [stageRank, hpc, hidle, dequeueRank]
  case dequeue =>
    obtain ⟨sp, hstep⟩ := Spsc.dequeue_enabled N s.sp
    have hidle : s.mp.prod () = .idle := hmp
    simp only [codecStep, hpc, hstep, Option.map_some]
    refine ⟨_, rfl, ?_⟩
    rcases dequeue_rank hr hstep with ⟨hcall, hread, hlt⟩ | ⟨hcall, hread, hlt⟩ |
      ⟨f, hcall, hread, hlt⟩
    · refine codecRank_lt hread ?_
      simp only [hcall, hpc, stageRank]
      omega
    · refine codecRank_lt hread ?_
      simp only [hcall, hpc, stageRank]
      omega
    · refine codecRank_advance hread hlt ?_
      simp only [hcall, hpc, stageRank, hidle, scanRank]
      omega
  case drain =>
    obtain ⟨sp, hstep⟩ := Spsc.dequeue_enabled N s.sp
    have hidle : s.mp.prod () = .idle := hmp
    simp only [codecStep, hpc, hstep, Option.map_some]
    refine ⟨_, rfl, ?_⟩
    rcases dequeue_rank hr hstep with ⟨hcall, hread, hlt⟩ | ⟨hcall, hread, hlt⟩ |
      ⟨f, hcall, hread, hlt⟩
    · refine codecRank_lt hread ?_
      simp only [hcall, hpc, stageRank]
      omega
    · refine codecRank_lt hread ?_
      simp only [hcall, hpc, stageRank, drainRank, hidle, scanRank]
      omega
    · refine codecRank_advance hread hlt ?_
      simp only [hcall, hpc, stageRank]
      omega
  case acquire f =>
    obtain ⟨mp, hstep⟩ := Mpsc.acquire_enabled hmp
    simp only [codecStep, hpc, hstep, Option.map_some]
    refine ⟨_, rfl, codecRank_lt rfl ?_⟩
    rcases acquire_rank hstep with ⟨hcall, hlt⟩ | ⟨hcall, -⟩ | ⟨i, hcall⟩
    · simp only [hcall, hpc, stageRank]
      omega
    · simp only [hcall, hpc, stageRank]
      omega
    · simp only [hcall, hpc, stageRank]
      omega
  case post retry =>
    obtain ⟨mp, hstep⟩ := Mpsc.acquire_enabled hmp
    simp only [codecStep, hpc, hstep, Option.map_some]
    refine ⟨_, rfl, codecRank_lt rfl ?_⟩
    rcases acquire_rank hstep with ⟨hcall, hlt⟩ | ⟨hcall, hidle⟩ | ⟨i, hcall⟩
    · simp only [hcall, hpc, stageRank]
      omega
    · simp only [hcall, hpc]
      by_cases hretry : retry + 1 < 100
      · have hless : 99 - retry = (99 - (retry + 1)) + 1 := by omega
        simp only [if_pos hretry, stageRank, hidle, hless, Nat.succ_mul, scanRank]
        omega
      · simp only [if_neg hretry, stageRank]
        omega
    · simp only [hcall, hpc, stageRank]
      omega
  case full f =>
    simp only [codecStep, hpc]
    refine ⟨_, rfl, codecRank_lt rfl ?_⟩
    simp only [hpc, stageRank]
    omega
  case fullRelease f =>
    obtain ⟨sp, hstep⟩ := release_enabled N hsp
    simp only [codecStep, hpc, hstep, Option.map_some]
    refine ⟨_, rfl, codecRank_lt (release_readIdx hstep) ?_⟩
    simp only [hpc, stageRank]
    omega
  case release f =>
    obtain ⟨sp, hstep⟩ := release_enabled N hsp
    obtain ⟨i, hown⟩ := hmp
    simp only [codecStep, hpc, hstep, Option.map_some]
    refine ⟨_, rfl, codecRank_lt (release_readIdx hstep) ?_⟩
    simp only [hpc, hown, stageRank, enqueueRank]
    omega
  case drainRelease f =>
    obtain ⟨sp, hstep⟩ := release_enabled N hsp
    have hcons : sp.cons = .idle := (release_pool hsp.2 hstep).1
    simp only [codecStep, hpc, hstep, Option.map_some]
    refine ⟨_, rfl, codecRank_lt (release_readIdx hstep) ?_⟩
    simp only [hpc, hcons, stageRank, dequeueRank]
    omega
  case encode f =>
    obtain ⟨i, hown⟩ := hmp
    simp only [codecStep, hpc, Mpsc.step, hown, Option.map_some]
    refine ⟨_, rfl, codecRank_lt rfl ?_⟩
    simp only [hpc, stageRank]
    omega
  case sentinel =>
    obtain ⟨i, hown⟩ := hmp
    simp only [codecStep, hpc, Mpsc.step, hown, Option.map_some]
    refine ⟨_, rfl, codecRank_lt rfl ?_⟩
    simp [hpc, hown, stageRank, enqueueRank]
  case enqueue =>
    obtain ⟨mp, hstep⟩ := Mpsc.enqueue_enabled hmp hfree
    simp only [codecStep, hpc, hstep, Option.map_some]
    refine ⟨_, rfl, codecRank_lt rfl ?_⟩
    rcases enqueue_rank hstep with ⟨hcall, hlt⟩ | ⟨hcall, hlt⟩
    · simp only [hcall, hpc, stageRank]
      omega
    · simp only [hcall, hpc, stageRank]
      omega
  case sentinelEnqueue =>
    obtain ⟨mp, hstep⟩ := Mpsc.enqueue_enabled hmp hfree
    simp only [codecStep, hpc, hstep, Option.map_some]
    refine ⟨_, rfl, codecRank_lt rfl ?_⟩
    rcases enqueue_rank hstep with ⟨hcall, hlt⟩ | ⟨hcall, hlt⟩
    · simp only [hcall, hpc, stageRank]
      omega
    · simp only [hcall, hpc, stageRank]
      omega

/-! ## The playback thread -/

/-- Within its critical section the consumer comes closer to its end. -/
theorem lockRank_lt {mp mp' : Mpsc Unit Body N} (hi : Mpsc.MInv mp)
    (hl : mp.cons.locked = true) (h : Mpsc.step mp (Mpsc.dequeueOp mp.cons) = some mp') :
    lockRank mp'.cons < lockRank mp.cons := by
  rcases Mpsc.dequeue_cases hi h with ⟨hpc, -, rfl⟩ | ⟨hpc, -, rfl⟩ | ⟨hpc, -, rfl⟩ |
    ⟨hpc, -, rfl⟩ | ⟨i, hpc, -, rfl⟩ | ⟨i, hpc, -, rfl⟩ | ⟨i, hpc, rfl⟩ | ⟨i, hpc, rfl⟩
  case inl | inr.inr.inr.inl =>
    rw [hpc] at hl
    cases hl
  case inr.inr.inr.inr.inr.inl =>
    have hlt := i.isLt
    simp only [hpc, lockRank]
    omega
  all_goals
    simp only [hpc, lockRank, Mpsc.takenOut]
    omega

theorem pb_unlock (hi : Aligned s) (hl : s.mp.cons.locked = true) :
    ∃ s', pbStep c s 0 = some s' ∧ lockRank s'.mp.cons < lockRank s.mp.cons := by
  have hpc : s.pb = .dequeue := by
    have hpb := hi.pb
    cases hpb' : s.pb <;> rw [hpb'] at hpb
    case off | top | done =>
      have hidle : s.mp.cons = .idle := hpb
      rw [hidle] at hl
      cases hl
    case test | write | stat | release | leave =>
      obtain ⟨i, hheld⟩ := hpb
      rw [hheld] at hl
      cases hl
  have hpb := hi.pb
  rw [hpc] at hpb
  obtain ⟨mp, hstep⟩ := Mpsc.dequeue_enabled hpb (by simp [hl])
  simp only [pbStep, hpc, hstep, Option.map_some]
  exact ⟨_, rfl, lockRank_lt hi.mp hl hstep⟩

theorem pb_progress (hi : Aligned s) (hm : Mpsc.MutexOk s.mp) (hw : WakeOk s)
    (hrun : s.running = false) (hdone : s.codec = .done) (hne : ¬ PbEnded s.pb) :
    ∃ s', pbStep c s 0 = some s' ∧ pbRank s'.pb s'.mp.cons < pbRank s.pb s.mp.cons := by
  have hpb := hi.pb
  cases hpc : s.pb <;> rw [hpc] at hpb
  case off => exact absurd (.inl hpc) hne
  case done why => exact absurd (.inr (by rw [hpc]; rfl)) hne
  case top =>
    simp only [pbStep, hpc, hrun]
    exact ⟨_, rfl, by simp [pbRank]⟩
  case dequeue =>
    have hfree : s.mp.cons.locked = false → s.mp.mutex = none := by
      intro hunlocked
      have hidle : s.mp.prod () = .idle := by
        have hmp := hi.codecMp
        rwa [hdone] at hmp
      exact hm.free_of hunlocked fun p => by rw [hidle]; rfl
    obtain ⟨mp, hstep⟩ := Mpsc.dequeue_enabled hpb hfree
    simp only [pbStep, hpc, hstep, Option.map_some]
    refine ⟨_, rfl, ?_⟩
    rcases Mpsc.dequeue_cases hi.mp hstep with ⟨hcons, -, rfl⟩ | ⟨hcons, hzero, rfl⟩ |
      ⟨hcons, -, rfl⟩ | ⟨hcons, -, rfl⟩ | ⟨i, hcons, -, rfl⟩ | ⟨i, hcons, -, rfl⟩ |
      ⟨i, hcons, rfl⟩ | ⟨i, hcons, rfl⟩
    case inr.inl =>
      -- nothing is pending: the codec thread has seen to it that this does not happen
      have hpending := (wake_pending hi hw hrun hdone ⟨hpc, by rw [hcons]; rfl⟩).1
      omega
    case inr.inr.inr.inr.inr.inl =>
      have hlt := i.isLt
      simp only [Mpsc.dequeueCall, hcons, pbRank, lockRank]
      omega
    all_goals
      simp only [Mpsc.dequeueCall, hcons, pbRank, lockRank, Mpsc.takenOut]
      omega
  case test =>
    obtain ⟨i, hheld⟩ := hpb
    simp only [pbStep, hpc, hheld]
    refine ⟨_, rfl, ?_⟩
    simp only
    split <;> simp [pbRank]
  case write =>
    obtain ⟨i, hheld⟩ := hpb
    simp only [pbStep, hpc, hheld, Int.lt_irrefl, if_false]
    rw [if_pos (by omega)]
    exact ⟨_, rfl, by simp [pbRank]⟩
  case stat n =>
    simp only [pbStep, hpc]
    exact ⟨_, rfl, by simp [pbRank]⟩
  case release | leave =>
    obtain ⟨i, hheld⟩ := hpb
    simp only [pbStep, hpc, Mpsc.step, hheld, Option.map_some]
    exact ⟨_, rfl, by simp [pbRank]⟩

/-! ## The joins -/

/-- Every `pthread_create` succeeds. -/
def Spawns : Act → Prop
  | .spawn rc => rc = 0
  | _ => True

instance : DecidablePred Spawns
  | .spawn rc => inferInstanceAs (Decidable (rc = 0))
  | .start | .stop | .join | .cap _ | .codec _ | .pb _ => .isTrue trivial

theorem Spawns.errno {a : Act} (h : Spawns a) : Errno a := by
  cases a with
  | spawn rc => exact (show rc = 0 from h).ge
  | _ => trivial

/-- What holds of a stream whose threads were all created. -/
structure Live (s : Pipeline N) : Prop where
  aligned : Aligned s
  owned : Mpsc.Owned s.mp
  mutex : Mpsc.MutexOk s.mp
  range : Spsc.Range s.sp
  wake : WakeOk s
  created : Created s
  results : ∀ rc ∈ s.results, rc = 0

theorem live_init (spBody : Int → Body) (mpBody : Fin N → Body) : Live (init spBody mpBody) where
  aligned := aligned_init spBody mpBody
  owned := Mpsc.owned_init mpBody
  mutex := Mpsc.mutexOk_init mpBody
  range := Spsc.range_init spBody
  wake := fun _ hawait => nomatch hawait.1
  created := rfl
  results := by simp [init]

theorem step_results {a : Act} (ha : Spawns a) (hi : ∀ rc ∈ s.results, rc = 0)
    (h : step c s a = some s') : ∀ rc ∈ s'.results, rc = 0 := by
  cases a with
  | cap r =>
    obtain ⟨sp, cap, xrun, error, frames, drop, reads, rfl⟩ := capStep_frame h
    exact hi
  | codec e =>
    obtain ⟨sp, mp, codec, drop, rfl⟩ := codecStep_frame h
    exact hi
  | pb w =>
    obtain ⟨mp, pb, xrun, error, frames, rfl⟩ := pbStep_frame h
    exact hi
  | start =>
    simp only [step, mainStep] at h
    split at h <;> cases h <;> simp [startStores]
  | spawn rc =>
    obtain rfl : rc = 0 := ha
    have hall : ∀ rc ∈ s.results ++ [0], rc = 0 := by
      intro rc hrc
      rcases List.mem_append.mp hrc with hold | hnew
      · exact hi rc hold
      · exact List.mem_singleton.mp hnew
    simp only [step, mainStep, spawnStep] at h
    split at h
    case h_4 => cases h
    all_goals
      split at h <;> cases h <;> exact hall
  | stop =>
    simp only [step, mainStep] at h
    split at h
    case h_5 => cases h
    all_goals
      split at h <;> cases h <;> exact hi
  | join =>
    simp only [step, mainStep, joinStep] at h
    split at h
    case h_6 => cases h
    all_goals
      split at h <;> cases h
      exact hi

theorem step_live (hN : 0 < N) {a : Act} (hi : Live s) (ha : Spawns a)
    (h : step c s a = some s') : Live s' where
  aligned := step_aligned hi.aligned h
  owned := step_mpOwned hi.aligned hi.owned h
  mutex := step_of_mp (fun _ _ _ => Mpsc.step_mutexOk) hi.mutex h
  range := step_of_sp (fun _ _ _ => Spsc.step_range) hi.range h
  wake := step_wake hN hi.aligned hi.owned hi.wake h
  created := (step_created ⟨hi.aligned, hi.created⟩ (Spawns.errno ha) h).2
  results := step_results ha hi.results h

/-- With all threads created, one that has ended is done. -/
theorem Live.done (hi : Live s) (hup : s.main.up = true) :
    (CapEnded s.cap → s.cap = .done) ∧ (CodecEnded s.codec → s.codec = .done) ∧
      (PbEnded s.pb → s.pb.isDone = true) := by
  have hc := hi.created
  have hres := hi.results
  unfold Created at hc
  cases hpc : s.main <;> rw [hpc] at hc hup
  case idle | spawnPb | spawnCodec | spawnCap | unwindCodec | unwindPb | failed => cases hup
  all_goals
    obtain ⟨rp, rc, rs, hlist, hpb, hcodec, hcap⟩ := hc
    simp only [hlist, List.forall_mem_cons] at hres
    obtain ⟨hrp, hrc, hrs, -⟩ := hres
    refine ⟨fun h => h.resolve_left ?_, fun h => h.resolve_left ?_, fun h => h.resolve_left ?_⟩
    · exact fun hoff => hcap.mp hoff hrs
    · exact fun hoff => hcodec.mp hoff hrc
    · exact fun hoff => hpb.mp hoff hrp

/-- The playback thread is joined. -/
theorem joinPb_completes (hN : 0 < N) (hi : Live s) (hpc : s.main = .joinPb) :
    ∃ as s', run (step c) s as = some s' ∧ s'.main = .stopped := by
  obtain ⟨as, s₁, hr, ⟨hi₁, hpc₁⟩, hdone⟩ : ∃ as s₁, run (step c) s as = some s₁ ∧
      (Live s₁ ∧ s₁.main = .joinPb) ∧ s₁.pb.isDone = true := by
    refine exists_run_of_rank (I := fun t => Live t ∧ t.main = .joinPb)
      (Q := fun t => t.pb.isDone = true) (fun t => pbRank t.pb t.mp.cons) ?_ ⟨hi, hpc⟩
    rintro t ⟨hi, hpc⟩ hne
    have hm := hi.aligned.main
    unfold MainOk at hm
    rw [hpc] at hm
    obtain ⟨-, hcodec, hpb⟩ := hi.done (by rw [hpc]; rfl)
    obtain ⟨t', ht, hlt⟩ := pb_progress (c := c) hi.aligned hi.mutex hi.wake hm.1
      (hcodec hm.2.2) fun hend => hne (hpb hend)
    have hmain : t'.main = t.main := by
      obtain ⟨mp, pb, xrun, error, frames, rfl⟩ := pbStep_frame ht
      rfl
    exact ⟨.pb 0, t', ht, ⟨step_live (a := .pb 0) hN hi trivial ht, hmain.trans hpc⟩, hlt⟩
  have hjoin : step c s₁ .join = some { s₁ with main := .stopped } := by
    simp only [step, mainStep, joinStep, hpc₁, hdone, if_true]
  exact ⟨as ++ [.join], _, run_append_eq_some.mpr
    ⟨s₁, hr, run_cons_eq_some.mpr ⟨_, hjoin, rfl⟩⟩, rfl⟩

/-- The codec thread is joined: where it has to wait for the mutex, the playback thread goes on. -/
theorem joinCodec_completes (hN : 0 < N) (hi : Live s) (hpc : s.main = .joinCodec) :
    ∃ as s', run (step c) s as = some s' ∧ s'.main = .stopped := by
  obtain ⟨as, s₁, hr, ⟨hi₁, hpc₁⟩, hdone⟩ : ∃ as s₁, run (step c) s as = some s₁ ∧
      (Live s₁ ∧ s₁.main = .joinCodec) ∧ s₁.codec = .done := by
    refine exists_run_of_rank (I := fun t => Live t ∧ t.main = .joinCodec)
      (Q := fun t => t.codec = .done) (fun t => codecRank t + lockRank t.mp.cons) ?_ ⟨hi, hpc⟩
    rintro t ⟨hi, hpc⟩ hne
    have hm := hi.aligned.main
    unfold MainOk at hm
    rw [hpc] at hm
    obtain ⟨-, hcodec, -⟩ := hi.done (by rw [hpc]; rfl)
    by_cases hlocked : t.mp.cons.locked = true
    · obtain ⟨t', ht, hlt⟩ := pb_unlock (c := c) hi.aligned hlocked
      have hprod := (pbStep_pool hi.aligned.mp hi.aligned.pb ht).2
      have hsame : t'.main = t.main ∧ codecRank t' = codecRank t := by
        obtain ⟨mp, pb, xrun, error, frames, rfl⟩ := pbStep_frame ht
        have hprod' : mp.prod = t.mp.prod := hprod
        exact ⟨rfl, by simp only [codecRank, hprod']⟩
      refine ⟨.pb 0, t', ht, ⟨step_live (a := .pb 0) hN hi trivial ht, hsame.1.trans hpc⟩, ?_⟩
      rw [hsame.2]
      omega
    · have hfree : t.mp.prod () = .marked → t.mp.mutex = none := by
        intro hmarked
        exact hi.mutex.free_of (Bool.eq_false_iff.mpr hlocked) fun p => by rw [hmarked]; rfl
      obtain ⟨t', ht, hlt⟩ := codec_progress (c := c) hi.aligned hi.range hm.1
        (fun hend => hne (hcodec hend)) hfree
      have hcons := (codecStep_pool hi.aligned.codecSp hi.aligned.codecMp ht).mpCons
      have hmain : t'.main = t.main := by
        obtain ⟨sp, mp, codec, drop, rfl⟩ := codecStep_frame ht
        rfl
      refine ⟨.codec noEncode, t', ht,
        ⟨step_live (a := .codec noEncode) hN hi trivial ht, hmain.trans hpc⟩, ?_⟩
      rw [hcons]
      omega
  have hjoin : step c s₁ .join = some { s₁ with main := .joinPb } := by
    simp only [step, mainStep, joinStep, hpc₁, hdone, if_true]
  obtain ⟨bs, s', hr', hstop⟩ :=
    joinPb_completes (c := c) hN (step_live (a := .join) hN hi₁ trivial hjoin) rfl
  exact ⟨as ++ .join :: bs, s', run_append_eq_some.mpr
    ⟨s₁, hr, run_cons_eq_some.mpr ⟨_, hjoin, hr'⟩⟩, hstop⟩

/-- The capture thread is joined. -/
theorem joinCap_completes (hN : 0 < N) (hi : Live s) (hpc : s.main = .joinCap) :
    ∃ as s', run (step c) s as = some s' ∧ s'.main = .stopped := by
  obtain ⟨as, s₁, hr, ⟨hi₁, hpc₁⟩, hdone⟩ : ∃ as s₁, run (step c) s as = some s₁ ∧
      (Live s₁ ∧ s₁.main = .joinCap) ∧ s₁.cap = .done := by
    refine exists_run_of_rank (I := fun t => Live t ∧ t.main = .joinCap)
      (Q := fun t => t.cap = .done) (fun t => capRank t.cap t.sp.prod) ?_ ⟨hi, hpc⟩
    rintro t ⟨hi, hpc⟩ hne
    have hm := hi.aligned.main
    unfold MainOk at hm
    rw [hpc] at hm
    obtain ⟨hcap, -, -⟩ := hi.done (by rw [hpc]; rfl)
    obtain ⟨t', ht, hlt⟩ := cap_progress (c := c) hi.aligned.cap hm fun hend => hne (hcap hend)
    have hmain : t'.main = t.main := by
      obtain ⟨sp, cap, xrun, error, frames, drop, reads, rfl⟩ := capStep_frame ht
      rfl
    exact ⟨.cap noRead, t', ht, ⟨step_live (a := .cap noRead) hN hi trivial ht, hmain.trans hpc⟩,
      hlt⟩
  have hjoin : step c s₁ .join = some { s₁ with main := .joinCodec } := by
    simp only [step, mainStep, joinStep, hpc₁, hdone, if_true]
  obtain ⟨bs, s', hr', hstop⟩ :=
    joinCodec_completes (c := c) hN (step_live (a := .join) hN hi₁ trivial hjoin) rfl
  exact ⟨as ++ .join :: bs, s', run_append_eq_some.mpr
    ⟨s₁, hr, run_cons_eq_some.mpr ⟨_, hjoin, hr'⟩⟩, hstop⟩

/-- The stream is stopped, the codec thread has ended, and the playback thread sleeps in
`bb_pool_mp_dequeue` with nothing pending. -/
def Deadlock (s : Pipeline N) : Prop :=
  s.running = false ∧ s.codec = .done ∧ s.pb = .dequeue ∧ s.mp.cons = .waiting ∧ s.mp.pending = 0

/-- **Stop does not deadlock.** For pools of any positive size and every interleaving of the
threads with the calls that start and stop them: no state is a deadlock, and from every state in
which stop waits in a join a run leads to its return. -/
theorem stop_completes (c : Setup) (spBody : Int → Body) (mpBody : Fin N → Body) (as : List Act)
    (hN : 0 < N) (hspawns : ∀ a ∈ as, Spawns a)
    (hr : run (step c) (init spBody mpBody) as = some s) :
    ¬ Deadlock s ∧
      (s.main = .joinCap ∨ s.main = .joinCodec ∨ s.main = .joinPb →
        ∃ bs s', run (step c) s bs = some s' ∧ s'.main = .stopped) := by
  have hi : Live s := run_invariant_of_meets (P := fun _ a => Spawns a)
    (fun _ _ _ hi ha h => step_live hN hi ha h) (live_init spBody mpBody)
    (meets_of_forall hspawns) hr
  constructor
  · rintro ⟨hrun, hdone, hpb, hcons, hzero⟩
    have hpending := (wake_pending hi.aligned hi.wake hrun hdone ⟨hpb, by rw [hcons]; rfl⟩).1
    omega
  · rintro (hpc | hpc | hpc)
    · exact joinCap_completes hN hi hpc
    · exact joinCodec_completes hN hi hpc
    · exact joinPb_completes hN hi hpc

theorem stop_completes_fresh :
    ∃ s, run (step stereoSetup) (fresh 1) (startAll ++ [.stop]) = some s ∧ s.main = .joinCap ∧
      ∃ bs s', run (step stereoSetup) s bs = some s' ∧ s'.main = .stopped := by
  obtain ⟨s, hs, hmain⟩ :
      ∃ s, run (step stereoSetup) (fresh 1) (startAll ++ [.stop]) = some s ∧ s.main = .joinCap :=
    ⟨_, rfl, rfl⟩
  have hspawns : ∀ a ∈ startAll ++ [.stop], Spawns a := by decide
  have hboth := stop_completes stereoSetup _ _ _ Nat.one_pos hspawns hs
  exact ⟨s, hs, hmain, hboth.2 (.inl hmain)⟩

end Pipeline
end Audio
end BuildingBlocks
