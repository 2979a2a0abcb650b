import BuildingBlocks.Pool.Memory

/-!
# BuildingBlocks.Audio.Lifetime

What an audio stream holds over its life: two devices, two frame pools, the state of a codec, three
threads and the `thread_ctx_t` of each.

* `init`, `start`, `stop` and `destroy` are the functions of `middleware/bb_audio_stream.c`, with
  the calls that acquire or release something.
* `step` calls them in any order, among threads that end when they like and whatever else acquires
  and releases resources. A codec that fails is taken to leave no state, and one that leaves state
  to have a `destroy` callback.
* `Sound` — nothing foreign was released, nothing was lost, no NULL was written to, a stream that
  runs has its devices and pools, and no role has two threads.
* `stream_sound_iff` — exactly when `start` comes after a complete `init`, finds the stream stopped
  and gets all it asks for, and `destroy` comes after an `init` that opened the capture device.
-/

namespace BuildingBlocks
namespace AudioStream

open Hal Lib Pool

/-! ## The code -/

/-- The three threads, in the order in which `bb_audio_stream_start` creates them. -/
inductive Role where
  | playback
  | codec
  | capture
deriving DecidableEq, Repr

def roles : List Role := [.playback, .codec, .capture]

/-- `bb_audio_stream_t`; `tid` and `arg` are fields of the `bb_thread_t` of each role. The codec has
a `destroy` callback if `destroys` holds. -/
structure Stream where
  capDev : Port
  pbDev : Port
  spPool : PoolMem
  mpPool : PoolMem
  tid : Role → Nat
  arg : Role → UInt64
  running : Bool
  codecCtx : UInt64
  destroys : Bool

/-- All zero. -/
def Stream.zero : Stream :=
  { capDev := { fd := 0 }, pbDev := { fd := 0 }, spPool := .zero, mpPool := .zero
    tid := fun _ => 0, arg := fun _ => 0, running := false, codecCtx := 0, destroys := false }

/-- The return value of the `init` callback of a codec, and the state it makes. A codec that fails
makes none, and one that makes state has a `destroy` callback. -/
structure CodecCalls where
  ret : Int
  ctx : UInt64
  destroys : Bool
  fails : ret < 0 → ctx = 0
  kept : ctx ≠ 0 → destroys = true

/-- The results of what `bb_audio_stream_init` calls; `codec` is `none` without a codec. -/
structure InitCalls where
  cap : AudioCalls
  pb : AudioCalls
  samePeriod : Bool
  spFrames : UInt64
  spData : List UInt64
  mpFrames : UInt64
  mpData : List UInt64
  codec : Option CodecCalls

/-- Where `bb_audio_stream_init` returned. -/
inductive Phase where
  /-- not called, or the stream was destroyed since -/
  | zeroed
  /-- the capture device could not be opened -/
  | noCapture
  /-- a later step failed -/
  | failed
  | ready
deriving DecidableEq, Repr

structure Result where
  dev : Stream
  phase : Phase
  ret : Int
  acts : List (Act Res)

/-- `bb_audio_stream_init`, from the codec on; both pools are there. -/
def initCodec (s : Stream) (acts : List (Act Res)) : Option CodecCalls → Result
  | none => { dev := s, phase := .ready, ret := 0, acts := acts }
  | some c =>
    let acts := acts ++ if c.ctx = 0 then [] else [.acquire (.heap c.ctx)]
    let s := { s with codecCtx := c.ctx, destroys := c.destroys }
    if c.ret < 0 then
      { dev :=
          { s with
            capDev := s.capDev.close.1
            pbDev := s.pbDev.close.1
            spPool := (poolDestroy s.spPool).1
            mpPool := (poolDestroy s.mpPool).1 }
        phase := .failed
        ret := c.ret
        acts := acts ++ (poolDestroy s.mpPool).2 ++ (poolDestroy s.spPool).2 ++
          s.capDev.close.2 ++ s.pbDev.close.2 }
    else { dev := s, phase := .ready, ret := 0, acts := acts }

/-- `bb_audio_stream_init`, from the pools on; both devices are open. -/
def initPools (s : Stream) (acts : List (Act Res)) (k : InitCalls) : Result :=
  let closed := { s with capDev := s.capDev.close.1, pbDev := s.pbDev.close.1 }
  let closeActs := s.capDev.close.2 ++ s.pbDev.close.2
  let sp := poolInit false k.spFrames k.spData
  if sp.2.1 < 0 then
    { dev := { closed with spPool := sp.1 }, phase := .failed, ret := -12
      acts := acts ++ sp.2.2 ++ closeActs }
  else
    let mp := poolInit false k.mpFrames k.mpData
    if mp.2.1 < 0 then
      { dev := { closed with spPool := (poolDestroy sp.1).1, mpPool := mp.1 }, phase := .failed
        ret := -12, acts := acts ++ sp.2.2 ++ mp.2.2 ++ (poolDestroy sp.1).2 ++ closeActs }
    else
      initCodec { s with spPool := sp.1, mpPool := mp.1 } (acts ++ sp.2.2 ++ mp.2.2) k.codec

/-- `bb_audio_stream_init`. -/
def init (k : InitCalls) : Result :=
  let cap := audioOpen k.cap
  if cap.ret < 0 then
    { dev := { Stream.zero with capDev := cap.dev }, phase := .noCapture, ret := -19
      acts := cap.acts }
  else
    let pb := audioOpen k.pb
    if pb.ret < 0 then
      { dev := { Stream.zero with capDev := cap.dev.close.1, pbDev := pb.dev }, phase := .failed
        ret := -19, acts := cap.acts ++ pb.acts ++ cap.dev.close.2 }
    else if !k.samePeriod then
      { dev := { Stream.zero with capDev := cap.dev.close.1, pbDev := pb.dev.close.1 }
        phase := .failed, ret := -22
        acts := cap.acts ++ pb.acts ++ cap.dev.close.2 ++ pb.dev.close.2 }
    else initPools { Stream.zero with capDev := cap.dev, pbDev := pb.dev } (cap.acts ++ pb.acts) k

/-- What `calloc` returns for the `thread_ctx_t`, 0 where it fails; and `pthread_create`: 0 or an
error number, and the thread. -/
structure Create where
  ctx : UInt64
  rc : Nat
  tid : Nat
deriving DecidableEq, Repr

/-- The creations of `bb_audio_stream_start`, with those done; `bb_thread_spawn` returns what
`pthread_create` does. There is no return value where the context that `calloc` did not give is
written to. -/
def startFrom (k : Role → Create) : List Role → List Role → Stream → List (Act Res) →
    Stream × Option Int × List (Act Res)
  | [], _, s, acts => (s, some 0, acts)
  | x :: xs, done, s, acts =>
    if (k x).ctx = 0 then (s, none, acts)
    else
      let s := { s with arg := Function.update s.arg x (k x).ctx }
      let s := if (k x).rc = 0 then { s with tid := Function.update s.tid x (k x).tid } else s
      let acts := acts ++ .acquire (.heap (k x).ctx) ::
        if (k x).rc = 0 then [.acquire (.thread (k x).tid)] else []
      if ((k x).rc : Int) < 0 then
        -- the threads joined free their contexts before
        ({ s with running := false }, some (-1),
          acts ++ .release (.heap (k x).ctx) ::
            done.flatMap fun y => [.release (.heap (s.arg y)), .release (.thread (s.tid y))])
      else startFrom k xs (x :: done) s acts

/-- `bb_audio_stream_start`. -/
def start (k : Role → Create) (s : Stream) : Stream × Option Int × List (Act Res) :=
  startFrom k roles [] { s with running := true } []

/-- The threads in the order in which they are joined. -/
def Stream.threads (s : Stream) : List Res := roles.reverse.map fun x => .thread (s.tid x)

/-- `bb_audio_stream_stop`. -/
def stop (s : Stream) : Stream × List (Act Res) :=
  if !s.running then (s, []) else ({ s with running := false }, s.threads.map .release)

/-- `bb_audio_stream_destroy`. -/
def destroy (s : Stream) : Stream × List (Act Res) :=
  (.zero,
    (stop s).2 ++
      (if s.codecCtx ≠ 0 ∧ s.destroys then [.release (.heap s.codecCtx)] else []) ++
      (poolDestroy s.spPool).2 ++ (poolDestroy s.mpPool).2 ++ s.capDev.close.2 ++ s.pbDev.close.2)

/-! ## What a stream holds -/

/-- The devices, the pools and the state of the codec. -/
def Stream.base (s : Stream) : List Res :=
  (if s.codecCtx ≠ 0 ∧ s.destroys then [.heap s.codecCtx] else []) ++ s.spPool.freed ++
    s.mpPool.freed ++ s.capDev.named ++ s.pbDev.named

def Stream.named (s : Stream) : List Res := (if s.running then s.threads else []) ++ s.base

theorem destroy_acts (s : Stream) : (destroy s).2 = s.named.map .release := by
  have hcodec : (if s.codecCtx ≠ 0 ∧ s.destroys then [Res.heap s.codecCtx] else []).map .release =
      if s.codecCtx ≠ 0 ∧ s.destroys then [Act.release (Res.heap s.codecCtx)] else [] := by
    split_ifs <;> rfl
  have hstop : (stop s).2 = (if s.running then s.threads else []).map .release := by
    unfold stop
    cases s.running <;> rfl
  simp only [destroy, hstop, Stream.named, Stream.base, poolDestroy_acts, close_acts,
    List.map_append, hcodec, List.append_assoc]

section Init

theorem audioOpen_cases (k : AudioCalls) :
    ((audioOpen k).ret = 0 ∨ (audioOpen k).ret = -1 ∧ (audioOpen k).dev = { fd := -1 }) ∧
      Leaves (audioOpen k).acts (audioOpen k).dev.named := by
  refine ⟨?_, _, audioOpen_within k, List.Perm.refl _⟩
  unfold audioOpen
  cases k.fd with
  | none => exact Or.inr ⟨rfl, rfl⟩
  | some n =>
    dsimp only
    split_ifs
    · exact Or.inl rfl
    · exact Or.inr ⟨rfl, rfl⟩

theorem freed_poolDestroy (p : PoolMem) : (poolDestroy p).1.freed = [] := by
  unfold poolDestroy
  split_ifs with h
  · exact if_pos h
  · rfl

/-- What `bb_audio_stream_init` leaves behind. -/
structure Left (r : Result) : Prop where
  leaves : Leaves r.acts (if r.phase = .ready then r.dev.base else [])
  running : r.dev.running = false
  zeroed : r.phase ≠ .zeroed
  noCapture : r.phase = .noCapture → r.dev.pbDev.fd = 0
  failed : r.phase = .failed → r.dev.base = []
  noHeap : r.phase ≠ .ready → ∀ a, Res.heap a ∉ r.dev.base
  pools : r.phase = .ready → r.dev.spPool.frames ≠ 0 ∧ r.dev.mpPool.frames ≠ 0

/-- A failed call that left nothing. -/
theorem left_failed {r : Result} (hphase : r.phase = .failed) (hbase : r.dev.base = [])
    (hrunning : r.dev.running = false) (hacts : Leaves r.acts []) : Left r where
  leaves := by rwa [if_neg (by rw [hphase]; decide)]
  running := hrunning
  zeroed := by rw [hphase]; decide
  noCapture := by rw [hphase]; exact fun he => nomatch he
  failed := fun _ => hbase
  noHeap := fun _ a h => by rw [hbase] at h; cases h
  pools := by rw [hphase]; exact fun he => nomatch he

variable {s : Stream} {acts : List (Act Res)} {k : InitCalls}

theorem base_eq (hctx : s.codecCtx = 0) :
    s.base = s.spPool.freed ++ s.mpPool.freed ++ s.capDev.named ++ s.pbDev.named := by
  rw [Stream.base, if_neg (fun h => h.1 hctx), List.nil_append]

theorem left_initCodec (c : Option CodecCalls) (hrunning : s.running = false)
    (hctx : s.codecCtx = 0) (hacts : Leaves acts s.base)
    (hpools : s.spPool.frames ≠ 0 ∧ s.mpPool.frames ≠ 0) : Left (initCodec s acts c) := by
  have hready : ∀ (s' : Stream) (acts' : List (Act Res)), s'.running = false →
      Leaves acts' s'.base → s'.spPool.frames ≠ 0 ∧ s'.mpPool.frames ≠ 0 →
      Left { dev := s', phase := .ready, ret := 0, acts := acts' } := by
    intro s' acts' hrun hleaves hframes
    exact ⟨hleaves, hrun, Phase.noConfusion, (fun he => nomatch he), (fun he => nomatch he),
      (fun hne => absurd rfl hne), fun _ => hframes⟩
  cases c with
  | none => exact hready s acts hrunning hacts hpools
  | some c =>
    unfold initCodec
    dsimp only
    by_cases hzero : c.ctx = 0
    · rw [if_pos hzero, List.append_nil]
      rw [base_eq hctx] at hacts
      split_ifs
      · refine left_failed rfl ?_ hrunning ?_
        · simp only [Stream.base, hzero, freed_poolDestroy, named_close]
          simp
        · rw [poolDestroy_acts, poolDestroy_acts, close_acts, close_acts]
          have hperm : (s.spPool.freed ++ s.mpPool.freed ++ s.capDev.named ++ s.pbDev.named).Perm
              ((s.mpPool.freed ++ s.spPool.freed ++ s.capDev.named ++ s.pbDev.named) ++ []) := by
            rw [List.append_nil]
            exact (List.perm_append_comm.append_right _).append_right _
          simpa only [List.map_append, List.append_assoc] using hacts.release hperm
      · refine hready _ _ hrunning ?_ hpools
        rwa [base_eq hzero]
    · have hok : ¬ c.ret < 0 := fun h => hzero (c.fails h)
      rw [if_neg hzero, if_neg hok]
      have hone : Leaves [.acquire (.heap c.ctx)] [Res.heap c.ctx] :=
        ⟨_, rfl, List.Perm.refl _⟩
      refine hready _ _ hrunning ?_ hpools
      have hall := hacts.append hone
      rw [base_eq hctx] at hall
      simp only [Stream.base, if_pos (And.intro hzero (c.kept hzero))]
      simpa only [List.append_assoc] using hall

/-- Two open devices are closed. -/
theorem leaves_closed {cap pb : Port} (hacts : Leaves acts (pb.named ++ cap.named)) :
    Leaves (acts ++ (cap.close.2 ++ pb.close.2)) [] := by
  rw [close_acts, close_acts, ← List.map_append]
  refine hacts.release ?_
  rw [List.append_nil]
  exact List.perm_append_comm

theorem poolInit_leaves (frames : UInt64) (data : List UInt64) :
    ((poolInit false frames data).2.1 = 0 ∧ (poolInit false frames data).1.frames ≠ 0 ∨
        (poolInit false frames data).2.1 = -1 ∧ (poolInit false frames data).1 = .zero) ∧
      Leaves (poolInit false frames data).2.2 (poolInit false frames data).1.freed :=
  poolInit_heap rfl

theorem left_initPools (hrunning : s.running = false) (hctx : s.codecCtx = 0)
    (hmp : s.mpPool = .zero) (hacts : Leaves acts (s.pbDev.named ++ s.capDev.named)) :
    Left (initPools s acts k) := by
  obtain ⟨hspRet, hspLeaves⟩ := poolInit_leaves k.spFrames k.spData
  obtain ⟨hmpRet, hmpLeaves⟩ := poolInit_leaves k.mpFrames k.mpData
  have hzero : PoolMem.zero.freed = [] := rfl
  have hbase : ∀ (cap pb : Port) (sp mp : PoolMem),
      Stream.base { s with capDev := cap, pbDev := pb, spPool := sp, mpPool := mp } =
        sp.freed ++ mp.freed ++ cap.named ++ pb.named := fun _ _ _ _ => base_eq hctx
  have hopened := hacts.append hspLeaves
  unfold initPools
  dsimp only
  split_ifs with hfirst hsecond
  · -- the first pool
    have hnone := (hspRet.resolve_left (fun h => by omega)).2
    refine left_failed rfl ?_ hrunning ?_
    · rw [hbase]
      simp only [hnone, hmp, hzero, named_close, List.append_nil]
    · rw [hnone, hzero, List.nil_append] at hopened
      exact leaves_closed hopened
  · -- the second pool
    have hnone := (hmpRet.resolve_left (fun h => by omega)).2
    refine left_failed rfl ?_ hrunning ?_
    · rw [hbase]
      simp only [hnone, freed_poolDestroy, hzero, named_close, List.append_nil]
    · have hboth := hopened.append hmpLeaves
      rw [hnone, hzero, List.nil_append] at hboth
      rw [poolDestroy_acts]
      exact leaves_closed (hboth.release (List.Perm.refl _))
  · have hframes := And.intro (hspRet.resolve_right (fun h => by omega)).2
      (hmpRet.resolve_right (fun h => by omega)).2
    refine left_initCodec k.codec hrunning hctx ?_ hframes
    rw [hbase]
    obtain ⟨o, ho, hperm⟩ := hopened.append hmpLeaves
    refine ⟨o, ho, hperm.trans ?_⟩
    rw [← List.append_assoc, List.append_assoc _ s.capDev.named]
    exact List.perm_append_comm.append List.perm_append_comm

theorem left_init (k : InitCalls) : Left (init k) := by
  obtain ⟨hcapRet, hcapLeaves⟩ := audioOpen_cases k.cap
  obtain ⟨hpbRet, hpbLeaves⟩ := audioOpen_cases k.pb
  have hzero : PoolMem.zero.freed = [] := rfl
  have hboth := hcapLeaves.append hpbLeaves
  unfold init
  dsimp only
  split_ifs with hcap hpb hperiod
  · have hdev := (hcapRet.resolve_left (fun h => by omega)).2
    rw [hdev] at hcapLeaves ⊢
    refine ⟨hcapLeaves, rfl, Phase.noConfusion, fun _ => rfl, (fun he => nomatch he), ?_,
      (fun he => nomatch he)⟩
    intro _ a ha
    simp [Stream.base, Stream.zero, hzero, Port.named] at ha
  · have hdev := (hpbRet.resolve_left (fun h => by omega)).2
    refine left_failed rfl ?_ rfl ?_
    · rw [base_eq rfl]
      simp only [hdev, Stream.zero, hzero, named_close, named_neg_one, List.append_nil]
    · rw [hdev, named_neg_one, List.nil_append] at hboth
      rw [close_acts]
      exact hboth.release (by rw [List.append_nil])
  · refine left_failed rfl ?_ rfl ?_
    · rw [base_eq rfl]
      simp only [Stream.zero, hzero, named_close, List.append_nil]
    · rw [List.append_assoc]
      exact leaves_closed hboth
  · exact left_initPools rfl rfl rfl hboth

end Init

/-! ## A stream and the rest of the world -/

/-- A thread that was not joined, and its `thread_ctx_t` until it frees it. -/
structure Worker where
  tid : Nat
  ctx : Option UInt64
deriving DecidableEq, Repr

/-- What a thread holds besides itself. -/
def Worker.context (w : Worker) : List Res := (w.ctx.map Res.heap).toList

/-- The thread of a creation. -/
def Create.worker (c : Create) : List Worker := if c.rc = 0 then [⟨c.tid, some c.ctx⟩] else []

/-- A stream, where its `init` returned, the threads of each role that were not joined, whether the
process wrote to NULL, and the book of what the stream and the rest of the world hold. -/
structure Life where
  dev : Stream
  phase : Phase
  workers : Role → List Worker
  faulted : Bool
  book : Book Bool Res

inductive Op where
  | init (k : InitCalls)
  | start (k : Role → Create)
  /-- A thread frees its `thread_ctx_t` and returns. -/
  | ends (x : Role) (i : Nat)
  | stop
  | destroy
  /-- The rest of the world acquires something or releases what it holds. -/
  | other (a : Act Res)

/-- A join waits for its thread to end. -/
def Life.Ended (s : Life) : Prop :=
  s.dev.running = true → ∀ x ∈ roles, ∀ w ∈ s.workers x, w.tid = s.dev.tid x → w.ctx = none

instance (s : Life) : Decidable s.Ended := inferInstanceAs (Decidable (_ → _))

/-- The threads that are left by the joins. -/
def Life.joined (s : Life) : Role → List Worker :=
  if s.dev.running then fun x => (s.workers x).filter fun w => w.tid ≠ s.dev.tid x else s.workers

/-- A process that wrote to NULL is over. -/
def step (s : Life) (op : Op) : Option Life :=
  if s.faulted then none
  else
    match op with
    | .init k =>
      (run (Book.perform true) s.book (init k).acts).map fun b =>
        { s with dev := (init k).dev, phase := (init k).phase, book := b }
    | .start k =>
      (run (Book.perform true) s.book (start k s.dev).2.2).map fun b =>
        if (start k s.dev).2.1 = none then
          { s with dev := (start k s.dev).1, faulted := true, book := b }
        else
          { s with
            dev := (start k s.dev).1
            workers := fun x => s.workers x ++ (k x).worker
            book := b }
    | .ends x i =>
      match (s.workers x)[i]? with
      | some ⟨tid, some a⟩ =>
        (run (Book.perform true) s.book [.release (.heap a)]).map fun b =>
          { s with
            workers := Function.update s.workers x ((s.workers x).set i ⟨tid, none⟩)
            book := b }
      | _ => none
    | .stop =>
      if s.Ended then
        (run (Book.perform true) s.book (stop s.dev).2).map fun b =>
          { s with dev := (stop s.dev).1, workers := s.joined, book := b }
      else none
    | .destroy =>
      if s.Ended then
        (run (Book.perform true) s.book (destroy s.dev).2).map fun b =>
          { s with dev := (destroy s.dev).1, phase := .zeroed, workers := s.joined, book := b }
      else none
    | .other a => (s.book.keep false a).map fun b => { s with book := b }

/-- A stream that was never touched, in a world that holds what it likes. -/
def Life.fresh (holder : Res → Option Bool) : Life :=
  { dev := .zero
    phase := .zeroed
    workers := fun _ => []
    faulted := false
    book := { holder := holder, strays := [] } }

/-- What the fields of the stream name, and the contexts of its threads. -/
def Life.named (s : Life) : List Res :=
  s.dev.named ++ roles.flatMap fun x => (s.workers x).flatMap Worker.context

/-- Nothing foreign was released, what the stream holds is named by its fields or belongs to a
thread of it, no NULL was written to, no role has two threads, and a stream that runs has its
devices and pools. -/
structure Sound (s : Life) : Prop where
  strays : s.book.strays = []
  named : ∀ r, s.book.holder r = some true → r ∈ s.named
  alive : s.faulted = false
  single : ∀ x, (s.workers x).length ≤ 1
  running : s.dev.running = true → s.dev.spPool.frames ≠ 0 ∧ s.dev.mpPool.frames ≠ 0 ∧
    ∀ r ∈ s.dev.base, s.book.holder r = some true

/-- `init` comes before the first use or after `destroy`, or again after it failed; `start` comes
after a complete `init`, finds the stream stopped and gets every context and every thread; and
`destroy` comes after an `init` that opened the capture device. -/
def Careful (s : Life) : Op → Prop
  | .init _ => s.phase ≠ .ready
  | .start k =>
    s.phase = .ready ∧ s.dev.running = false ∧ ∀ x ∈ roles, (k x).ctx ≠ 0 ∧ (k x).rc = 0
  | .destroy => s.phase = .ready ∨ s.phase = .failed
  | .ends _ _ => True
  | .stop => True
  | .other _ => True

instance (s : Life) (op : Op) : Decidable (Careful s op) :=
  match op with
  | .init _ => inferInstanceAs (Decidable (_ ≠ _))
  | .start _ => inferInstanceAs (Decidable (_ ∧ _))
  | .destroy => inferInstanceAs (Decidable (_ ∨ _))
  | .ends _ _ => .isTrue trivial
  | .stop => .isTrue trivial
  | .other _ => .isTrue trivial

/-- The threads that were not joined, and their contexts. -/
def Life.live (s : Life) : List Res :=
  roles.flatMap fun x => (s.workers x).flatMap fun w => .thread w.tid :: w.context

/-- What the stream holds. -/
def Life.own (s : Life) : List Res := (if s.phase = .ready then s.dev.base else []) ++ s.live

structure Inv (s : Life) : Prop where
  accounts : Accounts s.book true s.own
  faulted : s.faulted = false
  idle : s.dev.running = false → ∀ x, s.workers x = []
  working : s.dev.running = true → ∀ x, ∃ ctx, s.workers x = [⟨s.dev.tid x, ctx⟩]
  running : s.dev.running = true → s.phase = .ready
  opened : s.phase = .zeroed ∨ s.phase = .noCapture → s.dev.pbDev.fd = 0
  failed : s.phase = .failed → s.dev.base = []
  empty : s.phase ≠ .ready → s.dev.spPool.frames = 0
  pools : s.phase = .ready → s.dev.spPool.frames ≠ 0 ∧ s.dev.mpPool.frames ≠ 0

section Law

variable {s s' : Life}

theorem mem_roles (x : Role) : x ∈ roles := by
  cases x <;> decide

theorem live_of_idle (h : ∀ x, s.workers x = []) : s.live = [] := by
  simp [Life.live, h]

theorem own_of_idle (h : ∀ x, s.workers x = []) :
    s.own = if s.phase = .ready then s.dev.base else [] := by
  rw [Life.own, live_of_idle h, List.append_nil]

/-- The context of a thread is held. -/
theorem context_mem_own {x : Role} {w : Worker} {r : Res} (hw : w ∈ s.workers x)
    (hr : r ∈ w.context) : r ∈ s.own :=
  List.mem_append_right _ (List.mem_flatMap.mpr
    ⟨x, mem_roles x, List.mem_flatMap.mpr ⟨w, hw, List.mem_cons_of_mem _ hr⟩⟩)

theorem Inv.single (h : Inv s) (x : Role) : (s.workers x).length ≤ 1 := by
  cases hrun : s.dev.running with
  | false =>
    rw [h.idle hrun x]
    exact Nat.zero_le 1
  | true =>
    obtain ⟨ctx, hw⟩ := h.working hrun x
    rw [hw]
    exact Nat.le_refl 1

theorem Inv.sound (h : Inv s) : Sound s := by
  refine ⟨h.accounts.strays, ?_, h.faulted, h.single, ?_⟩
  · intro r hr
    rcases List.mem_append.mp ((h.accounts.holds r).mp hr) with hbase | hlive
    · split_ifs at hbase
      · exact List.mem_append_left _ (List.mem_append_right _ hbase)
      · cases hbase
    obtain ⟨x, hx, hmem⟩ := List.mem_flatMap.mp hlive
    obtain ⟨w, hw, hr⟩ := List.mem_flatMap.mp hmem
    rcases List.mem_cons.mp hr with rfl | hctx
    · cases hrun : s.dev.running with
      | false =>
        rw [h.idle hrun x] at hw
        cases hw
      | true =>
        obtain ⟨ctx, heq⟩ := h.working hrun x
        rw [heq, List.mem_singleton] at hw
        rw [hw]
        refine List.mem_append_left _ (List.mem_append_left _ ?_)
        rw [if_pos hrun]
        exact List.mem_map_of_mem (List.mem_reverse.mpr hx)
    · exact List.mem_append_right _
        (List.mem_flatMap.mpr ⟨x, hx, List.mem_flatMap.mpr ⟨w, hw, hctx⟩⟩)
  · intro hrun
    have hready := h.running hrun
    refine ⟨(h.pools hready).1, (h.pools hready).2, fun r hr => ?_⟩
    refine (h.accounts.holds r).mpr (List.mem_append_left _ ?_)
    rwa [if_pos hready]

/-- A stream that is not set up does not run and holds nothing. -/
theorem Inv.unused (h : Inv s) (hne : s.phase ≠ .ready) :
    s.dev.running = false ∧ (∀ x, s.workers x = []) ∧ s.own = [] := by
  have hidle : s.dev.running = false := by
    cases hrun : s.dev.running with
    | false => rfl
    | true => exact absurd (h.running hrun) hne
  exact ⟨hidle, h.idle hidle, (own_of_idle (h.idle hidle)).trans (if_neg hne)⟩

theorem heap_mem_base {s : Stream} (h : s.spPool.frames ≠ 0) :
    Res.heap s.spPool.frames ∈ s.base := by
  simp [Stream.base, PoolMem.freed, h]

/-- What a process that is not over does. -/
theorem Inv.step_cases (h : Inv s) {op : Op} (hs : step s op = some s') :
    match op with
    | .init k => ∃ b, run (Book.perform true) s.book (init k).acts = some b ∧
        s' = { s with
          dev := (AudioStream.init k).dev
          phase := (AudioStream.init k).phase
          book := b }
    | .start k => ∃ b, run (Book.perform true) s.book (start k s.dev).2.2 = some b ∧
        s' = if (start k s.dev).2.1 = none then
            { s with dev := (start k s.dev).1, faulted := true, book := b }
          else
            { s with
              dev := (start k s.dev).1
              workers := fun x => s.workers x ++ (k x).worker
              book := b }
    | .ends x i => ∃ tid a b, (s.workers x)[i]? = some ⟨tid, some a⟩ ∧
        run (Book.perform true) s.book [.release (.heap a)] = some b ∧
        s' = { s with
          workers := Function.update s.workers x ((s.workers x).set i ⟨tid, none⟩)
          book := b }
    | .stop => s.Ended ∧ ∃ b, run (Book.perform true) s.book (stop s.dev).2 = some b ∧
        s' = { s with dev := (stop s.dev).1, workers := s.joined, book := b }
    | .destroy => s.Ended ∧ ∃ b, run (Book.perform true) s.book (destroy s.dev).2 = some b ∧
        s' = { s with
          dev := (destroy s.dev).1, phase := .zeroed, workers := s.joined, book := b }
    | .other a => ∃ b, s.book.keep false a = some b ∧ s' = { s with book := b } := by
  unfold AudioStream.step at hs
  rw [if_neg (by simp [h.faulted])] at hs
  cases op with
  | init k =>
    obtain ⟨b, hb, rfl⟩ := Option.map_eq_some_iff.mp hs
    exact ⟨b, hb, rfl⟩
  | start k =>
    obtain ⟨b, hb, rfl⟩ := Option.map_eq_some_iff.mp hs
    exact ⟨b, hb, rfl⟩
  | ends x i =>
    dsimp only at hs
    split at hs
    · obtain ⟨b, hb, rfl⟩ := Option.map_eq_some_iff.mp hs
      exact ⟨_, _, b, ‹_›, hb, rfl⟩
    · cases hs
  | stop =>
    dsimp only at hs
    split_ifs at hs with hended
    obtain ⟨b, hb, rfl⟩ := Option.map_eq_some_iff.mp hs
    exact ⟨hended, b, hb, rfl⟩
  | destroy =>
    dsimp only at hs
    split_ifs at hs with hended
    obtain ⟨b, hb, rfl⟩ := Option.map_eq_some_iff.mp hs
    exact ⟨hended, b, hb, rfl⟩
  | other a =>
    obtain ⟨b, hb, rfl⟩ := Option.map_eq_some_iff.mp hs
    exact ⟨b, hb, rfl⟩

/-! ### Init -/

theorem Inv.init (h : Inv s) {k : InitCalls} (hs : step s (.init k) = some s')
    (hne : s.phase ≠ .ready) : Inv s' := by
  obtain ⟨b, hb, rfl⟩ := h.step_cases hs
  obtain ⟨-, hnone, hown⟩ := h.unused hne
  have hleft := left_init k
  obtain ⟨o, ho, hperm⟩ := hleft.leaves
  have hempty : Accounts s.book true [] := hown ▸ h.accounts
  refine ⟨?_, h.faulted, fun _ => hnone, ?_, ?_, ?_, hleft.failed, ?_, hleft.pools⟩
  · refine (hempty.run ho hb).perm (hperm.trans (List.Perm.of_eq (Eq.symm ?_)))
    exact own_of_idle hnone
  · intro hrun
    rw [hleft.running] at hrun
    cases hrun
  · intro hrun
    rw [hleft.running] at hrun
    cases hrun
  · rintro (hphase | hphase)
    · exact absurd hphase hleft.zeroed
    · exact hleft.noCapture hphase
  · intro hphase
    by_contra hframes
    exact hleft.noHeap hphase _ (heap_mem_base hframes)

/-- A second `init` loses the pools of the first one. -/
theorem Inv.init_iff (h : Inv s) {k : InitCalls} (hs : step s (.init k) = some s') :
    Sound s' ↔ s.phase ≠ .ready := by
  refine ⟨?_, fun hne => (h.init hs hne).sound⟩
  intro hsound hready
  obtain ⟨b, hb, rfl⟩ := h.step_cases hs
  have hleft := left_init k
  obtain ⟨o, ho, hperm⟩ := hleft.leaves
  have hbase : Res.heap s.dev.spPool.frames ∈ s.dev.base := heap_mem_base (h.pools hready).1
  have hmem : Res.heap s.dev.spPool.frames ∈ s.own := by
    rw [Life.own, if_pos hready]
    exact List.mem_append_left _ hbase
  have hheld := (h.accounts.holds _).mpr hmem
  rw [← join_nil_own (i := true) s.book] at hb
  obtain ⟨rfl, hapart⟩ := frame apart_nil ho hb
  have hafter : (Book.join s.book.holder true o s.book.strays).holder
      (.heap s.dev.spPool.frames) = some true := by
    show (if _ ∈ o then some true else s.book.holder _) = some true
    rw [hheld, ite_self]
  rcases List.mem_append.mp (hsound.named _ hafter) with hnamed | hctx
  · rw [Stream.named, hleft.running, if_neg Bool.false_ne_true, List.nil_append] at hnamed
    by_cases hphase : (AudioStream.init k).phase = .ready
    · rw [if_pos hphase] at hperm
      rw [hapart.2 _ (hperm.mem_iff.mpr hnamed)] at hheld
      cases hheld
    · exact hleft.noHeap hphase _ hnamed
  · -- no thread has the pool for its context
    have hnodup := h.accounts.nodup
    rw [Life.own, if_pos hready] at hnodup
    obtain ⟨x, hx, hmem⟩ := List.mem_flatMap.mp hctx
    obtain ⟨w, hw, hr⟩ := List.mem_flatMap.mp hmem
    refine List.disjoint_of_nodup_append hnodup hbase ?_
    exact List.mem_flatMap.mpr
      ⟨x, hx, List.mem_flatMap.mpr ⟨w, hw, List.mem_cons_of_mem _ hr⟩⟩

/-! ### Start -/

/-- The contexts, and the threads that are created. -/
def taken (k : Role → Create) (xs : List Role) : List Res :=
  xs.flatMap fun x => .heap (k x).ctx :: if (k x).rc = 0 then [.thread (k x).tid] else []

/-- No creation returns a negative number, so all are tried. -/
theorem startFrom_eq (k : Role → Create) (xs done : List Role) (s : Stream)
    (acts : List (Act Res)) (hctx : ∀ x ∈ xs, (k x).ctx ≠ 0) :
    startFrom k xs done s acts =
      ({ s with
          arg := fun x => if x ∈ xs then (k x).ctx else s.arg x
          tid := fun x => if x ∈ xs ∧ (k x).rc = 0 then (k x).tid else s.tid x },
        some 0, acts ++ (taken k xs).map .acquire) := by
  induction xs generalizing done s acts with
  | nil => simp [startFrom, taken]
  | cons x xs ih =>
    rw [startFrom, if_neg (hctx x List.mem_cons_self)]
    dsimp only
    rw [if_neg (by omega), ih _ _ _ fun y hy => hctx y (List.mem_cons_of_mem x hy)]
    have harg : ∀ y, (if y ∈ xs then (k y).ctx else Function.update s.arg x (k x).ctx y) =
        if y ∈ x :: xs then (k y).ctx else s.arg y := by
      intro y
      by_cases hy : y = x
      · subst hy
        simp
      · simp [hy]
    by_cases hrc : (k x).rc = 0
    · simp only [hrc, if_true, Prod.mk.injEq, true_and]
      refine ⟨?_, by simp [taken, hrc]⟩
      congr 1
      · funext y
        by_cases hy : y = x
        · subst hy
          simp [hrc]
        · simp [hy]
      · exact funext harg
    · simp only [hrc, if_false, Prod.mk.injEq, true_and]
      refine ⟨?_, by simp [taken, hrc]⟩
      congr 1
      · funext y
        by_cases hy : y = x
        · subst hy
          simp [hrc]
        · simp [hy]
      · exact funext harg

/-- A context that `calloc` does not give is written to. -/
theorem startFrom_faults (k : Role → Create) (xs done : List Role) (s : Stream)
    (acts : List (Act Res)) {x : Role} (hx : x ∈ xs) (hctx : (k x).ctx = 0) :
    (startFrom k xs done s acts).2.1 = none := by
  induction xs generalizing done s acts with
  | nil => cases hx
  | cons y xs ih =>
    rw [startFrom]
    by_cases hy : (k y).ctx = 0
    · rw [if_pos hy]
    · rw [if_neg hy]
      dsimp only
      rw [if_neg (by omega)]
      rcases List.mem_cons.mp hx with rfl | hmem
      · exact absurd hctx hy
      · exact ih _ _ _ hmem

variable {k : Role → Create}

theorem start_eq (s : Stream) (hctx : ∀ x ∈ roles, (k x).ctx ≠ 0) :
    start k s =
      ({ s with
          running := true
          arg := fun x => (k x).ctx
          tid := fun x => if (k x).rc = 0 then (k x).tid else s.tid x },
        some 0, (taken k roles).map .acquire) := by
  rw [start, startFrom_eq k roles [] _ _ hctx]
  simp only [mem_roles, true_and, if_true, List.nil_append]

/-- A start that gets its contexts. -/
theorem Inv.start_cases (h : Inv s) (hs : step s (.start k) = some s')
    (hctx : ∀ x ∈ roles, (k x).ctx ≠ 0) :
    Accounts s'.book true ((taken k roles).reverse ++ s.own) ∧
      s' =
        { s with
          dev := (AudioStream.start k s.dev).1
          workers := fun x => s.workers x ++ (k x).worker
          book := s'.book } := by
  obtain ⟨b, hb, rfl⟩ := h.step_cases hs
  rw [start_eq s.dev hctx] at hb ⊢
  rw [if_neg (Option.some_ne_none _)]
  refine ⟨h.accounts.run ?_ hb, rfl⟩
  rw [← List.append_nil ((taken k roles).map Act.acquire), run_within_acquire]
  rfl

/-- The contexts of three threads are three. -/
theorem ctx_injective (hnodup : (taken k roles).Nodup) {x y : Role}
    (heq : (k x).ctx = (k y).ctx) : x = y := by
  have hsub : (roles.map fun x => Res.heap (k x).ctx).Sublist (taken k roles) := by
    rw [List.map_eq_flatMap]
    refine List.Sublist.flatMap_right roles fun x _ => ?_
    exact List.cons_sublist_cons.mpr (List.nil_sublist _)
  refine List.inj_on_of_nodup_map (hnodup.sublist hsub) (mem_roles x) (mem_roles y) ?_
  rw [heq]

theorem context_worker {c : Create} {w : Worker} {r : Res} (hw : w ∈ c.worker)
    (hr : r ∈ w.context) : c.rc = 0 ∧ r = .heap c.ctx := by
  unfold Create.worker at hw
  split_ifs at hw with hrc
  · rw [List.mem_singleton.mp hw] at hr
    exact ⟨hrc, List.mem_singleton.mp hr⟩
  · cases hw

/-- The context of a thread that was not created is lost. -/
theorem Inv.start_lost (h : Inv s) (hs : step s (.start k) = some s') (hready : s.phase = .ready)
    (hctx : ∀ x ∈ roles, (k x).ctx ≠ 0) (hsound : Sound s') (x : Role) : (k x).rc = 0 := by
  by_contra hrc
  obtain ⟨haccounts, hs'⟩ := h.start_cases hs hctx
  obtain ⟨hfresh, -, hapart⟩ := List.nodup_append'.mp haccounts.nodup
  have htaken : Res.heap (k x).ctx ∈ taken k roles :=
    List.mem_flatMap.mpr ⟨x, mem_roles x, List.mem_cons_self⟩
  have hnot : Res.heap (k x).ctx ∉ s.own := hapart (List.mem_reverse.mpr htaken)
  have hheld : s'.book.holder (.heap (k x).ctx) = some true :=
    (haccounts.holds _).mpr (List.mem_append_left _ (List.mem_reverse.mpr htaken))
  have hnamed := hsound.named _ hheld
  rw [hs', Life.named] at hnamed
  rcases List.mem_append.mp hnamed with hdev | hworker
  · rw [start_eq s.dev hctx] at hdev
    rcases List.mem_append.mp hdev with hthread | hbase
    · simp [Stream.threads] at hthread
    · refine hnot (List.mem_append_left _ ?_)
      rwa [if_pos hready]
  · obtain ⟨y, -, hmem⟩ := List.mem_flatMap.mp hworker
    obtain ⟨w, hw, hr⟩ := List.mem_flatMap.mp hmem
    rcases List.mem_append.mp hw with hold | hnew
    · exact hnot (context_mem_own hold hr)
    · obtain ⟨hy, heq⟩ := context_worker hnew hr
      have hsame : x = y := ctx_injective (List.nodup_reverse.mp hfresh) (Res.heap.inj heq)
      rw [hsame] at hrc
      exact hrc hy

theorem Inv.start (h : Inv s) (hs : step s (.start k) = some s')
    (hc : Careful s (.start k)) : Inv s' := by
  obtain ⟨hready, hidle, hall⟩ := hc
  have hctx : ∀ x ∈ roles, (k x).ctx ≠ 0 := fun x hx => (hall x hx).1
  have hnone := h.idle hidle
  obtain ⟨haccounts, hs'⟩ := h.start_cases hs hctx
  have hworkers : ∀ x, s'.workers x = [⟨(k x).tid, some (k x).ctx⟩] := by
    intro x
    rw [hs']
    show s.workers x ++ (k x).worker = _
    rw [hnone x, Create.worker, if_pos (hall x (mem_roles x)).2, List.nil_append]
  have hdev : s'.dev = (AudioStream.start k s.dev).1 := by rw [hs']
  have hphase : s'.phase = .ready := by rw [hs', ← hready]
  rw [start_eq s.dev hctx] at hdev
  refine ⟨haccounts.perm ?_, ?_, ?_, ?_, fun _ => hphase, ?_, ?_, ?_, ?_⟩
  · have hlive : s'.live.Perm (taken k roles) := by
      refine List.Perm.flatMap_left roles fun x hx => ?_
      rw [hworkers x, if_pos (hall x hx).2]
      exact List.Perm.swap _ _ _
    rw [own_of_idle hnone, if_pos hready, Life.own, if_pos hphase, hdev]
    exact ((List.reverse_perm _).trans hlive.symm).append_right _ |>.trans
      List.perm_append_comm
  · rw [hs']
    exact h.faulted
  · intro hstopped
    rw [hdev] at hstopped
    cases hstopped
  · intro _ x
    refine ⟨some (k x).ctx, ?_⟩
    rw [hworkers x, hdev]
    show _ = [Worker.mk (if (k x).rc = 0 then (k x).tid else s.dev.tid x) _]
    rw [if_pos (hall x (mem_roles x)).2]
  · rintro (hno | hno)
    · exact absurd (hphase.symm.trans hno) Phase.noConfusion
    · exact absurd (hphase.symm.trans hno) Phase.noConfusion
  · exact fun hno => absurd (hphase.symm.trans hno) Phase.noConfusion
  · exact fun hne => absurd hphase hne
  · intro _
    rw [hdev]
    exact h.pools hready

/-- Without a context NULL is written to, without pools nothing can run, the context of a thread
that is not created is lost, and a stream that runs gets a second thread in each role. -/
theorem Inv.start_iff (h : Inv s) (hs : step s (.start k) = some s') :
    Sound s' ↔ Careful s (.start k) := by
  refine ⟨?_, fun hc => (h.start hs hc).sound⟩
  intro hsound
  have hctx : ∀ x ∈ roles, (k x).ctx ≠ 0 := by
    intro x hx hzero
    obtain ⟨b, -, rfl⟩ := h.step_cases hs
    have hfaults : (AudioStream.start k s.dev).2.1 = none :=
      startFrom_faults k roles [] _ [] hx hzero
    have halive := hsound.alive
    rw [if_pos hfaults] at halive
    cases halive
  obtain ⟨-, hs'⟩ := h.start_cases hs hctx
  have hready : s.phase = .ready := by
    by_contra hne
    have hrun : s'.dev.running = true := by
      rw [hs', start_eq s.dev hctx]
    have hframes := (hsound.running hrun).1
    rw [hs', start_eq s.dev hctx] at hframes
    exact hframes (h.empty hne)
  have hrc := h.start_lost hs hready hctx hsound
  refine ⟨hready, ?_, fun x hx => ⟨hctx x hx, hrc x⟩⟩
  by_contra hrun
  obtain ⟨ctx, hw⟩ := h.working (Bool.not_eq_false _ ▸ hrun) .capture
  have hone := hsound.single .capture
  rw [hs'] at hone
  simp [hw, Create.worker, hrc .capture] at hone

/-! ### Threads that end -/

/-- One role gives something up. -/
theorem flatMap_update_perm (x : Role) (f : Role → List Res) {l : List Res} {r : Res}
    (h : (f x).Perm (r :: l)) :
    (roles.flatMap f).Perm (r :: roles.flatMap (Function.update f x l)) := by
  have hroles := List.perm_cons_erase (mem_roles x)
  have hrest : (roles.erase x).flatMap f = (roles.erase x).flatMap (Function.update f x l) := by
    refine List.flatMap_congr fun y hy => ?_
    have hne : y ≠ x := fun he =>
      List.Nodup.not_mem_erase (by decide : roles.Nodup) (he ▸ hy)
    rw [Function.update_of_ne hne]
  refine (hroles.flatMap_right f).trans ?_
  refine List.Perm.trans ?_ ((hroles.flatMap_right (Function.update f x l)).symm.cons r)
  rw [List.flatMap_cons, List.flatMap_cons, Function.update_self, hrest]
  exact h.append_right _

theorem Inv.ends (h : Inv s) {x : Role} {i : Nat} (hs : step s (.ends x i) = some s') : Inv s' := by
  obtain ⟨tid, a, b, hget, hb, rfl⟩ := h.step_cases hs
  have hrun : s.dev.running = true := by
    by_contra hidle
    rw [h.idle (Bool.not_eq_true _ ▸ hidle) x] at hget
    cases hget
  obtain ⟨ctx, hw⟩ := h.working hrun x
  have hzero : i = 0 := by
    rw [hw] at hget
    cases i with
    | zero => rfl
    | succ i => cases hget
  subst hzero
  rw [hw] at hget ⊢
  cases hget
  have hlive : s.live.Perm (Res.heap a :: Life.live
      { s with workers := Function.update s.workers x [⟨s.dev.tid x, none⟩] }) := by
    have hone : ((s.workers x).flatMap fun w => Res.thread w.tid :: w.context).Perm
        (Res.heap a :: [Res.thread (s.dev.tid x)]) := by
      rw [hw]
      exact List.Perm.swap _ _ _
    refine (flatMap_update_perm x _ hone).trans (List.Perm.of_eq ?_)
    refine congrArg _ (List.flatMap_congr fun y _ => ?_)
    by_cases hy : y = x
    · subst hy
      simp only [Function.update_self]
      rfl
    · simp only [Function.update_of_ne hy]
  have hown : s.own.Perm ([Res.heap a] ++ Life.own
      { s with workers := Function.update s.workers x [⟨s.dev.tid x, none⟩] }) :=
    (hlive.append_left _).trans List.perm_middle
  obtain ⟨o, ho, hperm⟩ := run_within_of_perm hown
  refine ⟨(h.accounts.run ho hb).perm hperm, h.faulted, ?_, ?_, h.running, h.opened, h.failed,
    h.empty, h.pools⟩
  · intro hidle
    exact absurd (hrun.symm.trans hidle) Bool.true_eq_false.mp
  · intro _ y
    by_cases hy : y = x
    · subst hy
      exact ⟨none, Function.update_self _ _ _⟩
    · obtain ⟨ctx, hother⟩ := h.working hrun y
      exact ⟨ctx, (Function.update_of_ne hy _ _).trans hother⟩

/-! ### Stop and destroy -/

theorem stop_acts (s : Stream) :
    (stop s).2 = (if s.running then s.threads else []).map .release := by
  unfold stop
  cases s.running <;> rfl

theorem stop_dev (s : Stream) : (stop s).1 = { s with running := false } := by
  cases hrun : s.running with
  | false =>
    cases s
    cases hrun
    rfl
  | true =>
    unfold stop
    rw [hrun]
    rfl

/-- What the joins release, and what is left. -/
theorem Inv.own_perm (h : Inv s) (hended : s.Ended) :
    s.own.Perm ((if s.dev.running then s.dev.threads else []) ++
      if s.phase = .ready then s.dev.base else []) := by
  cases hrun : s.dev.running with
  | false =>
    rw [own_of_idle (h.idle hrun)]
    exact List.Perm.refl _
  | true =>
    have hlive : s.live = roles.map fun x => Res.thread (s.dev.tid x) := by
      rw [List.map_eq_flatMap]
      refine List.flatMap_congr fun x hx => ?_
      obtain ⟨ctx, hw⟩ := h.working hrun x
      have hnone : ctx = none := hended hrun x hx ⟨s.dev.tid x, ctx⟩ (by simp [hw]) rfl
      rw [hw, hnone]
      rfl
    rw [Life.own, hlive, if_pos rfl, Stream.threads, List.map_reverse]
    exact List.perm_append_comm.trans ((List.reverse_perm _).symm.append_right _)

theorem Inv.joined (h : Inv s) (x : Role) : s.joined x = [] := by
  unfold Life.joined
  cases hrun : s.dev.running with
  | false =>
    rw [if_neg Bool.false_ne_true]
    exact h.idle hrun x
  | true =>
    obtain ⟨ctx, hw⟩ := h.working hrun x
    rw [if_pos rfl]
    simp [hw]

theorem Inv.stop (h : Inv s) (hs : step s .stop = some s') : Inv s' := by
  obtain ⟨hended, b, hb, rfl⟩ := h.step_cases hs
  rw [stop_acts] at hb
  obtain ⟨o, ho, hperm⟩ := run_within_of_perm (h.own_perm hended)
  rw [stop_dev]
  refine ⟨?_, h.faulted, fun _ => h.joined, ?_, ?_, h.opened, h.failed, h.empty, h.pools⟩
  · refine (h.accounts.run ho hb).perm (hperm.trans (List.Perm.of_eq (Eq.symm ?_)))
    exact own_of_idle h.joined
  · exact fun hrun => absurd hrun Bool.false_ne_true
  · exact fun hrun => absurd hrun Bool.false_ne_true

theorem Inv.destroy (h : Inv s) (hs : step s .destroy = some s') (hc : Careful s .destroy) :
    Inv s' := by
  obtain ⟨hended, b, hb, rfl⟩ := h.step_cases hs
  rw [destroy_acts] at hb
  have hbase : (if s.phase = .ready then s.dev.base else []) = s.dev.base := by
    rcases hc with hphase | hphase
    · exact if_pos hphase
    · rw [h.failed hphase, ite_self]
  have hall : s.own.Perm (s.dev.named ++ []) := by
    have hperm := h.own_perm hended
    rwa [hbase, ← List.append_nil (_ ++ _)] at hperm
  obtain ⟨o, ho, hperm⟩ := run_within_of_perm hall
  refine ⟨?_, h.faulted, fun _ => h.joined, ?_, ?_, fun _ => rfl, ?_, fun _ => rfl, ?_⟩
  · refine (h.accounts.run ho hb).perm (hperm.trans (List.Perm.of_eq (Eq.symm ?_)))
    exact own_of_idle h.joined
  · exact fun hrun => absurd hrun Bool.false_ne_true
  · exact fun hrun => absurd hrun Bool.false_ne_true
  · exact fun hphase => absurd hphase Phase.noConfusion
  · exact fun hphase => absurd hphase Phase.noConfusion

/-- A struct of zeros names descriptor 0 twice, and one without a capture device names it once. -/
theorem Inv.destroy_iff (h : Inv s) (hs : step s .destroy = some s') :
    Sound s' ↔ Careful s .destroy := by
  refine ⟨?_, fun hc => (h.destroy hs hc).sound⟩
  intro hsound
  obtain ⟨-, b, hb, rfl⟩ := h.step_cases hs
  rw [destroy_acts] at hb
  by_contra hphase
  obtain ⟨hready, hfailed⟩ := not_or.mp hphase
  have hfd : s.dev.pbDev.fd = 0 := by
    refine h.opened ?_
    cases hp : s.phase with
    | zeroed => exact Or.inl rfl
    | noCapture => exact Or.inr rfl
    | failed => exact absurd hp hfailed
    | ready => exact absurd hp hready
  have hmem : Res.fd 0 ∈ s.dev.named := by
    refine List.mem_append_right _ (List.mem_append_right _ ?_)
    simp [Port.named, hfd]
  obtain ⟨-, -, hown⟩ := h.unused hready
  cases hw : run Act.within s.own (s.dev.named.map .release) with
  | none => exact h.accounts.strays_of_none hw hb hsound.strays
  | some own =>
    have hperm := run_within_release hw
    rw [hown] at hperm
    exact absurd (hperm.mem_iff.mpr (List.mem_append_left own hmem)) List.not_mem_nil

/-! ### The rest of the world -/

theorem Inv.other {a : Act Res} (h : Inv s) (hs : step s (.other a) = some s') : Inv s' := by
  obtain ⟨b, hb, rfl⟩ := h.step_cases hs
  exact ⟨h.accounts.keep Bool.true_eq_false.mp hb, h.faulted, h.idle, h.working, h.running,
    h.opened, h.failed, h.empty, h.pools⟩

theorem Inv.step_iff {op : Op} (h : Inv s) (hs : step s op = some s') :
    Sound s' ↔ Careful s op := by
  cases op with
  | init k => exact h.init_iff hs
  | start k => exact h.start_iff hs
  | ends x i => exact iff_of_true (h.ends hs).sound trivial
  | stop => exact iff_of_true (h.stop hs).sound trivial
  | destroy => exact h.destroy_iff hs
  | other a => exact iff_of_true (h.other hs).sound trivial

theorem Inv.step {op : Op} (h : Inv s) (hc : Careful s op) (hs : step s op = some s') : Inv s' := by
  cases op with
  | init k => exact h.init hs hc
  | start k => exact h.start hs hc
  | ends x i => exact h.ends hs
  | stop => exact h.stop hs
  | destroy => exact h.destroy hs hc
  | other a => exact h.other hs

theorem inv_fresh {holder : Res → Option Bool} (hfree : ∀ r, holder r ≠ some true) :
    Inv (.fresh holder) where
  accounts := ⟨rfl, fun r => iff_of_false (hfree r) List.not_mem_nil, List.nodup_nil⟩
  faulted := rfl
  idle := fun _ _ => rfl
  working := fun hrun => absurd hrun Bool.false_ne_true
  running := fun hrun => absurd hrun Bool.false_ne_true
  opened := fun _ => rfl
  failed := fun hphase => absurd hphase Phase.noConfusion
  empty := fun _ => rfl
  pools := fun hphase => absurd hphase Phase.noConfusion

end Law

/-- **The life of a stream.** Let the calls of an audio stream, with any results of all that they
call, be interleaved with the ends of its threads and whatever else acquires and releases resources.
The stream never releases what is not its own, loses nothing, writes to no NULL, has at most one
thread in each role, and runs only with its devices and pools, if and only if no stream is set up
that is set up already, none is started that is not or that runs, `calloc` gives the context and
`pthread_create` the thread of each role, and none is destroyed whose capture device was never
opened. -/
theorem stream_sound_iff (holder : Res → Option Bool) (hfree : ∀ r, holder r ≠ some true)
    (ops : List Op) (s : Life) (hrun : run step (.fresh holder) ops = some s) :
    Meets step (fun s op => ∀ s', step s op = some s' → Sound s') (.fresh holder) ops ↔
      Meets step Careful (.fresh holder) ops := by
  refine meets_iff_of_invariant (I := Inv) ?_ (fun _ _ _ ht hc hs => ht.step hc hs)
    (inv_fresh hfree) hrun
  intro t op t' ht hs
  simp only [hs, Option.some.injEq, forall_eq']
  exact ht.step_iff hs

/-- A stream whose codec first fails to start, and that then runs once and is destroyed, while
another program takes the memory that the first thread to end gives back and a descriptor. -/
def encoded : List Op :=
  let opened (n : Nat) : AudioCalls :=
    { fd := some n, hwRefine := true, hwParams := true, swParams := true, prepare := true }
  let calls (codec : CodecCalls) : InitCalls :=
    { cap := opened 3, pb := opened 4, samePeriod := true, spFrames := 64
      spData := [128, 192], mpFrames := 256, mpData := [320, 384], codec := some codec }
  [.init (calls { ret := -22, ctx := 0, destroys := true, fails := fun _ => rfl
                  kept := fun _ => rfl }),
    .init (calls { ret := 0, ctx := 448, destroys := true, fails := fun h => absurd h (by decide)
                   kept := fun _ => rfl }),
    .start fun | .playback => ⟨512, 0, 11⟩ | .codec => ⟨576, 0, 12⟩ | .capture => ⟨640, 0, 13⟩,
    .ends .capture 0, .other (.acquire (.heap 640)), .ends .codec 0, .ends .playback 0,
    .stop, .destroy, .other (.acquire (.fd 3))]

theorem stream_sound_iff_encoded :
    Meets step (fun s op => ∀ s', step s op = some s' → Sound s') (.fresh fun _ => none) encoded :=
  (stream_sound_iff (fun _ => none) (fun _ h => nomatch h) encoded _ rfl).mpr (by decide)

end AudioStream
end BuildingBlocks
