import BuildingBlocks.Audio.Bounds
import BuildingBlocks.Pool.Calls

/-!
# BuildingBlocks.Audio.Pipeline

The threads of `middleware/bb_audio_stream.c` and the two calls that start and stop them, one step
for each atomic operation.

* `capStep`, `codecStep`, `pbStep` are the three threads. A pool function is one step of the pool
  for each step of the thread (`Pool.Calls`), so the state holds both pools as they are.
* `mainStep` is `bb_audio_stream_start` and `bb_audio_stream_stop`, called by one thread.
* `step` is any interleaving. The label carries what comes from outside: the result of a read, of
  the codec, of a write, of `pthread_create`.
-/

namespace BuildingBlocks
namespace Audio

open Pool

/-- What the threads fill in and read of a frame. `shutdown` is history: the frame is the one
`codec_thread_fn` posts last. -/
structure Body where
  data : List UInt8
  size : Nat
  pts : Nat
  frameNum : Nat
  shutdown : Bool
deriving DecidableEq, Repr

/-- What the threads read of the stream. -/
structure Setup where
  cfg : Config
  periodFrames : UInt32
  hasCodec : Bool
deriving DecidableEq, Repr

/-- The default configuration without a codec. -/
def stereoSetup : Setup where
  cfg := { rate := 48000, channels := 2, fmt := .s16 }
  periodFrames := 480
  hasCodec := false

/-- `-EPIPE`. -/
def epipe : Int := -32

/-- What `bb_audio_read` returns and leaves in the buffer. -/
structure Read where
  n : Int
  data : List UInt8
deriving DecidableEq, Repr

/-- What the `encode` of the codec returns and leaves in its buffers. -/
structure Encode where
  ret : Int
  data : List UInt8
  outLen : Nat
deriving DecidableEq, Repr

/-- Where `capture_thread_fn` stands. -/
inductive CapPc where
  /-- not created by this start -/
  | off
  | top
  | acquire
  /-- no frame, before `drop_frames` is counted -/
  | full
  | discard
  | read
  | count (n : UInt32)
  | commit
  /-- the read failed with `n` -/
  | release (n : Int)
  /-- before `error` is set -/
  | fail
  | done
deriving DecidableEq, Repr

/-- Where `codec_thread_fn` stands. `f` is the frame it has from the capture thread. -/
inductive CodecPc where
  | off
  | top
  | dequeue
  | acquire (f : Int)
  /-- no frame, before `drop_frames` is counted -/
  | full (f : Int)
  | fullRelease (f : Int)
  | encode (f : Int)
  | release (f : Int)
  | enqueue
  | drain
  | drainRelease (f : Int)
  /-- in attempt `retry` to acquire a frame for the sentinel -/
  | post (retry : Nat)
  | sentinel
  | sentinelEnqueue
  | done
deriving DecidableEq, Repr

/-- Why `playback_thread_fn` left its loop. -/
inductive Reason where
  | flag
  | sentinel
  | fatal
deriving DecidableEq, Repr

/-- Where `playback_thread_fn` stands. -/
inductive PbPc where
  | off
  | top
  | dequeue
  | test
  | write
  /-- before `pb_frames` is counted -/
  | stat (n : UInt32)
  | release
  /-- before the release that precedes `break` -/
  | leave (why : Reason)
  | done (why : Reason)
deriving DecidableEq, Repr

def PbPc.isDone : PbPc → Bool
  | .done _ => true
  | _ => false

/-- Where the thread that calls `bb_audio_stream_start` and `bb_audio_stream_stop` stands. -/
inductive MainPc where
  | idle
  | spawnPb
  | spawnCodec
  | spawnCap
  /-- in the failure paths of `bb_audio_stream_start` -/
  | unwindCodec
  | unwindPb
  /-- `bb_audio_stream_start` returned -1 -/
  | failed
  /-- `bb_audio_stream_start` returned 0 -/
  | started
  | joinCap
  | joinCodec
  | joinPb
  /-- `bb_audio_stream_stop` returned -/
  | stopped
deriving DecidableEq, Repr

/-- `bb_audio_stream_t`, and where every thread stands. `reads` counts the periods read since the
start, `results` what `pthread_create` returned since then; both are history. -/
structure Pipeline (N : Nat) where
  sp : Spsc Body
  mp : Mpsc Unit Body N
  running : Bool
  error : Bool
  capFrames : UInt32
  pbFrames : UInt32
  dropFrames : UInt32
  main : MainPc
  cap : CapPc
  capXrun : Nat
  codec : CodecPc
  pb : PbPc
  pbXrun : Nat
  reads : Nat
  results : List Int

inductive Act where
  | start
  /-- `pthread_create` returned `rc` -/
  | spawn (rc : Int)
  | stop
  | join
  | cap (r : Read)
  | codec (e : Encode)
  /-- `w` is what `bb_audio_write` returns -/
  | pb (w : Int)
deriving DecidableEq, Repr

/-- `memcpy`. -/
def copyInto (dst src : List UInt8) (n : Nat) : List UInt8 := src.take n ++ dst.drop n

/-- The frame of the codec thread after `encode` or the copy. -/
def encoded (c : Setup) (src dst : Body) (e : Encode) : Body where
  data := if c.hasCodec then e.data else copyInto dst.data src.data src.size
  size := if c.hasCodec then (if e.ret = 0 then e.outLen else 0) else src.size
  pts := src.pts
  frameNum := src.frameNum
  shutdown := false

/-- The frames `playback_thread_fn` asks `bb_audio_write` to play. -/
def playFrames (c : Setup) (b : Body) : UInt32 :=
  UInt32.ofNat (b.size / (c.cfg.channels * c.cfg.fmt.bytes).toNat)

namespace Pipeline

variable {N : Nat}

/-- After `bb_audio_stream_init`. -/
def init (spBody : Int → Body) (mpBody : Fin N → Body) : Pipeline N where
  sp := Spsc.init spBody
  mp := Mpsc.init mpBody
  running := false
  error := false
  capFrames := 0
  pbFrames := 0
  dropFrames := 0
  main := .idle
  cap := .off
  capXrun := 0
  codec := .off
  pb := .off
  pbXrun := 0
  reads := 0
  results := []

/-- `capture_thread_fn`. -/
def capStep (c : Setup) (s : Pipeline N) (r : Read) : Option (Pipeline N) :=
  match s.cap with
  | .top => some { s with cap := if s.running then .acquire else .done }
  | .acquire =>
    (Spsc.step N s.sp (Spsc.acquireOp s.sp.prod)).map fun sp =>
      { s with
        sp := sp
        cap := match Spsc.acquireCall sp.prod with
          | .inside => .acquire
          | .returned none => .full
          | .returned (some _) => .read }
  | .full => some { s with dropFrames := s.dropFrames + c.periodFrames, cap := .discard }
  | .discard =>
    let reads := if 0 ≤ r.n then s.reads + 1 else s.reads
    if r.n = epipe ∧ s.capXrun + 1 > 10 then
      some { s with reads := reads, capXrun := s.capXrun + 1, cap := .fail }
    else some { s with reads := reads, capXrun := 0, cap := .top }
  | .read =>
    if r.n < 0 then some { s with cap := .release r.n }
    else
      let n := UInt32.ofNat r.n.toNat
      match s.sp.prod with
      | .owns idx =>
        let body := { (s.sp.frames idx).body with
          data := r.data
          size := (framesToBytes n c.cfg.channels c.cfg.fmt).toNat }
        (Spsc.step N s.sp (.fill body)).map fun sp =>
          { s with sp := sp, reads := s.reads + 1, capXrun := 0, cap := .count n }
      | _ => none
  | .count n => some { s with capFrames := s.capFrames + n, cap := .commit }
  | .commit => (Spsc.step N s.sp .commit).map fun sp => { s with sp := sp, cap := .top }
  | .release n =>
    (Spsc.step N s.sp .abandon).map fun sp =>
      if n = epipe then
        { s with
          sp := sp
          capXrun := s.capXrun + 1
          cap := if s.capXrun + 1 > 10 then .fail else .top }
      else { s with sp := sp, cap := .fail }
  | .fail => some { s with error := true, cap := .done }
  | .off | .done => none

/-- `codec_thread_fn`. -/
def codecStep (c : Setup) (s : Pipeline N) (e : Encode) : Option (Pipeline N) :=
  match s.codec with
  | .top => some { s with codec := if s.running then .dequeue else .drain }
  | .dequeue =>
    (Spsc.step N s.sp (Spsc.dequeueOp s.sp.cons)).map fun sp =>
      { s with
        sp := sp
        codec := match Spsc.dequeueCall s.sp.cons sp.cons with
          | .inside => .dequeue
          | .returned none => .top
          | .returned (some f) => .acquire f }
  | .acquire f =>
    (Mpsc.step s.mp (Mpsc.acquireOp () (s.mp.prod ()))).map fun mp =>
      { s with
        mp := mp
        codec := match Mpsc.acquireCall (mp.prod ()) with
          | .inside => .acquire f
          | .returned none => .full f
          | .returned (some _) => .encode f }
  | .full f => some { s with dropFrames := s.dropFrames + c.periodFrames, codec := .fullRelease f }
  | .fullRelease f =>
    (Spsc.step N s.sp (.release f)).map fun sp => { s with sp := sp, codec := .top }
  | .encode f =>
    match s.mp.prod () with
    | .owns i =>
      (Mpsc.step s.mp (.fill () (encoded c (s.sp.frames f).body (s.mp.frames i).body e))).map
        fun mp => { s with mp := mp, codec := .release f }
    | _ => none
  | .release f =>
    (Spsc.step N s.sp (.release f)).map fun sp => { s with sp := sp, codec := .enqueue }
  | .enqueue =>
    (Mpsc.step s.mp (Mpsc.enqueueOp () (s.mp.prod ()))).map fun mp =>
      { s with
        mp := mp
        codec := match Mpsc.enqueueCall (mp.prod ()) with
          | .inside => .enqueue
          | .returned _ => .top }
  | .drain =>
    (Spsc.step N s.sp (Spsc.dequeueOp s.sp.cons)).map fun sp =>
      { s with
        sp := sp
        codec := match Spsc.dequeueCall s.sp.cons sp.cons with
          | .inside => .drain
          | .returned none => .post 0
          | .returned (some f) => .drainRelease f }
  | .drainRelease f =>
    (Spsc.step N s.sp (.release f)).map fun sp => { s with sp := sp, codec := .drain }
  | .post retry =>
    (Mpsc.step s.mp (Mpsc.acquireOp () (s.mp.prod ()))).map fun mp =>
      { s with
        mp := mp
        codec := match Mpsc.acquireCall (mp.prod ()) with
          | .inside => .post retry
          | .returned none => if retry + 1 < 100 then .post (retry + 1) else .done
          | .returned (some _) => .sentinel }
  | .sentinel =>
    match s.mp.prod () with
    | .owns i =>
      (Mpsc.step s.mp (.fill () { (s.mp.frames i).body with size := 0, shutdown := true })).map
        fun mp => { s with mp := mp, codec := .sentinelEnqueue }
    | _ => none
  | .sentinelEnqueue =>
    (Mpsc.step s.mp (Mpsc.enqueueOp () (s.mp.prod ()))).map fun mp =>
      { s with
        mp := mp
        codec := match Mpsc.enqueueCall (mp.prod ()) with
          | .inside => .sentinelEnqueue
          | .returned _ => .done }
  | .off | .done => none

/-- `playback_thread_fn`. -/
def pbStep (c : Setup) (s : Pipeline N) (w : Int) : Option (Pipeline N) :=
  match s.pb with
  | .top => some { s with pb := if s.running then .dequeue else .done .flag }
  | .dequeue =>
    (Mpsc.step s.mp (Mpsc.dequeueOp s.mp.cons)).map fun mp =>
      { s with
        mp := mp
        pb := match Mpsc.dequeueCall mp.cons with
          | .inside => .dequeue
          | .returned none => .top
          | .returned (some _) => .test }
  | .test =>
    match s.mp.cons with
    | .holds i =>
      some { s with pb := if (s.mp.frames i).body.size = 0 then .leave .sentinel else .write }
    | _ => none
  | .write =>
    match s.mp.cons with
    | .holds i =>
      if w < 0 then
        if w ≠ epipe then some { s with error := true, pb := .leave .fatal }
        else if s.pbXrun + 1 > 10 then
          some { s with pbXrun := s.pbXrun + 1, error := true, pb := .leave .fatal }
        else some { s with pbXrun := s.pbXrun + 1, pb := .release }
      -- a write takes at most what it is given
      else if w ≤ (playFrames c (s.mp.frames i).body).toNat then
        some { s with pbXrun := 0, pb := .stat (UInt32.ofNat w.toNat) }
      else none
    | _ => none
  | .stat n => some { s with pbFrames := s.pbFrames + n, pb := .release }
  | .release => (Mpsc.step s.mp .release).map fun mp => { s with mp := mp, pb := .top }
  | .leave why => (Mpsc.step s.mp .release).map fun mp => { s with mp := mp, pb := .done why }
  | .off | .done _ => none

/-- Where a thread stands right after `pthread_create` returned `rc`. -/
def spawned {γ : Type} (rc : Int) (off top : γ) : γ := if rc = 0 then top else off

/-- `bb_audio_stream_start` up to the first `bb_thread_spawn`. -/
def startStores (s : Pipeline N) : Pipeline N :=
  { s with
    running := true
    error := false
    capFrames := 0
    pbFrames := 0
    dropFrames := 0
    cap := .off
    capXrun := 0
    codec := .off
    pb := .off
    pbXrun := 0
    reads := 0
    results := []
    main := .spawnPb }

/-- A `bb_thread_spawn` in `bb_audio_stream_start` and the test of its result. -/
def spawnStep (s : Pipeline N) (rc : Int) : Option (Pipeline N) :=
  let s := { s with results := s.results ++ [rc] }
  match s.main with
  | .spawnPb =>
    if rc < 0 then some { s with running := false, main := .failed }
    else some { s with pb := spawned rc .off .top, main := .spawnCodec }
  | .spawnCodec =>
    if rc < 0 then some { s with running := false, main := .unwindPb }
    else some { s with codec := spawned rc .off .top, main := .spawnCap }
  | .spawnCap =>
    if rc < 0 then some { s with running := false, main := .unwindCodec }
    else some { s with cap := spawned rc .off .top, main := .started }
  | _ => none

/-- A `bb_thread_join` returns when the thread has ended; of a thread that was never created it
has no meaning. -/
def joinStep (s : Pipeline N) : Option (Pipeline N) :=
  match s.main with
  | .unwindCodec => if s.codec = .done then some { s with main := .unwindPb } else none
  | .unwindPb => if s.pb.isDone then some { s with main := .failed } else none
  | .joinCap => if s.cap = .done then some { s with main := .joinCodec } else none
  | .joinCodec => if s.codec = .done then some { s with main := .joinPb } else none
  | .joinPb => if s.pb.isDone then some { s with main := .stopped } else none
  | _ => none

/-- The thread that calls `bb_audio_stream_start` and `bb_audio_stream_stop`: start only a stream
that does not run, stop it whenever no other call is in progress. -/
def mainStep (s : Pipeline N) : Act → Option (Pipeline N)
  | .start =>
    match s.main with
    | .idle | .failed | .stopped => some s.startStores
    | _ => none
  | .spawn rc => spawnStep s rc
  | .stop =>
    match s.main with
    | .idle | .failed | .started | .stopped =>
      if s.running then some { s with running := false, main := .joinCap } else some s
    | _ => none
  | .join => joinStep s
  | _ => none

def step (c : Setup) (s : Pipeline N) : Act → Option (Pipeline N)
  | .cap r => capStep c s r
  | .codec e => codecStep c s e
  | .pb w => pbStep c s w
  | a => mainStep s a

/-- A stream right after `bb_audio_stream_init`, with pools of `N` frames of 1920 bytes. -/
def fresh (N : Nat) : Pipeline N :=
  let body := { data := [], size := 1920, pts := 0, frameNum := 0, shutdown := false }
  init (fun _ => body) fun _ => body

/-- A start that creates all three threads. -/
def startAll : List Act := [.start, .spawn 0, .spawn 0, .spawn 0]

end Pipeline
end Audio
end BuildingBlocks
