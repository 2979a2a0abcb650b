import BuildingBlocks.Audio.PipelineInv

/-!
# BuildingBlocks.Audio.Sentinel

The sentinel in band: `playback_thread_fn` takes a frame of size 0 for the shutdown signal, and a
short read, a failed `encode` and an empty result of `encode` all make such a frame.

* `Kept` is the condition on steps: no data frame of size 0 is made, and a start finds none.
* `run_survives` — as long as it is met, playback leaves its loop while the stream runs only after
  a fatal error, and what it takes for the sentinel is the sentinel.
-/

namespace BuildingBlocks
namespace Audio

open Pool Lib

/-- The frame from the capture thread that the codec thread is about to encode or copy. -/
def CodecPc.encoding : CodecPc → Option Int
  | .encode f => some f
  | _ => none

namespace Pipeline

variable {N : Nat} {c : Setup} {s s' : Pipeline N}

/-- While the stream runs playback leaves its loop only for a fatal error, and it takes no data
frame for the sentinel. -/
structure Survives (s : Pipeline N) : Prop where
  fatal : s.running = true → ∀ why, s.pb = .leave why ∨ s.pb = .done why → why = .fatal
  sentinel : s.pb = .leave .sentinel →
    ∃ i, s.mp.cons = .holds i ∧ (s.mp.frames i).body.shutdown = true

/-- What the codec thread makes of frame `f` is not empty. -/
def NotEmpty (c : Setup) (s : Pipeline N) (e : Encode) (f : Int) : Prop :=
  if c.hasCodec then e.ret = 0 ∧ e.outLen ≠ 0 else (s.sp.frames f).body.size ≠ 0

instance (c : Setup) (s : Pipeline N) (e : Encode) : DecidablePred (NotEmpty c s e) :=
  fun _ => inferInstanceAs (Decidable (ite _ _ _))

/-- The frame the codec thread fills next is not empty, and a start finds no empty frame in the
second pool. -/
def Kept (c : Setup) (s : Pipeline N) : Act → Prop
  | .codec e => ∀ f ∈ s.codec.encoding, NotEmpty c s e f
  | .start => ∀ i, 2 ≤ (s.mp.frames i).refcount → (s.mp.frames i).body.size ≠ 0
  | _ => True

instance (c : Setup) (s : Pipeline N) : DecidablePred (Kept c s)
  | .codec e => inferInstanceAs (Decidable (∀ f ∈ s.codec.encoding, NotEmpty c s e f))
  | .start => inferInstanceAs (Decidable (∀ _, _ → _))
  | .spawn _ | .stop | .join | .cap _ | .pb _ => .isTrue trivial

/-- An empty frame that is ready or taken is the sentinel of a stream that was stopped. -/
def EmptyOk (s : Pipeline N) : Prop :=
  ∀ i, 2 ≤ (s.mp.frames i).refcount → (s.mp.frames i).body.size = 0 →
    (s.mp.frames i).body.shutdown = true ∧ s.running = false

/-- The frame the codec thread is about to mark. -/
structure FilledOk (s : Pipeline N) : Prop where
  data : (∃ f, s.codec = .release f) ∨ s.codec = .enqueue →
    ∀ i, s.mp.prod () = .owns i → (s.mp.frames i).body.size ≠ 0
  sentinel : s.codec = .sentinelEnqueue →
    ∀ i, s.mp.prod () = .owns i → (s.mp.frames i).body.shutdown = true

/-- The codec thread has filled no frame. -/
theorem FilledOk.of_codec (hdata : ¬ ((∃ f, s.codec = .release f) ∨ s.codec = .enqueue))
    (hsentinel : s.codec ≠ .sentinelEnqueue) : FilledOk s :=
  ⟨fun h => absurd h hdata, fun h => absurd h hsentinel⟩

theorem FilledOk.congr (hi : FilledOk s) (hcodec : s'.codec = s.codec)
    (hprod : s'.mp.prod = s.mp.prod)
    (hbody : ∀ i, (s'.mp.frames i).body = (s.mp.frames i).body) : FilledOk s' where
  data := by
    rw [hcodec, hprod]
    intro h i hown
    rw [hbody i]
    exact hi.data h i hown
  sentinel := by
    rw [hcodec, hprod]
    intro h i hown
    rw [hbody i]
    exact hi.sentinel h i hown

theorem Survives.congr (hi : Survives s) (hrun : s'.running = true → s.running = true)
    (hpb : s'.pb = s.pb) (hcons : s'.mp.cons = s.mp.cons)
    (hbody : ∀ i, s.mp.cons = .holds i → (s'.mp.frames i).body = (s.mp.frames i).body) :
    Survives s' where
  fatal h := by
    rw [hpb]
    exact hi.fatal (hrun h)
  sentinel h := by
    rw [hpb] at h
    obtain ⟨i, hheld, hshut⟩ := hi.sentinel h
    exact ⟨i, by rw [hcons, hheld], by rw [hbody i hheld, hshut]⟩

structure SizeOk (s : Pipeline N) : Prop where
  aligned : Aligned s
  empty : EmptyOk s
  filled : FilledOk s
  survives : Survives s

/-- Ready frames come from ready frames. -/
theorem EmptyOk.of_le (hi : EmptyOk s) (hrun : s.running = false → s'.running = false)
    (hframes : ∀ i, 2 ≤ (s'.mp.frames i).refcount →
      2 ≤ (s.mp.frames i).refcount ∧ (s'.mp.frames i).body = (s.mp.frames i).body) :
    EmptyOk s' := by
  intro i hready hsize
  obtain ⟨hready', hbody⟩ := hframes i hready
  rw [hbody] at hsize ⊢
  obtain ⟨hshut, hstop⟩ := hi i hready' hsize
  exact ⟨hshut, hrun hstop⟩

/-! ## The frames of the second pool -/

section Frames

variable {mp mp' : Mpsc Unit Body N}

theorem acquire_frames (h : Mpsc.step mp (Mpsc.acquireOp () (mp.prod ())) = some mp') (i : Fin N)
    (hready : 2 ≤ (mp'.frames i).refcount) :
    2 ≤ (mp.frames i).refcount ∧ (mp'.frames i).body = (mp.frames i).body := by
  rcases Mpsc.acquire_cases h with ⟨-, rfl⟩ | ⟨j, -, -, rfl⟩ | ⟨j, -, -, rfl⟩ | ⟨j, -, -, rfl⟩
  case inr.inr.inr =>
    by_cases hij : i = j
    · subst hij
      simp at hready
    · simp only [setRef_of_ne _ hij] at hready ⊢
      exact ⟨hready, trivial⟩
  all_goals exact ⟨hready, rfl⟩

theorem fill_frames {x : Body} (hi : Mpsc.RefOk mp) (h : Mpsc.step mp (.fill () x) = some mp')
    (i : Fin N) (hready : 2 ≤ (mp'.frames i).refcount) :
    2 ≤ (mp.frames i).refcount ∧ (mp'.frames i).body = (mp.frames i).body := by
  obtain ⟨j, hj, rfl⟩ := Mpsc.fill_eq_some h
  have hone := hi.owns () j hj
  have hij : i ≠ j := by
    rintro rfl
    simp only [setBody_refcount] at hready
    omega
  simp only [setBody_of_ne _ hij] at hready ⊢
  exact ⟨hready, trivial⟩

/-- Marking makes one more frame ready, the producer's own. -/
theorem enqueue_frames (h : Mpsc.step mp (Mpsc.enqueueOp () (mp.prod ())) = some mp') (i : Fin N)
    (hready : 2 ≤ (mp'.frames i).refcount) :
    (2 ≤ (mp.frames i).refcount ∨ mp.prod () = .owns i) ∧
      (mp'.frames i).body = (mp.frames i).body := by
  rcases Mpsc.enqueue_cases h with ⟨j, hj, rfl⟩ | ⟨-, -, rfl⟩ | ⟨-, rfl⟩ | ⟨-, rfl⟩ | ⟨-, rfl⟩
  case inl =>
    refine ⟨?_, by simp [Mpsc.marked, addRef]⟩
    by_cases hij : i = j
    · subst hij
      exact .inr hj
    · simp only [Mpsc.marked, addRef, setRef_of_ne _ hij] at hready
      exact .inl hready
  all_goals exact ⟨.inl hready, rfl⟩

theorem dequeue_frames (hi : Mpsc.MInv mp)
    (h : Mpsc.step mp (Mpsc.dequeueOp mp.cons) = some mp') : mp'.frames = mp.frames := by
  rcases Mpsc.dequeue_cases hi h with ⟨-, -, rfl⟩ | ⟨-, -, rfl⟩ | ⟨-, -, rfl⟩ | ⟨-, -, rfl⟩ |
    ⟨i, -, -, rfl⟩ | ⟨i, -, -, rfl⟩ | ⟨i, -, rfl⟩ | ⟨i, -, rfl⟩ <;> rfl

theorem release_frames (h : Mpsc.step mp .release = some mp') (i : Fin N)
    (hready : 2 ≤ (mp'.frames i).refcount) :
    2 ≤ (mp.frames i).refcount ∧ (mp'.frames i).body = (mp.frames i).body := by
  obtain ⟨j, -, rfl⟩ := Mpsc.release_eq_some h
  have hij : i ≠ j := by
    rintro rfl
    simp at hready
  simp only [setRef_of_ne _ hij] at hready ⊢
  exact ⟨hready, trivial⟩

end Frames

/-! ## The codec thread -/

/-- The frame the codec thread marks is empty only if it is the sentinel. -/
theorem SizeOk.marked (hi : SizeOk s) (hpc : s.codec = .enqueue ∨ s.codec = .sentinelEnqueue)
    {i : Fin N} (hown : s.mp.prod () = .owns i) (hsize : (s.mp.frames i).body.size = 0) :
    (s.mp.frames i).body.shutdown = true ∧ s.running = false := by
  rcases hpc with hpc | hpc
  · exact absurd hsize (hi.filled.data (.inr hpc) i hown)
  · exact ⟨hi.filled.sentinel hpc i hown, hi.aligned.left (by rw [hpc]; rfl)⟩

theorem emptyOk_enqueue (hi : SizeOk s) (hpc : s.codec = .enqueue ∨ s.codec = .sentinelEnqueue)
    {mp : Mpsc Unit Body N} (h : Mpsc.step s.mp (Mpsc.enqueueOp () (s.mp.prod ())) = some mp)
    {codec : CodecPc} : EmptyOk { s with mp := mp, codec := codec } := by
  intro i hready hsize
  obtain ⟨hsource, hbody⟩ := enqueue_frames h i hready
  simp only [hbody] at hsize ⊢
  rcases hsource with hold | hown
  · exact hi.empty i hold hsize
  · exact hi.marked hpc hown hsize

/-- The frame a producer is about to mark stays its own until it is marked. -/
theorem enqueue_owns {mp mp' : Mpsc Unit Body N}
    (h : Mpsc.step mp (Mpsc.enqueueOp () (mp.prod ())) = some mp') (i : Fin N) :
    mp'.prod () ≠ .owns i := by
  rcases Mpsc.enqueue_cases h with ⟨j, -, rfl⟩ | ⟨-, -, rfl⟩ | ⟨-, rfl⟩ | ⟨-, rfl⟩ | ⟨-, rfl⟩ <;>
    simp [Mpsc.marked, Mpsc.setProd]

theorem codecStep_size {e : Encode} (hi : SizeOk s) (hk : Kept c s (.codec e))
    (h : codecStep c s e = some s') : EmptyOk s' ∧ FilledOk s' := by
  cases hpc : s.codec <;> simp only [codecStep, hpc, Option.map_eq_some_iff, reduceCtorEq] at h
  case top =>
    cases h
    refine ⟨hi.empty, .of_codec ?_ ?_⟩
    · simp only
      split <;> simp
    · simp only
      split <;> simp
  case dequeue | drain =>
    obtain ⟨sp, -, rfl⟩ := h
    refine ⟨hi.empty, .of_codec ?_ ?_⟩
    · simp only
      split <;> simp
    · simp only
      split <;> simp
  case acquire f =>
    obtain ⟨mp, hstep, rfl⟩ := h
    refine ⟨hi.empty.of_le (fun h => h) (acquire_frames hstep), .of_codec ?_ ?_⟩
    · simp only
      split <;> simp
    · simp only
      split <;> simp
  case post retry =>
    obtain ⟨mp, hstep, rfl⟩ := h
    refine ⟨hi.empty.of_le (fun h => h) (acquire_frames hstep), .of_codec ?_ ?_⟩
    · simp only
      split
      · simp
      · split <;> simp
      · simp
    · simp only
      split
      · simp
      · split <;> simp
      · simp
  case full f =>
    cases h
    exact ⟨hi.empty, .of_codec (by simp) (by simp)⟩
  case fullRelease f | drainRelease f =>
    obtain ⟨sp, -, rfl⟩ := h
    exact ⟨hi.empty, .of_codec (by simp) (by simp)⟩
  case release f =>
    obtain ⟨sp, -, rfl⟩ := h
    exact ⟨hi.empty, fun _ => hi.filled.data (.inl ⟨f, hpc⟩), fun h => by cases h⟩
  case encode f =>
    split at h
    · rename_i i hown
      obtain ⟨mp, hstep, rfl⟩ := Option.map_eq_some_iff.mp h
      refine ⟨hi.empty.of_le (fun h => h) (fill_frames hi.aligned.mp.ref hstep), ?_,
        fun h => by cases h⟩
      obtain ⟨j, hj, rfl⟩ := Mpsc.fill_eq_some hstep
      obtain rfl : i = j := by simpa [hown] using hj
      intro _ k hown'
      obtain rfl : i = k := by simpa [hown] using hown'
      have hkept := hk f (by rw [hpc]; rfl)
      unfold NotEmpty at hkept
      simp only [setBody, Function.update_self, encoded]
      by_cases hcodec : c.hasCodec = true
      · rw [if_pos hcodec] at hkept ⊢
        rw [if_pos hkept.1]
        exact hkept.2
      · rw [if_neg hcodec] at hkept ⊢
        exact hkept
    · cases h
  case sentinel =>
    split at h
    · rename_i i hown
      obtain ⟨mp, hstep, rfl⟩ := Option.map_eq_some_iff.mp h
      refine ⟨hi.empty.of_le (fun h => h) (fill_frames hi.aligned.mp.ref hstep), by simp, ?_⟩
      obtain ⟨j, hj, rfl⟩ := Mpsc.fill_eq_some hstep
      obtain rfl : i = j := by simpa [hown] using hj
      intro _ k hown'
      obtain rfl : i = k := by simpa [hown] using hown'
      simp only [setBody, Function.update_self]
    · cases h
  case enqueue =>
    obtain ⟨mp, hstep, rfl⟩ := h
    refine ⟨emptyOk_enqueue hi (.inl hpc) hstep, ?_, ?_⟩
    · exact fun _ i hown => absurd hown (enqueue_owns hstep i)
    · exact fun _ i hown => absurd hown (enqueue_owns hstep i)
  case sentinelEnqueue =>
    obtain ⟨mp, hstep, rfl⟩ := h
    refine ⟨emptyOk_enqueue hi (.inr hpc) hstep, ?_, ?_⟩
    · exact fun _ i hown => absurd hown (enqueue_owns hstep i)
    · exact fun _ i hown => absurd hown (enqueue_owns hstep i)

/-- The codec thread fills no frame that is ready or taken. -/
theorem codecStep_body {e : Encode} (hi : Aligned s) (h : codecStep c s e = some s') (i : Fin N)
    (hready : 2 ≤ (s'.mp.frames i).refcount) : (s'.mp.frames i).body = (s.mp.frames i).body := by
  rcases codecStep_mp h with hsame | hstep | ⟨body, hstep⟩ | ⟨-, hstep⟩
  · rw [hsame]
  · exact (acquire_frames hstep i hready).2
  · exact (fill_frames hi.mp.ref hstep i hready).2
  · exact (enqueue_frames hstep i hready).2

/-! ## The playback thread -/

/-- The playback thread fills no frame. -/
theorem pbStep_body {w : Int} (hi : Aligned s) (h : pbStep c s w = some s') (i : Fin N) :
    (s'.mp.frames i).body = (s.mp.frames i).body := by
  rcases pbStep_mp h with hsame | hstep | hstep
  · rw [hsame]
  · rw [dequeue_frames hi.mp hstep]
  · obtain ⟨j, -, hmp⟩ := Mpsc.release_eq_some hstep
    rw [hmp, setRef_body]

theorem pbStep_size {w : Int} (hi : SizeOk s) (h : pbStep c s w = some s') :
    EmptyOk s' ∧ Survives s' := by
  cases hpc : s.pb <;> simp only [pbStep, hpc, Option.map_eq_some_iff, reduceCtorEq] at h
  case top =>
    cases h
    refine ⟨hi.empty, ?_, ?_⟩
    · intro hrun why hwhy
      simp only at hrun
      simp [hrun] at hwhy
    · simp only
      split <;> simp
  case dequeue =>
    obtain ⟨mp, hstep, rfl⟩ := h
    have hframes := dequeue_frames hi.aligned.mp hstep
    refine ⟨hi.empty.of_le (fun h => h) ?_, ?_, ?_⟩
    · intro i hready
      simp only [hframes] at hready ⊢
      exact ⟨hready, trivial⟩
    · intro _ why
      simp only
      split <;> simp
    · simp only
      split <;> simp
  case test =>
    split at h <;> cases h
    rename_i i hcons
    have hready : 2 ≤ (s.mp.frames i).refcount := by
      rw [hi.aligned.mp.ref.taken i (by rw [hcons]; rfl)]
    refine ⟨hi.empty, ?_, ?_⟩
    · intro hrun why
      simp only at hrun ⊢
      split
      · rename_i hzero
        obtain ⟨-, hstop⟩ := hi.empty i hready hzero
        rw [hrun] at hstop
        cases hstop
      · simp
    · simp only
      split
      · rename_i hzero
        intro _
        exact ⟨i, hcons, (hi.empty i hready hzero).1⟩
      · simp
  case write =>
    split at h
    · split at h
      · split at h
        · cases h
          exact ⟨hi.empty, fun _ why hwhy => by simpa [eq_comm] using hwhy, fun h => by cases h⟩
        · split at h <;> cases h
          · exact ⟨hi.empty, fun _ why hwhy => by simpa [eq_comm] using hwhy, fun h => by cases h⟩
          · exact ⟨hi.empty, fun _ why hwhy => by simp at hwhy, fun h => by cases h⟩
      · split at h <;> cases h
        exact ⟨hi.empty, fun _ why hwhy => by simp at hwhy, fun h => by cases h⟩
    · cases h
  case stat n =>
    cases h
    exact ⟨hi.empty, fun _ why hwhy => by simp at hwhy, fun h => by cases h⟩
  case release =>
    obtain ⟨mp, hstep, rfl⟩ := h
    exact ⟨hi.empty.of_le (fun h => h) (release_frames hstep), fun _ why hwhy => by simp at hwhy,
      fun h => by cases h⟩
  case leave why =>
    obtain ⟨mp, hstep, rfl⟩ := h
    refine ⟨hi.empty.of_le (fun h => h) (release_frames hstep), ?_, fun h => by cases h⟩
    intro hrun why' hwhy
    obtain rfl : why = why' := by simpa using hwhy
    exact hi.survives.fatal hrun why (.inl hpc)

/-! ## All threads -/

theorem SizeOk.congr (hi : SizeOk s) (hmp : s'.mp = s.mp) (hcodec : s'.codec = s.codec)
    (hpb : s'.pb = s.pb) (hrun : s.running = false → s'.running = false) :
    EmptyOk s' ∧ FilledOk s' ∧ Survives s' := by
  refine ⟨hi.empty.of_le hrun ?_, hi.filled.congr hcodec (by rw [hmp]) ?_,
    hi.survives.congr ?_ hpb (by rw [hmp]) ?_⟩
  · intro i hready
    rw [hmp] at hready ⊢
    exact ⟨hready, rfl⟩
  · intro i
    rw [hmp]
  · intro h
    cases hs : s.running with
    | true => rfl
    | false => rw [hrun hs] at h; cases h
  · intro i _
    rw [hmp]

theorem mainStep_size {a : Act} (hi : SizeOk s) (hk : Kept c s a) (h : mainStep s a = some s') :
    EmptyOk s' ∧ FilledOk s' ∧ Survives s' := by
  cases a <;> simp only [mainStep, reduceCtorEq] at h
  case start =>
    have hnone : EmptyOk s.startStores := fun i hready hsize => absurd hsize (hk i hready)
    split at h <;> cases h
    all_goals
      exact ⟨hnone, .of_codec (by simp [startStores]) (by simp [startStores]),
        by simp [startStores], by simp [startStores]⟩
  case spawn rc =>
    cases hpc : s.main <;> simp only [spawnStep, hpc, reduceCtorEq] at h <;> split at h <;> cases h
    case spawnPb.isFalse =>
      refine ⟨hi.empty, hi.filled.congr rfl rfl (fun _ => rfl), ?_, ?_⟩
      · intro _ why hwhy
        simp only [spawned] at hwhy
        split at hwhy <;> simp at hwhy
      · intro hpb
        simp only [spawned] at hpb
        split at hpb <;> cases hpb
    case spawnCodec.isFalse =>
      refine ⟨hi.empty, .of_codec ?_ ?_, hi.survives.congr (fun h => h) rfl rfl (fun _ _ => rfl)⟩
      · simp only [spawned]
        split <;> simp
      · simp only [spawned]
        split <;> simp
    all_goals exact hi.congr rfl rfl rfl (by simp)
  case stop =>
    cases hpc : s.main <;> simp only [hpc, reduceCtorEq] at h <;> split at h <;> cases h
    all_goals exact hi.congr rfl rfl rfl (by simp)
  case join =>
    simp only [joinStep] at h
    split at h
    case h_6 => cases h
    all_goals
      split at h <;> cases h
      exact hi.congr rfl rfl rfl (fun h => h)

theorem step_size {a : Act} (hi : SizeOk s) (hk : Kept c s a) (h : step c s a = some s') :
    SizeOk s' := by
  have haligned := step_aligned hi.aligned h
  cases a with
  | cap r =>
    obtain ⟨sp, cap, xrun, error, frames, drop, reads, rfl⟩ := capStep_frame h
    exact ⟨haligned, hi.empty, hi.filled.congr rfl rfl (fun _ => rfl),
      hi.survives.congr (fun h => h) rfl rfl (fun _ _ => rfl)⟩
  | codec e =>
    obtain ⟨hempty, hfilled⟩ := codecStep_size hi hk h
    have hcons := (codecStep_pool hi.aligned.codecSp hi.aligned.codecMp h).mpCons
    have hbody : ∀ i, s.mp.cons = .holds i → (s'.mp.frames i).body = (s.mp.frames i).body := by
      intro i hheld
      refine codecStep_body hi.aligned h i ?_
      rw [haligned.mp.ref.taken i (by rw [hcons, hheld]; rfl)]
    refine ⟨haligned, hempty, hfilled, ?_⟩
    obtain ⟨sp, mp, codec, drop, rfl⟩ := codecStep_frame h
    exact hi.survives.congr (fun h => h) rfl hcons hbody
  | pb w =>
    obtain ⟨hempty, hsurvives⟩ := pbStep_size hi h
    have hprod := (pbStep_pool hi.aligned.mp hi.aligned.pb h).2
    have hbody := pbStep_body hi.aligned h
    refine ⟨haligned, hempty, ?_, hsurvives⟩
    obtain ⟨mp, pb, xrun, error, frames, rfl⟩ := pbStep_frame h
    exact hi.filled.congr rfl hprod hbody
  | start =>
    obtain ⟨hempty, hfilled, hsurvives⟩ := mainStep_size (a := .start) hi hk h
    exact ⟨haligned, hempty, hfilled, hsurvives⟩
  | spawn rc =>
    obtain ⟨hempty, hfilled, hsurvives⟩ := mainStep_size (a := .spawn rc) hi hk h
    exact ⟨haligned, hempty, hfilled, hsurvives⟩
  | stop =>
    obtain ⟨hempty, hfilled, hsurvives⟩ := mainStep_size (a := .stop) hi hk h
    exact ⟨haligned, hempty, hfilled, hsurvives⟩
  | join =>
    obtain ⟨hempty, hfilled, hsurvives⟩ := mainStep_size (a := .join) hi hk h
    exact ⟨haligned, hempty, hfilled, hsurvives⟩

/-- **Playback survives data.** In every run that meets the condition, with any schedule of the
threads and any results of the devices and the codec: while the stream runs, playback leaves its
loop only after a fatal error of `bb_audio_write`, and what it takes for the sentinel is the
sentinel. -/
theorem run_survives {spBody : Int → Body} {mpBody : Fin N → Body} {as : List Act}
    (hr : run (step c) (init spBody mpBody) as = some s)
    (hk : Meets (step c) (Kept c) (init spBody mpBody) as) : Survives s := by
  have hinit : SizeOk (init spBody mpBody) :=
    { aligned := aligned_init spBody mpBody
      empty := by
        intro i hready
        simp [init, Mpsc.init] at hready
      filled := .of_codec (by simp [init]) (by simp [init])
      survives := ⟨by simp [init], by simp [init]⟩ }
  exact (run_invariant_of_meets (fun _ _ _ => step_size) hinit hk hr).survives

/-- A period read with result `r` goes to the playback thread, which tests its size. -/
def onePeriod (r : Read) : List Act :=
  startAll ++ List.replicate 7 (.cap r) ++
    List.replicate 14 (.codec { ret := 0, data := [], outLen := 0 }) ++ List.replicate 7 (.pb 480)

theorem full_read_survives :
    ∃ s, run (step stereoSetup) (fresh 4) (onePeriod { n := 480, data := [] }) = some s ∧
      s.pb = .write ∧ Survives s := by
  obtain ⟨s, hs, hpb⟩ :
      ∃ s, run (step stereoSetup) (fresh 4) (onePeriod { n := 480, data := [] }) = some s ∧
        s.pb = .write := ⟨_, rfl, rfl⟩
  exact ⟨s, hs, hpb, run_survives hs (by decide)⟩

/-- A read of no frames ends playback while the stream runs. -/
theorem short_read_ends :
    ∃ s, run (step stereoSetup) (fresh 4) (onePeriod { n := 0, data := [] }) = some s ∧
      s.running = true ∧ s.pb = .leave .sentinel ∧ ¬ Survives s := by
  refine ⟨_, rfl, rfl, rfl, ?_⟩
  intro hsurvives
  cases hsurvives.fatal rfl .sentinel (.inl rfl)

end Pipeline
end Audio
end BuildingBlocks
