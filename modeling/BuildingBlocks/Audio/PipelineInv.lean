import BuildingBlocks.Audio.Pipeline

/-!
# BuildingBlocks.Audio.PipelineInv

What holds of the pipeline in every interleaving.

* `Aligned`: a thread that is inside a pool function is where the pool has it, a thread that has a
  frame is the pool's owner of it, and the calling thread's progress says which threads exist and
  which have ended.
* `step_mp`, `step_sp`: a step of the pipeline is at most one step of each pool, so what holds of
  every run of a pool holds here.
-/

namespace BuildingBlocks
namespace Audio

open Pool Lib

/-- The codec thread has seen `running` cleared. -/
def CodecPc.leftLoop : CodecPc → Bool
  | .drain | .drainRelease _ | .post _ | .sentinel | .sentinelEnqueue | .done => true
  | _ => false

/-- The capture thread as the producer of the first pool. -/
def CapOk (cap : CapPc) (pc : ProdPc) : Prop :=
  match cap with
  | .acquire => ∀ idx, pc ≠ .owns idx
  | .read | .count _ | .commit | .release _ => ∃ idx, pc = .owns idx
  | .off | .top | .full | .discard | .fail | .done => pc = .idle

/-- The codec thread as the consumer of the first pool. -/
def CodecSpOk (codec : CodecPc) (pc : ConsPc) (held : List Int) : Prop :=
  match codec with
  | .dequeue | .drain => held = []
  | .acquire f | .full f | .fullRelease f | .encode f | .release f | .drainRelease f =>
    pc = .idle ∧ held = [f]
  | .off | .top | .enqueue | .post _ | .sentinel | .sentinelEnqueue | .done =>
    pc = .idle ∧ held = []

/-- The codec thread as the producer of the second pool. -/
def CodecMpOk {N : Nat} (codec : CodecPc) (pc : MpProdPc N) : Prop :=
  match codec with
  | .acquire _ | .post _ => pc = .idle ∨ ∃ i, pc = .scan i
  | .encode _ | .release _ | .sentinel => ∃ i, pc = .owns i
  | .enqueue | .sentinelEnqueue => pc ≠ .idle ∧ ∀ i, pc ≠ .scan i
  | .off | .top | .dequeue | .full _ | .fullRelease _ | .drain | .drainRelease _ | .done =>
    pc = .idle

/-- The playback thread as the consumer of the second pool. -/
def PbOk {N : Nat} (pb : PbPc) (pc : MpConsPc N) : Prop :=
  match pb with
  | .dequeue => ∀ i, pc ≠ .holds i
  | .test | .write | .stat _ | .release | .leave _ => ∃ i, pc = .holds i
  | .off | .top | .done _ => pc = .idle

def CapEnded (pc : CapPc) : Prop := pc = .off ∨ pc = .done

def CodecEnded (pc : CodecPc) : Prop := pc = .off ∨ pc = .done

def PbEnded (pc : PbPc) : Prop := pc = .off ∨ pc.isDone = true

namespace Pipeline

variable {N : Nat} {c : Setup} {s s' : Pipeline N}

/-- Which threads the calling thread has not created yet, and which have ended. -/
def MainOk (s : Pipeline N) : Prop :=
  match s.main with
  | .spawnPb => s.running = true ∧ s.cap = .off ∧ s.codec = .off ∧ s.pb = .off
  | .spawnCodec => s.running = true ∧ s.cap = .off ∧ s.codec = .off
  | .spawnCap => s.running = true ∧ s.cap = .off
  | .started => s.running = true
  | .unwindCodec => s.running = false ∧ s.cap = .off
  | .unwindPb => s.running = false ∧ s.cap = .off ∧ CodecEnded s.codec
  | .joinCap => s.running = false
  | .joinCodec => s.running = false ∧ CapEnded s.cap
  | .joinPb => s.running = false ∧ CapEnded s.cap ∧ CodecEnded s.codec
  | .idle | .failed | .stopped =>
    s.running = false ∧ CapEnded s.cap ∧ CodecEnded s.codec ∧ PbEnded s.pb

structure Aligned (s : Pipeline N) : Prop where
  cap : CapOk s.cap s.sp.prod
  codecSp : CodecSpOk s.codec s.sp.cons s.sp.held
  codecMp : CodecMpOk s.codec (s.mp.prod ())
  pb : PbOk s.pb s.mp.cons
  mp : Mpsc.MInv s.mp
  left : s.codec.leftLoop = true → s.running = false
  main : MainOk s

theorem aligned_init (spBody : Int → Body) (mpBody : Fin N → Body) :
    Aligned (init spBody mpBody) where
  cap := rfl
  codecSp := ⟨rfl, rfl⟩
  codecMp := rfl
  pb := rfl
  mp := Mpsc.minv_init mpBody
  left := fun h => nomatch h
  main := ⟨rfl, .inl rfl, .inl rfl, .inl rfl⟩

/-! ## What a thread leaves alone -/

theorem capStep_frame {r : Read} (h : capStep c s r = some s') :
    ∃ sp cap xrun error frames drop reads, s' =
      { s with
        sp := sp
        cap := cap
        capXrun := xrun
        error := error
        capFrames := frames
        dropFrames := drop
        reads := reads } := by
  cases hpc : s.cap <;> simp only [capStep, hpc, Option.map_eq_some_iff, reduceCtorEq] at h
  case discard => split at h <;> cases h <;> exact ⟨_, _, _, _, _, _, _, rfl⟩
  case read =>
    split at h
    · cases h
      exact ⟨_, _, _, _, _, _, _, rfl⟩
    · split at h
      · obtain ⟨sp, -, rfl⟩ := Option.map_eq_some_iff.mp h
        exact ⟨_, _, _, _, _, _, _, rfl⟩
      · cases h
  case release n =>
    obtain ⟨sp, -, rfl⟩ := h
    split <;> exact ⟨_, _, _, _, _, _, _, rfl⟩
  case acquire | commit =>
    obtain ⟨sp, -, rfl⟩ := h
    exact ⟨_, _, _, _, _, _, _, rfl⟩
  case top | full | count | fail =>
    cases h
    exact ⟨_, _, _, _, _, _, _, rfl⟩

theorem codecStep_frame {e : Encode} (h : codecStep c s e = some s') :
    ∃ sp mp codec drop, s' =
      { s with sp := sp, mp := mp, codec := codec, dropFrames := drop } := by
  cases hpc : s.codec <;> simp only [codecStep, hpc, Option.map_eq_some_iff, reduceCtorEq] at h
  case encode f =>
    split at h
    · obtain ⟨mp, -, rfl⟩ := Option.map_eq_some_iff.mp h
      exact ⟨_, _, _, _, rfl⟩
    · cases h
  case sentinel =>
    split at h
    · obtain ⟨mp, -, rfl⟩ := Option.map_eq_some_iff.mp h
      exact ⟨_, _, _, _, rfl⟩
    · cases h
  case top | full =>
    cases h
    exact ⟨_, _, _, _, rfl⟩
  all_goals
    obtain ⟨pool, -, rfl⟩ := h
    exact ⟨_, _, _, _, rfl⟩

theorem pbStep_frame {w : Int} (h : pbStep c s w = some s') :
    ∃ mp pb xrun error frames, s' =
      { s with mp := mp, pb := pb, pbXrun := xrun, error := error, pbFrames := frames } := by
  cases hpc : s.pb <;> simp only [pbStep, hpc, Option.map_eq_some_iff, reduceCtorEq] at h
  case test =>
    split at h <;> cases h
    exact ⟨_, _, _, _, _, rfl⟩
  case write =>
    split at h
    · split at h
      · split at h
        · cases h
          exact ⟨_, _, _, _, _, rfl⟩
        · split at h <;> cases h <;> exact ⟨_, _, _, _, _, rfl⟩
      · split at h <;> cases h
        exact ⟨_, _, _, _, _, rfl⟩
    · cases h
  case top | stat =>
    cases h
    exact ⟨_, _, _, _, _, rfl⟩
  all_goals
    obtain ⟨mp, -, rfl⟩ := h
    exact ⟨_, _, _, _, _, rfl⟩

/-! ## The capture thread -/

theorem MainOk.of_cap (hm : MainOk s) (hne : ¬ CapEnded s.cap) (hmain : s'.main = s.main)
    (hrun : s'.running = s.running) (hcodec : s'.codec = s.codec) (hpb : s'.pb = s.pb) :
    MainOk s' := by
  have hoff : s.cap ≠ .off := fun h => hne (.inl h)
  unfold MainOk at hm ⊢
  rw [hmain, hrun, hcodec, hpb]
  cases hpc : s.main <;> simp only [hpc] at hm ⊢
  case spawnPb | spawnCodec => exact absurd hm.2.1 hoff
  case spawnCap | unwindCodec => exact absurd hm.2 hoff
  case unwindPb => exact absurd hm.2.1 hoff
  case joinCodec => exact absurd hm.2 hne
  case idle | failed | stopped | joinPb => exact absurd hm.2.1 hne
  case started | joinCap => exact hm

theorem capStep_running {r : Read} (h : capStep c s r = some s') : ¬ CapEnded s.cap := by
  rintro (hpc | hpc) <;> simp [capStep, hpc] at h

theorem capStep_pool {r : Read} (hi : CapOk s.cap s.sp.prod) (h : capStep c s r = some s') :
    CapOk s'.cap s'.sp.prod ∧ s'.sp.cons = s.sp.cons ∧ s'.sp.held = s.sp.held := by
  cases hpc : s.cap <;> simp only [capStep, hpc, Option.map_eq_some_iff, reduceCtorEq] at h <;>
    rw [hpc] at hi
  case top =>
    cases h
    refine ⟨?_, rfl, rfl⟩
    have hidle : s.sp.prod = .idle := hi
    split <;> simp [CapOk, hidle]
  case acquire =>
    obtain ⟨sp, hsp, rfl⟩ := h
    rcases Spsc.acquire_cases hsp with ⟨-, rfl⟩ | ⟨w, -, rfl⟩ | ⟨w, -, rfl⟩ |
      ⟨idx, -, -, rfl⟩ | ⟨idx, -, rfl⟩ <;>
      simp [Spsc.acquireCall, CapOk]
  case full | count => cases h; exact ⟨hi, rfl, rfl⟩
  case discard => split at h <;> cases h <;> exact ⟨hi, rfl, rfl⟩
  case read =>
    split at h
    · cases h
      exact ⟨hi, rfl, rfl⟩
    · split at h
      · obtain ⟨sp, hsp, rfl⟩ := Option.map_eq_some_iff.mp h
        obtain ⟨idx, -, rfl⟩ := Spsc.fill_eq_some hsp
        exact ⟨hi, rfl, rfl⟩
      · cases h
  case commit =>
    obtain ⟨sp, hsp, rfl⟩ := h
    obtain ⟨idx, -, rfl⟩ := Spsc.commit_eq_some hsp
    exact ⟨rfl, rfl, rfl⟩
  case release n =>
    obtain ⟨sp, hsp, rfl⟩ := h
    obtain ⟨idx, -, rfl⟩ := Spsc.abandon_eq_some hsp
    split
    · refine ⟨?_, rfl, rfl⟩
      split <;> rfl
    · exact ⟨rfl, rfl, rfl⟩
  case fail => cases h; exact ⟨hi, rfl, rfl⟩

theorem capStep_aligned {r : Read} (hi : Aligned s) (h : capStep c s r = some s') :
    Aligned s' := by
  obtain ⟨hcap, hcons, hheld⟩ := capStep_pool hi.cap h
  have hmain : s'.main = s.main → s'.running = s.running → s'.codec = s.codec → s'.pb = s.pb →
      MainOk s' := hi.main.of_cap (capStep_running h)
  obtain ⟨sp, cap, xrun, error, frames, drop, reads, rfl⟩ := capStep_frame h
  exact
    { cap := hcap
      codecSp := by
        rw [hcons, hheld]
        exact hi.codecSp
      codecMp := hi.codecMp
      pb := hi.pb
      mp := hi.mp
      left := hi.left
      main := hmain rfl rfl rfl rfl }

/-! ## The codec thread -/

theorem MainOk.of_codec (hm : MainOk s) (hne : ¬ CodecEnded s.codec) (hmain : s'.main = s.main)
    (hrun : s'.running = s.running) (hcap : s'.cap = s.cap) (hpb : s'.pb = s.pb) :
    MainOk s' := by
  have hoff : s.codec ≠ .off := fun h => hne (.inl h)
  unfold MainOk at hm ⊢
  rw [hmain, hrun, hcap, hpb]
  cases hpc : s.main <;> simp only [hpc] at hm ⊢
  case spawnPb => exact absurd hm.2.2.1 hoff
  case spawnCodec => exact absurd hm.2.2 hoff
  case unwindPb | joinPb => exact absurd hm.2.2 hne
  case idle | failed | stopped => exact absurd hm.2.2.1 hne
  case spawnCap | started | unwindCodec | joinCap | joinCodec => exact hm

theorem codecStep_running {e : Encode} (h : codecStep c s e = some s') :
    ¬ CodecEnded s.codec := by
  rintro (hpc | hpc) <;> simp [codecStep, hpc] at h

/-- The codec thread in `bb_pool_sp_dequeue`. -/
theorem dequeue_pool {count : Nat} {sp sp' : Spsc Body} (inside none : CodecPc)
    (some' : Int → CodecPc) (hheld : sp.held = [])
    (h : Spsc.step count sp (Spsc.dequeueOp sp.cons) = some sp')
    (hinside : ∀ pc, CodecSpOk inside pc []) (hnone : CodecSpOk none .idle [])
    (hsome : ∀ f, CodecSpOk (some' f) .idle [f]) :
    CodecSpOk
        (match Spsc.dequeueCall sp.cons sp'.cons with
          | .inside => inside
          | .returned .none => none
          | .returned (.some f) => some' f) sp'.cons sp'.held ∧
      sp'.prod = sp.prod := by
  rcases Spsc.dequeue_cases h with ⟨hpc, rfl⟩ | ⟨w, n, hpc, -, rfl⟩ | ⟨w, n, hpc, -, rfl⟩ |
      ⟨idx, n, hpc, -, rfl⟩ | ⟨idx, n, hpc, rfl⟩ | ⟨idx, hpc, rfl⟩ <;>
    simp only [Spsc.dequeueCall, hpc, hheld, List.nil_append, and_true]
  · exact hinside _
  · exact hnone
  · exact hinside _
  · exact hnone
  · exact hinside _
  · exact hsome idx

/-- The codec thread in `bb_pool_mp_acquire`. -/
theorem acquire_pool {mp mp' : Mpsc Unit Body N} (inside none some' : CodecPc)
    (h : Mpsc.step mp (Mpsc.acquireOp () (mp.prod ())) = some mp')
    (hinside : ∀ i, CodecMpOk inside (.scan i : MpProdPc N))
    (hnone : CodecMpOk none (.idle : MpProdPc N)) (hsome : ∀ i : Fin N, CodecMpOk some' (.owns i)) :
    CodecMpOk
        (match Mpsc.acquireCall (mp'.prod ()) with
          | .inside => inside
          | .returned .none => none
          | .returned (.some _) => some') (mp'.prod ()) ∧
      mp'.cons = mp.cons := by
  rcases Mpsc.acquire_cases h with ⟨-, rfl⟩ | ⟨i, -, -, rfl⟩ | ⟨i, -, -, rfl⟩ | ⟨i, -, -, rfl⟩ <;>
    simp only [Mpsc.setProd, Function.update_self, Mpsc.acquireCall, and_true]
  · exact hinside 0
  · exact hnone
  · exact hinside _
  · exact hsome i

/-- The codec thread in `bb_pool_mp_enqueue`. -/
theorem enqueue_pool {mp mp' : Mpsc Unit Body N} (inside after : CodecPc)
    (h : Mpsc.step mp (Mpsc.enqueueOp () (mp.prod ())) = some mp')
    (hinside : ∀ pc : MpProdPc N, pc ≠ .idle → (∀ i, pc ≠ .scan i) → CodecMpOk inside pc)
    (hafter : CodecMpOk after (.idle : MpProdPc N)) :
    CodecMpOk
        (match Mpsc.enqueueCall (mp'.prod ()) with
          | .inside => inside
          | .returned _ => after) (mp'.prod ()) ∧
      mp'.cons = mp.cons := by
  rcases Mpsc.enqueue_cases h with ⟨i, -, rfl⟩ | ⟨-, -, rfl⟩ | ⟨-, rfl⟩ | ⟨-, rfl⟩ | ⟨-, rfl⟩ <;>
    simp only [Mpsc.marked, Mpsc.setProd, Function.update_self, Mpsc.enqueueCall, and_true]
  case inr.inr.inr.inr => exact hafter
  all_goals exact hinside _ (by simp) (by simp)

/-- Releasing the frame the codec thread has from the first pool. -/
theorem release_pool {count : Nat} {sp sp' : Spsc Body} {f : Int} (hheld : sp.held = [f])
    (h : Spsc.step count sp (.release f) = some sp') :
    sp'.cons = .idle ∧ sp'.held = [] ∧ sp'.prod = sp.prod := by
  obtain ⟨hcons, -, rfl⟩ := Spsc.release_eq_some h
  exact ⟨hcons, by simp [hheld], rfl⟩

/-- What the codec thread's step means to the pools. -/
structure CodecPools (s s' : Pipeline N) : Prop where
  sp : CodecSpOk s'.codec s'.sp.cons s'.sp.held
  mp : CodecMpOk s'.codec (s'.mp.prod ())
  spProd : s'.sp.prod = s.sp.prod
  mpCons : s'.mp.cons = s.mp.cons

theorem codecStep_pool {e : Encode} (hsp : CodecSpOk s.codec s.sp.cons s.sp.held)
    (hmp : CodecMpOk s.codec (s.mp.prod ())) (h : codecStep c s e = some s') :
    CodecPools s s' := by
  cases hpc : s.codec <;> simp only [codecStep, hpc, Option.map_eq_some_iff, reduceCtorEq] at h <;>
    rw [hpc] at hsp hmp
  case top =>
    cases h
    have hsp' : s.sp.cons = .idle ∧ s.sp.held = [] := hsp
    have hmp' : s.mp.prod () = .idle := hmp
    refine ⟨?_, ?_, rfl, rfl⟩
    · split
      · exact hsp'.2
      · exact hsp'.2
    · split
      · exact hmp'
      · exact hmp'
  case dequeue =>
    obtain ⟨sp, hstep, rfl⟩ := h
    obtain ⟨hok, hprod⟩ := dequeue_pool .dequeue .top .acquire hsp hstep (fun _ => rfl)
      ⟨rfl, rfl⟩ (fun _ => ⟨rfl, rfl⟩)
    refine ⟨hok, ?_, hprod, rfl⟩
    split
    · exact hmp
    · exact hmp
    · exact .inl hmp
  case drain =>
    obtain ⟨sp, hstep, rfl⟩ := h
    obtain ⟨hok, hprod⟩ := dequeue_pool .drain (.post 0) .drainRelease hsp hstep (fun _ => rfl)
      ⟨rfl, rfl⟩ (fun _ => ⟨rfl, rfl⟩)
    refine ⟨hok, ?_, hprod, rfl⟩
    split
    · exact hmp
    · exact .inl hmp
    · exact hmp
  case acquire f =>
    obtain ⟨mp, hstep, rfl⟩ := h
    obtain ⟨hok, hcons⟩ := acquire_pool (.acquire f) (.full f) (.encode f) hstep
      (fun i => .inr ⟨i, rfl⟩) rfl (fun i => ⟨i, rfl⟩)
    refine ⟨?_, hok, rfl, hcons⟩
    split <;> exact hsp
  case post retry =>
    obtain ⟨mp, hstep, rfl⟩ := h
    obtain ⟨hok, hcons⟩ := acquire_pool (.post retry)
      (if retry + 1 < 100 then .post (retry + 1) else .done) .sentinel hstep
      (fun i => .inr ⟨i, rfl⟩) (by split <;> simp [CodecMpOk]) (fun i => ⟨i, rfl⟩)
    refine ⟨?_, hok, rfl, hcons⟩
    split
    · exact hsp
    · split <;> exact hsp
    · exact hsp
  case full f =>
    cases h
    exact ⟨hsp, hmp, rfl, rfl⟩
  case fullRelease f =>
    obtain ⟨sp, hstep, rfl⟩ := h
    obtain ⟨hcons, hheld, hprod⟩ := release_pool hsp.2 hstep
    exact ⟨⟨hcons, hheld⟩, hmp, hprod, rfl⟩
  case release f =>
    obtain ⟨sp, hstep, rfl⟩ := h
    obtain ⟨hcons, hheld, hprod⟩ := release_pool hsp.2 hstep
    obtain ⟨i, hi⟩ : ∃ i, s.mp.prod () = .owns i := hmp
    exact ⟨⟨hcons, hheld⟩, ⟨by simp [hi], by simp [hi]⟩, hprod, rfl⟩
  case drainRelease f =>
    obtain ⟨sp, hstep, rfl⟩ := h
    obtain ⟨hcons, hheld, hprod⟩ := release_pool hsp.2 hstep
    exact ⟨hheld, hmp, hprod, rfl⟩
  case encode f =>
    split at h
    · obtain ⟨mp, hstep, rfl⟩ := Option.map_eq_some_iff.mp h
      obtain ⟨i, -, rfl⟩ := Mpsc.fill_eq_some hstep
      exact ⟨hsp, hmp, rfl, rfl⟩
    · cases h
  case sentinel =>
    split at h
    · obtain ⟨mp, hstep, rfl⟩ := Option.map_eq_some_iff.mp h
      obtain ⟨i, hi, rfl⟩ := Mpsc.fill_eq_some hstep
      exact ⟨hsp, ⟨by simp [hi], by simp [hi]⟩, rfl, rfl⟩
    · cases h
  case enqueue =>
    obtain ⟨mp, hstep, rfl⟩ := h
    obtain ⟨hok, hcons⟩ := enqueue_pool .enqueue .top hstep (fun _ h1 h2 => ⟨h1, h2⟩) rfl
    refine ⟨?_, hok, rfl, hcons⟩
    split <;> exact hsp
  case sentinelEnqueue =>
    obtain ⟨mp, hstep, rfl⟩ := h
    obtain ⟨hok, hcons⟩ := enqueue_pool .sentinelEnqueue .done hstep (fun _ h1 h2 => ⟨h1, h2⟩) rfl
    refine ⟨?_, hok, rfl, hcons⟩
    split <;> exact hsp

/-- What the codec thread does to the second pool. -/
theorem codecStep_mp {e : Encode} (h : codecStep c s e = some s') :
    s'.mp = s.mp ∨ Mpsc.step s.mp (Mpsc.acquireOp () (s.mp.prod ())) = some s'.mp ∨
      (∃ body, Mpsc.step s.mp (.fill () body) = some s'.mp) ∨
      (s.codec = .enqueue ∨ s.codec = .sentinelEnqueue) ∧
        Mpsc.step s.mp (Mpsc.enqueueOp () (s.mp.prod ())) = some s'.mp := by
  cases hpc : s.codec <;> simp only [codecStep, hpc, Option.map_eq_some_iff, reduceCtorEq] at h
  case acquire | post =>
    obtain ⟨mp, hstep, rfl⟩ := h
    exact .inr (.inl hstep)
  case encode | sentinel =>
    split at h
    · obtain ⟨mp, hstep, rfl⟩ := Option.map_eq_some_iff.mp h
      exact .inr (.inr (.inl ⟨_, hstep⟩))
    · cases h
  case enqueue =>
    obtain ⟨mp, hstep, rfl⟩ := h
    exact .inr (.inr (.inr ⟨.inl rfl, hstep⟩))
  case sentinelEnqueue =>
    obtain ⟨mp, hstep, rfl⟩ := h
    exact .inr (.inr (.inr ⟨.inr rfl, hstep⟩))
  case top | full =>
    cases h
    exact .inl rfl
  all_goals
    obtain ⟨sp, -, rfl⟩ := h
    exact .inl rfl

theorem codecStep_left {e : Encode} (hi : s.codec.leftLoop = true → s.running = false)
    (h : codecStep c s e = some s') : s'.codec.leftLoop = true → s'.running = false := by
  have hrun : s'.running = s.running := by
    obtain ⟨sp, mp, codec, drop, rfl⟩ := codecStep_frame h
    rfl
  rw [hrun]
  cases hpc : s.codec <;> simp only [codecStep, hpc, Option.map_eq_some_iff, reduceCtorEq] at h <;>
    rw [hpc] at hi
  case top =>
    cases h
    split
    · intro hleft
      cases hleft
    · intro _
      exact Bool.eq_false_iff.mpr ‹_›
  case dequeue | acquire | enqueue =>
    obtain ⟨pool, -, rfl⟩ := h
    intro hleft
    split at hleft <;> cases hleft
  case full =>
    cases h
    intro hleft
    cases hleft
  case fullRelease | release =>
    obtain ⟨pool, -, rfl⟩ := h
    intro hleft
    cases hleft
  case encode =>
    split at h
    · obtain ⟨mp, -, rfl⟩ := Option.map_eq_some_iff.mp h
      intro hleft
      cases hleft
    · cases h
  all_goals exact fun _ => hi rfl

theorem codecStep_aligned {e : Encode} (hi : Aligned s) (h : codecStep c s e = some s') :
    Aligned s' := by
  obtain ⟨hsp, hmp, hprod, hcons⟩ := codecStep_pool hi.codecSp hi.codecMp h
  have hmain : s'.main = s.main → s'.running = s.running → s'.cap = s.cap → s'.pb = s.pb →
      MainOk s' := hi.main.of_codec (codecStep_running h)
  have hleft := codecStep_left hi.left h
  have hpool : Mpsc.MInv s'.mp := by
    rcases codecStep_mp h with hsame | hstep | ⟨body, hstep⟩ | ⟨-, hstep⟩
    · rw [hsame]
      exact hi.mp
    all_goals exact Mpsc.step_minv hi.mp hstep
  obtain ⟨sp, mp, codec, drop, rfl⟩ := codecStep_frame h
  exact
    { cap := by
        rw [hprod]
        exact hi.cap
      codecSp := hsp
      codecMp := hmp
      pb := by
        rw [hcons]
        exact hi.pb
      mp := hpool
      left := hleft
      main := hmain rfl rfl rfl rfl }

/-! ## The playback thread -/

theorem MainOk.of_pb (hm : MainOk s) (hne : ¬ PbEnded s.pb) (hmain : s'.main = s.main)
    (hrun : s'.running = s.running) (hcap : s'.cap = s.cap) (hcodec : s'.codec = s.codec) :
    MainOk s' := by
  have hoff : s.pb ≠ .off := fun h => hne (.inl h)
  unfold MainOk at hm ⊢
  rw [hmain, hrun, hcap, hcodec]
  cases hpc : s.main <;> simp only [hpc] at hm ⊢
  case spawnPb => exact absurd hm.2.2.2 hoff
  case idle | failed | stopped => exact absurd hm.2.2.2 hne
  all_goals exact hm

theorem pbStep_running {w : Int} (h : pbStep c s w = some s') : ¬ PbEnded s.pb := by
  rintro (hpc | hpc)
  · simp [pbStep, hpc] at h
  · cases hpb : s.pb <;> rw [hpb] at hpc <;> cases hpc
    simp [pbStep, hpb] at h

/-- What the playback thread does to the second pool. -/
theorem pbStep_mp {w : Int} (h : pbStep c s w = some s') :
    s'.mp = s.mp ∨ Mpsc.step s.mp (Mpsc.dequeueOp s.mp.cons) = some s'.mp ∨
      Mpsc.step s.mp .release = some s'.mp := by
  cases hpc : s.pb <;> simp only [pbStep, hpc, Option.map_eq_some_iff, reduceCtorEq] at h
  case test =>
    split at h <;> cases h
    exact .inl rfl
  case write =>
    split at h
    · split at h
      · split at h
        · cases h
          exact .inl rfl
        · split at h <;> cases h <;> exact .inl rfl
      · split at h <;> cases h
        exact .inl rfl
    · cases h
  case top | stat =>
    cases h
    exact .inl rfl
  case dequeue =>
    obtain ⟨mp, hstep, rfl⟩ := h
    exact .inr (.inl hstep)
  case release | leave =>
    obtain ⟨mp, hstep, rfl⟩ := h
    exact .inr (.inr hstep)

theorem pbStep_pool {w : Int} (hi : Mpsc.MInv s.mp) (hpb : PbOk s.pb s.mp.cons)
    (h : pbStep c s w = some s') : PbOk s'.pb s'.mp.cons ∧ s'.mp.prod = s.mp.prod := by
  cases hpc : s.pb <;> simp only [pbStep, hpc, Option.map_eq_some_iff, reduceCtorEq] at h <;>
    rw [hpc] at hpb
  case top =>
    cases h
    have hidle : s.mp.cons = .idle := hpb
    refine ⟨?_, rfl⟩
    split
    · intro i
      simp [hidle]
    · exact hidle
  case dequeue =>
    obtain ⟨mp, hstep, rfl⟩ := h
    rcases Mpsc.dequeue_cases hi hstep with ⟨-, -, rfl⟩ | ⟨-, -, rfl⟩ | ⟨-, -, rfl⟩ |
      ⟨-, -, rfl⟩ | ⟨i, -, -, rfl⟩ | ⟨i, -, -, rfl⟩ | ⟨i, -, rfl⟩ | ⟨i, -, rfl⟩
    case inr.inr.inr.inr.inr.inr.inr => exact ⟨⟨i, rfl⟩, rfl⟩
    all_goals exact ⟨fun i hi => (nomatch hi), rfl⟩
  case test =>
    split at h <;> cases h
    refine ⟨?_, rfl⟩
    split <;> exact hpb
  case write =>
    split at h
    · split at h
      · split at h
        · cases h
          exact ⟨hpb, rfl⟩
        · split at h <;> cases h <;> exact ⟨hpb, rfl⟩
      · split at h <;> cases h
        exact ⟨hpb, rfl⟩
    · cases h
  case stat =>
    cases h
    exact ⟨hpb, rfl⟩
  case release | leave =>
    obtain ⟨mp, hstep, rfl⟩ := h
    obtain ⟨i, -, rfl⟩ := Mpsc.release_eq_some hstep
    exact ⟨rfl, rfl⟩

theorem pbStep_aligned {w : Int} (hi : Aligned s) (h : pbStep c s w = some s') : Aligned s' := by
  obtain ⟨hpb, hprod⟩ := pbStep_pool hi.mp hi.pb h
  have hmain : s'.main = s.main → s'.running = s.running → s'.cap = s.cap →
      s'.codec = s.codec → MainOk s' := hi.main.of_pb (pbStep_running h)
  have hpool : Mpsc.MInv s'.mp := by
    rcases pbStep_mp h with hsame | hstep | hstep
    · rw [hsame]
      exact hi.mp
    all_goals exact Mpsc.step_minv hi.mp hstep
  obtain ⟨mp, pb, xrun, error, frames, rfl⟩ := pbStep_frame h
  exact
    { cap := hi.cap
      codecSp := hi.codecSp
      codecMp := by
        rw [hprod]
        exact hi.codecMp
      pb := hpb
      mp := hpool
      left := hi.left
      main := hmain rfl rfl rfl rfl }

/-! ## The calling thread -/

/-- A thread that has ended, or was never created, has nothing of either pool. -/
theorem Aligned.ended (hi : Aligned s) :
    (CapEnded s.cap → s.sp.prod = .idle) ∧
      (CodecEnded s.codec → s.sp.cons = .idle ∧ s.sp.held = [] ∧ s.mp.prod () = .idle) ∧
        (PbEnded s.pb → s.mp.cons = .idle) := by
  obtain ⟨hcap, hsp, hmp, hpb, -, -, -⟩ := hi
  refine ⟨?_, ?_, ?_⟩
  · rintro (hpc | hpc) <;> rw [hpc] at hcap <;> exact hcap
  · rintro (hpc | hpc) <;> rw [hpc] at hsp hmp <;> exact ⟨hsp.1, hsp.2, hmp⟩
  · rintro (hpc | hpc)
    · rw [hpc] at hpb
      exact hpb
    · cases hend : s.pb <;> rw [hend] at hpc hpb <;> cases hpc
      exact hpb

theorem startStores_aligned (hi : Aligned s)
    (hend : CapEnded s.cap ∧ CodecEnded s.codec ∧ PbEnded s.pb) : Aligned s.startStores := by
  obtain ⟨hcap, hcodec, hpb⟩ := hi.ended
  obtain ⟨hcons, hheld, hprod⟩ := hcodec hend.2.1
  exact
    { cap := hcap hend.1
      codecSp := ⟨hcons, hheld⟩
      codecMp := hprod
      pb := hpb hend.2.2
      mp := hi.mp
      left := fun h => nomatch h
      main := ⟨rfl, rfl, rfl, rfl⟩ }

theorem spawnStep_aligned {rc : Int} (hi : Aligned s) (h : spawnStep s rc = some s') :
    Aligned s' := by
  have hm := hi.main
  unfold MainOk at hm
  cases hpc : s.main <;> simp only [spawnStep, hpc, reduceCtorEq] at h <;> rw [hpc] at hm
  case spawnPb =>
    obtain ⟨hrun, hcap, hcodec, hpb⟩ := hm
    have hidle := hi.pb
    rw [hpb] at hidle
    split at h <;> cases h
    · exact
        { hi with
          left := fun _ => rfl
          main := ⟨rfl, .inl hcap, .inl hcodec, .inl hpb⟩ }
    · refine { hi with pb := ?_, main := ⟨hrun, hcap, hcodec⟩ }
      unfold spawned
      split <;> exact hidle
  case spawnCodec =>
    obtain ⟨hrun, hcap, hcodec⟩ := hm
    have hsp := hi.codecSp
    have hmp := hi.codecMp
    rw [hcodec] at hsp hmp
    split at h <;> cases h
    · exact { hi with left := fun _ => rfl, main := ⟨rfl, hcap, .inl hcodec⟩ }
    · refine
        { hi with
          codecSp := ?_
          codecMp := ?_
          left := ?_
          main := ⟨hrun, hcap⟩ }
      · unfold spawned
        split <;> exact hsp
      · unfold spawned
        split <;> exact hmp
      · unfold spawned
        intro hleft
        split at hleft <;> cases hleft
  case spawnCap =>
    obtain ⟨hrun, hcap⟩ := hm
    have hidle := hi.cap
    rw [hcap] at hidle
    split at h <;> cases h
    · exact { hi with left := fun _ => rfl, main := ⟨rfl, hcap⟩ }
    · refine { hi with cap := ?_, main := hrun }
      unfold spawned
      split <;> exact hidle

theorem joinStep_aligned (hi : Aligned s) (h : joinStep s = some s') : Aligned s' := by
  have hm := hi.main
  unfold MainOk at hm
  cases hpc : s.main <;> simp only [joinStep, hpc, reduceCtorEq] at h <;> rw [hpc] at hm <;>
    split at h <;> cases h
  case unwindCodec => exact { hi with main := ⟨hm.1, hm.2, .inr ‹_›⟩ }
  case unwindPb => exact { hi with main := ⟨hm.1, .inl hm.2.1, hm.2.2, .inr ‹_›⟩ }
  case joinCap => exact { hi with main := ⟨hm, .inr ‹_›⟩ }
  case joinCodec => exact { hi with main := ⟨hm.1, hm.2, .inr ‹_›⟩ }
  case joinPb => exact { hi with main := ⟨hm.1, hm.2.1, hm.2.2, .inr ‹_›⟩ }

theorem mainStep_aligned {a : Act} (hi : Aligned s) (h : mainStep s a = some s') :
    Aligned s' := by
  have hm := hi.main
  unfold MainOk at hm
  cases a <;> simp only [mainStep, reduceCtorEq] at h
  case start =>
    cases hpc : s.main <;> simp only [hpc, reduceCtorEq] at h <;> rw [hpc] at hm <;> cases h
    all_goals exact startStores_aligned hi hm.2
  case spawn => exact spawnStep_aligned hi h
  case stop =>
    cases hpc : s.main <;> simp only [hpc, reduceCtorEq] at h <;> split at h <;> cases h
    all_goals first
      | exact hi
      | exact { hi with left := fun _ => rfl, main := rfl }
  case join => exact joinStep_aligned hi h

/-! ## All threads -/

theorem step_aligned {a : Act} (hi : Aligned s) (h : step c s a = some s') : Aligned s' := by
  cases a with
  | cap r => exact capStep_aligned hi h
  | codec e => exact codecStep_aligned hi h
  | pb w => exact pbStep_aligned hi h
  | start => exact mainStep_aligned (a := .start) hi h
  | spawn rc => exact mainStep_aligned (a := .spawn rc) hi h
  | stop => exact mainStep_aligned (a := .stop) hi h
  | join => exact mainStep_aligned (a := .join) hi h

/-- What the capture thread does to the first pool. -/
theorem capStep_sp {r : Read} (h : capStep c s r = some s') :
    s'.sp = s.sp ∨ Spsc.step N s.sp (Spsc.acquireOp s.sp.prod) = some s'.sp ∨
      (∃ body, Spsc.step N s.sp (.fill body) = some s'.sp) ∨
      s.cap = .commit ∧ Spsc.step N s.sp .commit = some s'.sp ∨
      Spsc.step N s.sp .abandon = some s'.sp := by
  cases hpc : s.cap <;> simp only [capStep, hpc, Option.map_eq_some_iff, reduceCtorEq] at h
  case acquire =>
    obtain ⟨sp, hstep, rfl⟩ := h
    exact .inr (.inl hstep)
  case discard => split at h <;> cases h <;> exact .inl rfl
  case read =>
    split at h
    · cases h
      exact .inl rfl
    · split at h
      · obtain ⟨sp, hstep, rfl⟩ := Option.map_eq_some_iff.mp h
        exact .inr (.inr (.inl ⟨_, hstep⟩))
      · cases h
  case commit =>
    obtain ⟨sp, hstep, rfl⟩ := h
    exact .inr (.inr (.inr (.inl ⟨rfl, hstep⟩)))
  case release n =>
    obtain ⟨sp, hstep, rfl⟩ := h
    refine .inr (.inr (.inr (.inr ?_)))
    split <;> exact hstep
  case top | full | count | fail =>
    cases h
    exact .inl rfl

/-- What the codec thread does to the first pool. -/
theorem codecStep_sp {e : Encode} (h : codecStep c s e = some s') :
    s'.sp = s.sp ∨ Spsc.step N s.sp (Spsc.dequeueOp s.sp.cons) = some s'.sp ∨
      ∃ f, Spsc.step N s.sp (.release f) = some s'.sp := by
  cases hpc : s.codec <;> simp only [codecStep, hpc, Option.map_eq_some_iff, reduceCtorEq] at h
  case encode | sentinel =>
    split at h
    · obtain ⟨mp, -, rfl⟩ := Option.map_eq_some_iff.mp h
      exact .inl rfl
    · cases h
  case dequeue | drain =>
    obtain ⟨sp, hstep, rfl⟩ := h
    exact .inr (.inl hstep)
  case fullRelease | release | drainRelease =>
    obtain ⟨sp, hstep, rfl⟩ := h
    exact .inr (.inr ⟨_, hstep⟩)
  case top | full =>
    cases h
    exact .inl rfl
  case acquire | post | enqueue | sentinelEnqueue =>
    obtain ⟨mp, -, rfl⟩ := h
    exact .inl rfl

/-- Only the capture thread commits. -/
theorem codecStep_committed {e : Encode} (h : codecStep c s e = some s') :
    s'.sp.committed = s.sp.committed := by
  rcases codecStep_sp h with hsame | hstep | ⟨f, hstep⟩
  · rw [hsame]
  · rcases Spsc.dequeue_cases hstep with ⟨-, hsp⟩ | ⟨w, n, -, -, hsp⟩ | ⟨w, n, -, -, hsp⟩ |
      ⟨idx, n, -, -, hsp⟩ | ⟨idx, n, -, hsp⟩ | ⟨idx, -, hsp⟩ <;> rw [hsp]
  · obtain ⟨-, -, hsp⟩ := Spsc.release_eq_some hstep
    rw [hsp]

/-- The calling thread touches neither pool. -/
theorem mainStep_pools {a : Act} (h : mainStep s a = some s') : s'.sp = s.sp ∧ s'.mp = s.mp := by
  cases a <;> simp only [mainStep, reduceCtorEq] at h
  case start => split at h <;> cases h <;> exact ⟨rfl, rfl⟩
  case spawn rc =>
    simp only [spawnStep] at h
    split at h
    case h_4 => cases h
    all_goals split at h <;> cases h <;> exact ⟨rfl, rfl⟩
  case stop =>
    split at h
    case h_5 => cases h
    all_goals split at h <;> cases h <;> exact ⟨rfl, rfl⟩
  case join =>
    simp only [joinStep] at h
    split at h
    case h_6 => cases h
    all_goals
      split at h <;> cases h
      exact ⟨rfl, rfl⟩

theorem step_sp {a : Act} (h : step c s a = some s') :
    s'.sp = s.sp ∨ ∃ l, Spsc.step N s.sp l = some s'.sp := by
  cases a with
  | cap r =>
    rcases capStep_sp h with hsame | hstep | ⟨body, hstep⟩ | ⟨-, hstep⟩ | hstep
    · exact .inl hsame
    all_goals exact .inr ⟨_, hstep⟩
  | codec e =>
    rcases codecStep_sp h with hsame | hstep | ⟨f, hstep⟩
    · exact .inl hsame
    all_goals exact .inr ⟨_, hstep⟩
  | pb w =>
    obtain ⟨mp, pb, xrun, error, frames, rfl⟩ := pbStep_frame h
    exact .inl rfl
  | start => exact .inl (mainStep_pools (a := .start) h).1
  | spawn rc => exact .inl (mainStep_pools (a := .spawn rc) h).1
  | stop => exact .inl (mainStep_pools (a := .stop) h).1
  | join => exact .inl (mainStep_pools (a := .join) h).1

theorem step_mp {a : Act} (h : step c s a = some s') :
    s'.mp = s.mp ∨ ∃ l, Mpsc.step s.mp l = some s'.mp := by
  cases a with
  | cap r =>
    obtain ⟨sp, cap, xrun, error, frames, drop, reads, rfl⟩ := capStep_frame h
    exact .inl rfl
  | codec e =>
    rcases codecStep_mp h with hsame | hstep | ⟨body, hstep⟩ | ⟨-, hstep⟩
    · exact .inl hsame
    all_goals exact .inr ⟨_, hstep⟩
  | pb w =>
    rcases pbStep_mp h with hsame | hstep | hstep
    · exact .inl hsame
    all_goals exact .inr ⟨_, hstep⟩
  | start => exact .inl (mainStep_pools (a := .start) h).2
  | spawn rc => exact .inl (mainStep_pools (a := .spawn rc) h).2
  | stop => exact .inl (mainStep_pools (a := .stop) h).2
  | join => exact .inl (mainStep_pools (a := .join) h).2

/-- What the steps of the first pool preserve, the pipeline preserves. -/
theorem step_of_sp {I : Spsc Body → Prop} (hstep : ∀ t l t', I t → Spsc.step N t l = some t' → I t')
    {a : Act} (hi : I s.sp) (h : step c s a = some s') : I s'.sp := by
  rcases step_sp h with hsame | ⟨l, hl⟩
  · rw [hsame]
    exact hi
  · exact hstep _ l _ hi hl

/-- What the steps of the second pool preserve, the pipeline preserves. -/
theorem step_of_mp {I : Mpsc Unit Body N → Prop}
    (hstep : ∀ t l t', I t → Mpsc.step t l = some t' → I t') {a : Act} (hi : I s.mp)
    (h : step c s a = some s') : I s'.mp := by
  rcases step_mp h with hsame | ⟨l, hl⟩
  · rw [hsame]
    exact hi
  · exact hstep _ l _ hi hl

theorem step_spInv {a : Act} (hi : Spsc.Inv N s.sp) (h : step c s a = some s')
    (hlt : s'.sp.committed.length < 2 ^ 31) : Spsc.Inv N s'.sp := by
  rcases step_sp h with hsame | ⟨l, hl⟩
  · rw [hsame]
    exact hi
  · exact Spsc.step_inv hi hlt hl

theorem step_mpOwned {a : Act} (hi : Aligned s) (ho : Mpsc.Owned s.mp)
    (h : step c s a = some s') : Mpsc.Owned s'.mp := by
  have hboth := step_of_mp (I := fun t => Mpsc.MInv t ∧ Mpsc.Owned t)
    (fun _ _ _ ht hl => ⟨Mpsc.step_minv ht.1 hl, Mpsc.step_owned ht.1.ref ht.2 hl⟩)
    ⟨hi.mp, ho⟩ h
  exact hboth.2

end Pipeline
end Audio
end BuildingBlocks
