import BuildingBlocks.Audio.Sentinel
import BuildingBlocks.Audio.Stop
import BuildingBlocks.Lib.History

/-!
# BuildingBlocks.Audio.Encoder

The capacity `codec_thread_fn` gives to `codec_ops->encode`. `bb_pool_init` leaves the size of each
buffer in `size`, the codec thread leaves there the length of what it put in, and the next call gets
`size` as `out_cap`.

`encoder_iff`: the capacity is the size of the buffer exactly when the frame is new or was filled to
the last byte.
-/

namespace BuildingBlocks
namespace Audio

open Pool Lib

/-- The frames of `bb_pool_init`. -/
def pooled {ι : Type*} (frameSize : Nat) (data : ι → List UInt8) (i : ι) : Body where
  data := data i
  size := frameSize
  pts := 0
  frameNum := 0
  shutdown := false

/-- The arguments of `codec_ops->encode`. -/
structure EncodeCall (N : Nat) where
  pcm : List UInt8
  pcmLen : Nat
  out : Fin N
  outCap : Nat

/-- What the codec thread put into a frame. -/
inductive Use where
  | encoded (e : Encode)
  | sentinel

/-- The length the codec thread leaves in the frame. -/
def Use.len : Use → Nat
  | .encoded e => if e.ret = 0 then e.outLen else 0
  | .sentinel => 0

namespace Pipeline

variable {N : Nat} {c : Setup} {s s' : Pipeline N}

/-- The call of `encode` the codec thread makes next. -/
def encodeCall (c : Setup) (s : Pipeline N) : Option (EncodeCall N) :=
  match s.codec, s.mp.prod () with
  | .encode f, .owns i =>
    if c.hasCodec then
      some {
        pcm := (s.sp.frames f).body.data
        pcmLen := (s.sp.frames f).body.size
        out := i
        outCap := (s.mp.frames i).body.size }
    else none
  | _, _ => none

/-- `encode` may write the whole buffer of its frame, and no more. -/
def Capacity (c : Setup) (frameSize : Nat) (s : Pipeline N) : Act → Prop
  | .codec _ => ∀ call ∈ encodeCall c s, call.outCap = frameSize
  | _ => True

/-- The frames the codec thread has filled, and with what last. -/
def noteUse (s : Pipeline N) (a : Act) (last : Fin N → Option Use) : Fin N → Option Use :=
  match a, s.codec, s.mp.prod () with
  | .codec e, .encode _, .owns i => Function.update last i (some (.encoded e))
  | .codec _, .sentinel, .owns i => Function.update last i (some .sentinel)
  | _, _, _ => last

/-- The frame for `encode` is new, or was filled completely. -/
def Refilled (c : Setup) (frameSize : Nat) (s : Pipeline N × (Fin N → Option Use)) : Act → Prop
  | .codec _ => ∀ call ∈ encodeCall c s.1, ∀ u ∈ s.2 call.out, u.len = frameSize
  | _ => True

instance (c : Setup) (frameSize : Nat) (s : Pipeline N × (Fin N → Option Use)) :
    DecidablePred (Refilled c frameSize s)
  | .codec _ =>
    inferInstanceAs (Decidable (∀ call ∈ encodeCall c s.1, ∀ u ∈ s.2 call.out, u.len = frameSize))
  | .start | .spawn _ | .stop | .join | .cap _ | .pb _ => .isTrue trivial

/-- The size of a frame is that of its buffer, or the length of what was put in last. -/
structure Sized (frameSize : Nat) (s : Pipeline N × (Fin N → Option Use)) : Prop where
  aligned : Aligned s.1
  size : ∀ i, (s.1.mp.frames i).body.size = (s.2 i).elim frameSize Use.len

/-! ## The bodies of the frames -/

section Frames

variable {mp mp' : Mpsc Unit Body N}

theorem acquire_body (h : Mpsc.step mp (Mpsc.acquireOp () (mp.prod ())) = some mp') (i : Fin N) :
    (mp'.frames i).body = (mp.frames i).body := by
  rcases Mpsc.acquire_cases h with ⟨-, rfl⟩ | ⟨j, -, -, rfl⟩ | ⟨j, -, -, rfl⟩ | ⟨j, -, -, rfl⟩
  case inr.inr.inr => exact setRef_body _
  all_goals rfl

theorem enqueue_body (h : Mpsc.step mp (Mpsc.enqueueOp () (mp.prod ())) = some mp') (i : Fin N) :
    (mp'.frames i).body = (mp.frames i).body := by
  rcases Mpsc.enqueue_cases h with ⟨j, -, rfl⟩ | ⟨-, -, rfl⟩ | ⟨-, rfl⟩ | ⟨-, rfl⟩ | ⟨-, rfl⟩
  case inl => exact setRef_body _
  all_goals rfl

end Frames

/-- The codec thread leaves in the frame it fills the length of what it puts there, and every other
frame as it was. -/
theorem codecStep_sized {frameSize : Nat} {last : Fin N → Option Use} (hcodec : c.hasCodec = true)
    {e : Encode} (hi : Sized frameSize (s, last)) (h : codecStep c s e = some s') (i : Fin N) :
    (s'.mp.frames i).body.size = (noteUse s (.codec e) last i).elim frameSize Use.len := by
  cases hpc : s.codec <;>
    simp only [codecStep, hpc, Option.map_eq_some_iff, reduceCtorEq] at h <;>
    simp only [noteUse, hpc]
  case acquire | post =>
    obtain ⟨mp, hstep, rfl⟩ := h
    rw [acquire_body hstep]
    exact hi.size i
  case encode | sentinel =>
    split at h
    · rename_i j hown
      obtain ⟨mp, hstep, rfl⟩ := Option.map_eq_some_iff.mp h
      obtain ⟨j', hown', rfl⟩ := Mpsc.fill_eq_some hstep
      rw [hown, MpProdPc.owns.injEq] at hown'
      subst hown'
      simp only [hown]
      by_cases hij : i = j
      · subst hij
        simp [setBody, encoded, hcodec, Use.len]
      · simp only [setBody_of_ne _ hij, Function.update_of_ne hij]
        exact hi.size i
    · cases h
  case enqueue | sentinelEnqueue =>
    obtain ⟨mp, hstep, rfl⟩ := h
    rw [enqueue_body hstep]
    exact hi.size i
  case top | full =>
    cases h
    exact hi.size i
  all_goals
    obtain ⟨sp, -, rfl⟩ := h
    exact hi.size i

theorem step_sized {frameSize : Nat} {last last' : Fin N → Option Use} (hcodec : c.hasCodec = true)
    {a : Act} (hi : Sized frameSize (s, last))
    (h : noted (step c) noteUse (s, last) a = some (s', last')) : Sized frameSize (s', last') := by
  obtain ⟨hstep, rfl⟩ := noted_eq_some.mp h
  refine ⟨step_aligned hi.aligned hstep, fun i => ?_⟩
  have hmain : s'.mp = s.mp → (s'.mp.frames i).body.size = (last i).elim frameSize Use.len := by
    intro hmp
    rw [hmp]
    exact hi.size i
  cases a with
  | codec e => exact codecStep_sized hcodec hi hstep i
  | cap r =>
    obtain ⟨sp, cap, xrun, error, frames, drop, reads, rfl⟩ := capStep_frame hstep
    exact hi.size i
  | pb w =>
    show (s'.mp.frames i).body.size = _
    rw [pbStep_body hi.aligned hstep]
    exact hi.size i
  | start => exact hmain (mainStep_pools (a := .start) hstep).2
  | spawn rc => exact hmain (mainStep_pools (a := .spawn rc) hstep).2
  | stop => exact hmain (mainStep_pools (a := .stop) hstep).2
  | join => exact hmain (mainStep_pools (a := .join) hstep).2

theorem Sized.capacity_iff_refilled {frameSize : Nat} {t : Pipeline N × (Fin N → Option Use)}
    {a : Act} (hi : Sized frameSize t) : Capacity c frameSize t.1 a ↔ Refilled c frameSize t a := by
  cases a with
  | codec e =>
    refine forall₂_congr fun call hcall => ?_
    have hcap : call.outCap = (t.1.mp.frames call.out).body.size := by
      rw [Option.mem_def, encodeCall] at hcall
      split at hcall
      · split_ifs at hcall
        cases hcall
        rfl
      · cases hcall
    rw [hcap, hi.size]
    cases t.2 call.out <;> simp
  | _ => exact Iff.rfl

/-- **The capacity is right exactly for frames that are new or full.** In every run with a codec,
whatever the codec returns, each call of `encode` is given the size of the buffer as its capacity,
if and only if each goes to a frame that was not filled before or whose last content was as long as
the buffer. -/
theorem encoder_iff (c : Setup) (hcodec : c.hasCodec = true) (frameSize : Nat) (spBody : Int → Body)
    (data : Fin N → List UInt8) (as : List Act) (s : Pipeline N)
    (hr : run (step c) (init spBody (pooled frameSize data)) as = some s) :
    Meets (step c) (Capacity c frameSize) (init spBody (pooled frameSize data)) as ↔
      Meets (noted (step c) noteUse) (Refilled c frameSize)
        (init spBody (pooled frameSize data), fun _ => none) as := by
  obtain ⟨last, hnoted⟩ := exists_run_noted noteUse hr fun _ => none
  have hinit : Sized frameSize (init spBody (pooled frameSize data), fun _ => none) :=
    ⟨aligned_init _ _, fun _ => rfl⟩
  refine (meets_noted noteUse fun _ => none).symm.trans ?_
  exact meets_iff_of_invariant (P := fun s a => Capacity c frameSize s.1 a)
    (Q := Refilled c frameSize) (I := Sized frameSize) (fun _ _ _ hi _ => hi.capacity_iff_refilled)
    (fun _ _ _ hi _ h => step_sized hcodec hi h) hinit hnoted

def codecSetup : Setup := { stereoSetup with hasCodec := true }

/-- A pool of one frame with a buffer of 1920 bytes. -/
def oneFrame : Pipeline 1 := init (pooled 1920 fun _ => []) (pooled 1920 fun _ => [])

/-- A period is read, encoded with result `e` and played, and the next is read and comes to the
codec. -/
def nextEncode (e : Encode) (w : Int) : List Act :=
  startAll ++ List.replicate 7 (.cap { n := 480, data := [] }) ++ List.replicate 14 (.codec e) ++
    List.replicate 10 (.pb w) ++ List.replicate 7 (.cap { n := 480, data := [] }) ++
    List.replicate 7 (.codec e)

theorem encoder_full :
    ∃ s, run (step codecSetup) oneFrame
        (nextEncode { ret := 0, data := [], outLen := 1920 } 480 ++ [.codec noEncode]) = some s ∧
      Meets (step codecSetup) (Capacity codecSetup 1920) oneFrame
        (nextEncode { ret := 0, data := [], outLen := 1920 } 480 ++ [.codec noEncode]) := by
  obtain ⟨s, hs⟩ : ∃ s, run (step codecSetup) oneFrame
      (nextEncode { ret := 0, data := [], outLen := 1920 } 480 ++ [.codec noEncode]) = some s :=
    ⟨_, rfl⟩
  refine ⟨s, hs, ?_⟩
  exact (encoder_iff codecSetup rfl 1920 (pooled 1920 fun _ => []) (fun _ => []) _ s hs).mpr
    (by decide)

/-- After an output of 120 bytes the next call is told that the buffer of 1920 bytes has 120. -/
theorem encoder_shrinks :
    (∃ s call, run (step codecSetup) oneFrame
        (nextEncode { ret := 0, data := [], outLen := 120 } 30) = some s ∧
      encodeCall codecSetup s = some call ∧ call.outCap = 120) ∧
      ¬ Meets (step codecSetup) (Capacity codecSetup 1920) oneFrame
        (nextEncode { ret := 0, data := [], outLen := 120 } 30 ++ [.codec noEncode]) := by
  obtain ⟨s, call, hs, hcall, hcap⟩ : ∃ s call, run (step codecSetup) oneFrame
        (nextEncode { ret := 0, data := [], outLen := 120 } 30) = some s ∧
      encodeCall codecSetup s = some call ∧ call.outCap = 120 := ⟨_, _, rfl, rfl, rfl⟩
  refine ⟨⟨s, call, hs, hcall, hcap⟩, fun hm => ?_⟩
  have hlaw := hm.of_run hs call hcall
  rw [hcap] at hlaw
  exact absurd hlaw (by decide)

end Pipeline
end Audio
end BuildingBlocks
