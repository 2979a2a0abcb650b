import BuildingBlocks.Audio.PipelineInv

/-!
# BuildingBlocks.Audio.Wake

Why a stopped stream does not leave the playback thread asleep.

The codec thread gives up on the sentinel when a hundred scans of the pool found no free frame. A
scan is not atomic, and the playback thread may free a frame behind it. But in a stopped stream the
playback thread that has taken nothing releases nothing before it takes a frame, and the codec
thread, which scans, owns nothing: every frame the scan has passed is ready and stays so.

* `WakeOk` is that invariant, at each point of the codec thread after its loop.
* `wake_pending` — when the codec thread has ended, a playback thread inside `bb_pool_mp_dequeue`
  finds `mp_pending` positive.
-/

namespace BuildingBlocks
namespace Audio

open Pool Lib

namespace Pipeline

variable {N : Nat} {c : Setup} {s s' : Pipeline N}

/-- The playback thread is in `bb_pool_mp_dequeue` and has taken nothing. -/
def Awaiting (s : Pipeline N) : Prop := s.pb = .dequeue ∧ s.mp.cons.taken = none

/-- What the codec thread knows, by where it is. -/
def Promise (s : Pipeline N) : Prop :=
  match s.codec with
  | .post _ => ∀ i, s.mp.prod () = .scan i → ∀ j : Fin N, j < i → s.mp.Ready j
  | .sentinelEnqueue => (∀ i, s.mp.prod () ≠ .owns i) → ∃ j, s.mp.Ready j
  | .done => ∃ j, s.mp.Ready j
  | _ => True

def WakeOk (s : Pipeline N) : Prop := s.running = false → Awaiting s → Promise s

theorem promise_of_not_left (h : s.codec.leftLoop = false) : Promise s := by
  unfold Promise
  cases hpc : s.codec <;> rw [hpc] at h
  case post | sentinelEnqueue | done => cases h
  all_goals trivial

theorem promise_of_drain
    (h : (∀ retry, s.codec ≠ .post retry) ∧ s.codec ≠ .sentinelEnqueue ∧ s.codec ≠ .done) :
    Promise s := by
  unfold Promise
  cases hpc : s.codec
  case post retry => exact absurd hpc (h.1 retry)
  case sentinelEnqueue => exact absurd hpc h.2.1
  case done => exact absurd hpc h.2.2
  all_goals trivial

/-- Ready frames that stay ready keep the promise. -/
theorem Promise.congr (h : Promise s) (hcodec : s'.codec = s.codec)
    (hprod : s'.mp.prod = s.mp.prod) (hready : ∀ i, s.mp.Ready i → s'.mp.Ready i) :
    Promise s' := by
  unfold Promise at h ⊢
  rw [hcodec, hprod]
  cases hpc : s.codec <;> rw [hpc] at h
  case post retry => exact fun i hi j hj => hready j (h i hi j hj)
  case sentinelEnqueue =>
    intro hno
    obtain ⟨j, hj⟩ := h hno
    exact ⟨j, hready j hj⟩
  case done =>
    obtain ⟨j, hj⟩ := h
    exact ⟨j, hready j hj⟩
  all_goals trivial

/-! ## The codec thread -/

/-- A frame the scan finds in use is ready, when the playback thread has none. -/
theorem ready_of_used {mp : Mpsc Unit Body N} (hi : Mpsc.RefOk mp) (ho : Mpsc.Owned mp)
    (hn : mp.cons.taken = none) {k : Nat} (hpc : mp.prod () = .scan k) {i : Fin N}
    (hused : (mp.frames i).refcount ≠ 0) : mp.Ready i := by
  have hrange := hi.range i
  have hone : (mp.frames i).refcount ≠ 1 := by
    intro hone
    obtain ⟨p, hp⟩ := ho i hone
    rw [hpc] at hp
    cases hp
  exact ⟨by omega, by simp [hn]⟩

/-- The codec thread in a scan for the sentinel's frame. -/
theorem post_promise (hN : 0 < N) (hi : Mpsc.MInv s.mp) (ho : Mpsc.Owned s.mp) {retry : Nat}
    (hn : s.mp.cons.taken = none) (hpc : s.codec = .post retry) (hp : Promise s)
    {mp : Mpsc Unit Body N}
    (h : Mpsc.step s.mp (Mpsc.acquireOp () (s.mp.prod ())) = some mp) :
    Promise { s with
      mp := mp
      codec := match Mpsc.acquireCall (mp.prod ()) with
        | .inside => .post retry
        | .returned none => if retry + 1 < 100 then .post (retry + 1) else .done
        | .returned (some _) => .sentinel } := by
  unfold Promise at hp
  simp only [hpc] at hp
  rcases Mpsc.acquire_cases h with ⟨-, rfl⟩ | ⟨i, hscan, hle, rfl⟩ | ⟨i, hscan, hused, rfl⟩ |
    ⟨i, -, -, rfl⟩
  · simp only [Promise, Mpsc.setProd, Function.update_self, Mpsc.acquireCall]
    intro i hi j hj
    obtain rfl : 0 = i := by simpa using hi
    exact absurd hj (Nat.not_lt_zero _)
  · -- the scan is over: every frame is ready
    have hall : ∀ j : Fin N, s.mp.Ready j := fun j => hp i hscan j (j.isLt.trans_le hle)
    by_cases hretry : retry + 1 < 100
    · simp only [Promise, Mpsc.setProd, Function.update_self, Mpsc.acquireCall, if_pos hretry]
      intro k hk
      cases hk
    · simp only [Promise, Mpsc.setProd, Function.update_self, Mpsc.acquireCall, if_neg hretry]
      exact ⟨⟨0, hN⟩, hall _⟩
  · simp only [Promise, Mpsc.setProd, Function.update_self, Mpsc.acquireCall]
    intro k hk j hj
    obtain rfl : (i : Nat) + 1 = k := by simpa using hk
    rcases Nat.lt_succ_iff_lt_or_eq.mp hj with hlt | heq
    · exact hp i hscan j hlt
    · obtain rfl : j = i := Fin.ext heq
      exact ready_of_used hi.ref ho hn hscan hused
  · simp only [Promise, Mpsc.setProd, Function.update_self, Mpsc.acquireCall]

theorem sentinelEnqueue_promise (hi : Mpsc.MInv s.mp) (hpc : s.codec = .sentinelEnqueue)
    (hp : Promise s) {mp : Mpsc Unit Body N}
    (h : Mpsc.step s.mp (Mpsc.enqueueOp () (s.mp.prod ())) = some mp) :
    Promise { s with
      mp := mp
      codec := match Mpsc.enqueueCall (mp.prod ()) with
        | .inside => .sentinelEnqueue
        | .returned _ => .done } := by
  unfold Promise at hp
  simp only [hpc] at hp
  rcases Mpsc.enqueue_cases h with ⟨i, hown, rfl⟩ | ⟨hprod, -, rfl⟩ | ⟨hprod, rfl⟩ |
    ⟨hprod, rfl⟩ | ⟨hprod, rfl⟩
  · simp only [Promise, Mpsc.marked, Mpsc.setProd, Function.update_self, Mpsc.enqueueCall]
    exact fun _ => ⟨i, Mpsc.marked_ready_self hi.ref hown⟩
  all_goals
    obtain ⟨j, hj⟩ := hp (by simp [hprod])
    simp only [Promise, Mpsc.setProd, Function.update_self, Mpsc.enqueueCall]
  · exact fun _ => ⟨j, hj⟩
  · exact fun _ => ⟨j, hj⟩
  · exact fun _ => ⟨j, hj⟩
  · exact ⟨j, hj⟩

theorem codecStep_wake (hN : 0 < N) {e : Encode} (hi : Aligned s) (ho : Mpsc.Owned s.mp)
    (hw : WakeOk s) (h : codecStep c s e = some s') : WakeOk s' := by
  have hcons := (codecStep_pool hi.codecSp hi.codecMp h).mpCons
  have hsame : s'.pb = s.pb ∧ s'.running = s.running := by
    obtain ⟨sp, mp, codec, drop, rfl⟩ := codecStep_frame h
    exact ⟨rfl, rfl⟩
  intro hrun hawait
  rw [hsame.2] at hrun
  have hp := hw hrun ⟨hsame.1 ▸ hawait.1, hcons ▸ hawait.2⟩
  cases hpc : s.codec <;> simp only [codecStep, hpc, Option.map_eq_some_iff, reduceCtorEq] at h
  case post retry =>
    obtain ⟨mp, hstep, rfl⟩ := h
    exact post_promise hN hi.mp ho (hcons ▸ hawait.2) hpc hp hstep
  case sentinelEnqueue =>
    obtain ⟨mp, hstep, rfl⟩ := h
    exact sentinelEnqueue_promise hi.mp hpc hp hstep
  case sentinel =>
    split at h
    · rename_i i hown
      obtain ⟨mp, hstep, rfl⟩ := Option.map_eq_some_iff.mp h
      obtain ⟨j, -, rfl⟩ := Mpsc.fill_eq_some hstep
      exact fun hno => absurd hown (hno i)
    · cases h
  case drain =>
    obtain ⟨sp, -, rfl⟩ := h
    have hidle : s.mp.prod () = .idle := by
      have hmp := hi.codecMp
      rwa [hpc] at hmp
    rcases Spsc.dequeueCall s.sp.cons sp.cons with _ | _ | f
    · simp only [Promise]
    · simp only [Promise]
      intro i hscan
      rw [hidle] at hscan
      cases hscan
    · simp only [Promise]
  case top =>
    cases h
    refine promise_of_drain ?_
    simp only
    split <;> simp
  case dequeue | acquire | enqueue =>
    obtain ⟨pool, -, rfl⟩ := h
    refine promise_of_drain ?_
    simp only
    split <;> simp
  case full =>
    cases h
    trivial
  case fullRelease | release | drainRelease =>
    obtain ⟨pool, -, rfl⟩ := h
    trivial
  case encode =>
    split at h
    · obtain ⟨mp, -, rfl⟩ := Option.map_eq_some_iff.mp h
      trivial
    · cases h

/-! ## The playback thread -/

theorem pbStep_codec {w : Int} (h : pbStep c s w = some s') :
    s'.codec = s.codec ∧ s'.running = s.running := by
  obtain ⟨mp, pb, xrun, error, frames, rfl⟩ := pbStep_frame h
  exact ⟨rfl, rfl⟩

/-- A playback thread that awaits a frame in a stopped stream did so before its step, and the
frames are as they were. -/
theorem pbStep_awaiting {w : Int} (hi : Aligned s) (h : pbStep c s w = some s')
    (hrun : s.running = false) (hawait : Awaiting s') :
    Awaiting s ∧ ∀ i, s.mp.Ready i → s'.mp.Ready i := by
  obtain ⟨hpb, hn⟩ := hawait
  cases hpc : s.pb <;> simp only [pbStep, hpc, Option.map_eq_some_iff, reduceCtorEq] at h
  case top =>
    cases h
    simp [hrun] at hpb
  case dequeue =>
    obtain ⟨mp, hstep, rfl⟩ := h
    rcases Mpsc.dequeue_cases hi.mp hstep with ⟨hcons, -, rfl⟩ | ⟨hcons, -, rfl⟩ |
      ⟨hcons, -, rfl⟩ | ⟨hcons, -, rfl⟩ | ⟨i, hcons, -, rfl⟩ | ⟨i, hcons, -, rfl⟩ |
      ⟨i, hcons, rfl⟩ | ⟨i, hcons, rfl⟩
    case inr.inr.inr.inr.inl | inr.inr.inr.inr.inr.inr.inl | inr.inr.inr.inr.inr.inr.inr => cases hn
    all_goals
      have htaken : s.mp.cons.taken = none := by rw [hcons]; rfl
      exact ⟨⟨hpc, htaken⟩, fun j hj => ⟨hj.1, fun htk => by cases hn.symm.trans htk⟩⟩
  case test =>
    split at h <;> cases h
    simp only at hpb
    split at hpb <;> cases hpb
  case write =>
    split at h
    · split at h
      · split at h
        · cases h
          cases hpb
        · split at h <;> cases h <;> cases hpb
      · split at h <;> cases h
        cases hpb
    · cases h
  case stat =>
    cases h
    cases hpb
  case release | leave =>
    obtain ⟨mp, -, rfl⟩ := h
    cases hpb

theorem pbStep_wake {w : Int} (hi : Aligned s) (hw : WakeOk s) (h : pbStep c s w = some s') :
    WakeOk s' := by
  obtain ⟨hcodec, hrun⟩ := pbStep_codec h
  have hprod := (pbStep_pool hi.mp hi.pb h).2
  intro hstop hawait
  rw [hrun] at hstop
  obtain ⟨hawait', hready⟩ := pbStep_awaiting hi h hstop hawait
  exact (hw hstop hawait').congr hcodec hprod hready

/-! ## All threads -/

theorem mainStep_wake {a : Act} (hi : Aligned s) (hw : WakeOk s) (h : mainStep s a = some s') :
    WakeOk s' := by
  -- where `running` is cleared the codec thread is still in its loop
  have hloop : s.running = true → s.codec.leftLoop = false := by
    intro hrun
    cases hleft : s.codec.leftLoop with
    | false => rfl
    | true => rw [hi.left hleft] at hrun; cases hrun
  have hm := hi.main
  unfold MainOk at hm
  cases a <;> simp only [mainStep, reduceCtorEq] at h
  case start =>
    split at h <;> cases h
    all_goals
      intro hstop
      cases hstop
  case spawn rc =>
    cases hpc : s.main <;> simp only [spawnStep, hpc, reduceCtorEq] at h <;> rw [hpc] at hm <;>
      split at h <;> cases h
    case spawnPb.isTrue => exact fun _ _ => promise_of_not_left (hloop hm.1)
    case spawnCodec.isTrue => exact fun _ _ => promise_of_not_left (hloop hm.1)
    case spawnCap.isTrue => exact fun _ _ => promise_of_not_left (hloop hm.1)
    case spawnPb.isFalse =>
      intro hstop
      rw [hm.1] at hstop
      cases hstop
    case spawnCodec.isFalse =>
      intro hstop
      rw [hm.1] at hstop
      cases hstop
    case spawnCap.isFalse =>
      intro hstop
      rw [hm.1] at hstop
      cases hstop
  case stop =>
    cases hpc : s.main <;> simp only [hpc, reduceCtorEq] at h <;> split at h <;> cases h
    all_goals first
      | exact hw
      | exact fun _ _ => promise_of_not_left (hloop ‹_›)
  case join =>
    simp only [joinStep] at h
    split at h
    case h_6 => cases h
    all_goals
      split at h <;> cases h
      exact hw

theorem step_wake (hN : 0 < N) {a : Act} (hi : Aligned s) (ho : Mpsc.Owned s.mp) (hw : WakeOk s)
    (h : step c s a = some s') : WakeOk s' := by
  cases a with
  | cap r =>
    obtain ⟨sp, cap, xrun, error, frames, drop, reads, rfl⟩ := capStep_frame h
    exact hw
  | codec e => exact codecStep_wake hN hi ho hw h
  | pb w => exact pbStep_wake hi hw h
  | start => exact mainStep_wake (a := .start) hi hw h
  | spawn rc => exact mainStep_wake (a := .spawn rc) hi hw h
  | stop => exact mainStep_wake (a := .stop) hi hw h
  | join => exact mainStep_wake (a := .join) hi hw h

/-- When the codec thread of a stopped stream has ended, a playback thread that still awaits a
frame finds one counted. -/
theorem wake_pending (hi : Aligned s) (hw : WakeOk s) (hrun : s.running = false)
    (hdone : s.codec = .done) (hawait : Awaiting s) : 1 ≤ s.mp.pending ∧ ∃ j, s.mp.Ready j := by
  have hready : ∃ j, s.mp.Ready j := by
    have hp := hw hrun hawait
    rw [Promise, hdone] at hp
    exact hp
  have hidle : s.mp.prod () = .idle := by
    have hmp := hi.codecMp
    rwa [hdone] at hmp
  have hflight : tally s.mp.InFlight = 0 := by
    refine tally_eq_zero ?_
    rintro p (hmarked | hlocked)
    · rw [hidle] at hmarked
      cases hmarked
    · rw [hidle] at hlocked
      cases hlocked
  have hpos : 0 < tally s.mp.Ready := by
    obtain ⟨j, hj⟩ := hready
    exact tally_pos hj
  have hcount := hi.mp.count.pending
  rw [hflight] at hcount
  exact ⟨by omega, hready⟩

end Pipeline
end Audio
end BuildingBlocks
