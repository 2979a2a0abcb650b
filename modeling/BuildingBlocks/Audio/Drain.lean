import BuildingBlocks.Audio.Sentinel
import BuildingBlocks.Audio.Stop

/-!
# BuildingBlocks.Audio.Drain

What `bb_audio_stream_stop` leaves behind in the pools. Only the codec thread drains, and only the
first pool; each thread ends on its own.

* `Orderly` is the condition on steps: the capture thread commits nothing once the codec thread has
  looked at the first pool for the last time, the codec thread marks nothing once the playback
  thread has left its loop, and the playback thread leaves it only when nothing is ready.
* `run_drains` — as long as it is met, both pools are as `bb_pool_init` left them whenever stop has
  returned, and when the next start creates its first thread.
-/

namespace BuildingBlocks
namespace Audio

open Pool Lib

/-- The playback thread dequeues no more in this start. -/
def PbPc.left : PbPc → Bool
  | .off | .leave _ | .done _ => true
  | .top | .dequeue | .test | .write | .stat _ | .release => false

/-- `bb_audio_stream_stop` has returned, or the next start is about to create a thread. -/
def MainPc.atRest : MainPc → Bool
  | .idle | .stopped | .spawnPb => true
  | .spawnCodec | .spawnCap | .unwindCodec | .unwindPb | .failed | .started | .joinCap
  | .joinCodec | .joinPb => false

namespace Pipeline

variable {N : Nat} {c : Setup} {s s' : Pipeline N}

/-- Every frame of both pools is free, nothing is queued, nothing is counted. -/
structure Drained (s : Pipeline N) : Prop where
  spFree : ∀ i, (s.sp.frames i).refcount = 0
  indices : s.sp.readIdx = s.sp.writeIdx
  mpFree : ∀ i, (s.mp.frames i).refcount = 0
  pending : s.mp.pending = 0

/-- The `write_idx` the consumer has loaded makes the queue empty. -/
def SawEmpty (sp : Spsc Body) : Prop :=
  match sp.cons with
  | .deqWrite w _ => w ≤ sp.readIdx
  | .idle | .deqSlot _ _ | .deqTake _ => False

/-- The codec thread has loaded `write_idx` for the last time. -/
def LastLook (s : Pipeline N) : Prop :=
  match s.codec with
  | .drain => SawEmpty s.sp
  | .post _ | .sentinel | .sentinelEnqueue | .done => True
  | .off | .top | .dequeue | .acquire _ | .full _ | .fullRelease _ | .encode _ | .release _
  | .enqueue | .drainRelease _ => False

/-- The codec thread is about to mark a frame ready. -/
def Marking (s : Pipeline N) : Prop :=
  (s.codec = .enqueue ∨ s.codec = .sentinelEnqueue) ∧ ∃ i, s.mp.prod () = .owns i

/-- The playback thread is about to leave its loop, with `w` for the result of a write. -/
def Leaving (s : Pipeline N) (w : Int) : Prop :=
  match s.pb with
  | .top => s.running = false
  | .test => ∃ i, s.mp.cons = .holds i ∧ (s.mp.frames i).body.size = 0
  | .write => w < 0 ∧ (w ≠ epipe ∨ s.pbXrun + 1 > 10)
  | .off | .dequeue | .stat _ | .release | .leave _ | .done _ => False

/-- Fewer than `2 ^ 31` commits, and each thread goes on as long as the one before it hands it
frames. -/
def Orderly (s : Pipeline N) : Act → Prop
  | .cap _ => s.cap = .commit → ¬ LastLook s ∧ s.sp.committed.length + 1 < 2 ^ 31
  | .codec _ => Marking s → s.pb.left = false
  | .pb w => Leaving s w → ∀ i, ¬ s.mp.Ready i
  | .start | .spawn _ | .stop | .join => True

instance : DecidablePred SawEmpty := fun sp =>
  match hpc : sp.cons with
  | .deqWrite w _ => decidable_of_iff (w ≤ sp.readIdx) (by rw [SawEmpty, hpc])
  | .idle | .deqSlot _ _ | .deqTake _ => .isFalse (by simp [SawEmpty, hpc])

instance : DecidablePred (LastLook (N := N)) := fun s =>
  match hpc : s.codec with
  | .drain => decidable_of_iff (SawEmpty s.sp) (by rw [LastLook, hpc])
  | .post _ | .sentinel | .sentinelEnqueue | .done => .isTrue (by rw [LastLook, hpc]; trivial)
  | .off | .top | .dequeue | .acquire _ | .full _ | .fullRelease _ | .encode _ | .release _
  | .enqueue | .drainRelease _ => .isFalse (by simp [LastLook, hpc])

instance : DecidablePred (Marking (N := N)) := fun _ => inferInstanceAs (Decidable (_ ∧ _))

instance (s : Pipeline N) : DecidablePred (Leaving s) := fun w =>
  match hpc : s.pb with
  | .top => decidable_of_iff (s.running = false) (by rw [Leaving, hpc])
  | .test => decidable_of_iff (∃ i, s.mp.cons = .holds i ∧ (s.mp.frames i).body.size = 0)
      (by rw [Leaving, hpc])
  | .write => decidable_of_iff (w < 0 ∧ (w ≠ epipe ∨ s.pbXrun + 1 > 10)) (by rw [Leaving, hpc])
  | .off | .dequeue | .stat _ | .release | .leave _ | .done _ =>
    .isFalse (by simp [Leaving, hpc])

instance (s : Pipeline N) : DecidablePred (Orderly s)
  | .cap _ => inferInstanceAs (Decidable (_ → _))
  | .codec _ => inferInstanceAs (Decidable (Marking s → _))
  | .pb w => inferInstanceAs (Decidable (Leaving s w → _))
  | .start | .spawn _ | .stop | .join => .isTrue trivial

structure Tidy (s : Pipeline N) : Prop where
  aligned : Aligned s
  owned : Mpsc.Owned s.mp
  created : Created s
  results : ∀ rc ∈ s.results, rc = 0
  sp : Spsc.Inv N s.sp
  accounted : Spsc.Accounted N s.sp
  bound : s.sp.committed.length < 2 ^ 31
  looked : LastLook s ∨ s.codec = .off → s.sp.committed.length = s.sp.delivered.length
  left : s.pb.left = true → ∀ i, ¬ s.mp.Ready i

theorem tidy_init (spBody : Int → Body) (mpBody : Fin N → Body) : Tidy (init spBody mpBody) where
  aligned := aligned_init spBody mpBody
  owned := Mpsc.owned_init mpBody
  created := rfl
  results := by simp [init]
  sp := Spsc.inv_init spBody
  accounted := Spsc.accounted_init spBody
  bound := by simp [init, Spsc.init]
  looked _ := rfl
  left := by
    intro _ i hi
    simp [init, Mpsc.init, Mpsc.Ready] at hi

theorem Tidy.empty_of_ended (hi : Tidy s) (hend : CodecEnded s.codec) :
    s.sp.committed.length = s.sp.delivered.length := by
  rcases hend with hpc | hpc
  · exact hi.looked (.inr hpc)
  · exact hi.looked (.inl (by unfold LastLook; rw [hpc]; trivial))

theorem Tidy.none_of_ended (hi : Tidy s) (hend : PbEnded s.pb) (i : Fin N) :
    ¬ s.mp.Ready i := by
  refine hi.left ?_ i
  rcases hend with hpc | hpc
  · rw [hpc]
    rfl
  · cases hdone : s.pb <;> rw [hdone] at hpc <;> cases hpc
    rfl

/-- When no thread runs, both pools are as they were at first. -/
theorem Tidy.drained (hi : Tidy s)
    (hend : CapEnded s.cap ∧ CodecEnded s.codec ∧ PbEnded s.pb) : Drained s := by
  obtain ⟨hcap, hcodec, hpb⟩ := hi.aligned.ended
  have hprod := hcap hend.1
  obtain ⟨-, hheld, hmp⟩ := hcodec hend.2.1
  have hcons := hpb hend.2.2
  have hlen := hi.empty_of_ended hend.2.1
  have hready := hi.none_of_ended hend.2.2
  refine ⟨?_, ?_, ?_, ?_⟩
  · intro i
    rcases hi.accounted i with h0 | ⟨k, hk, -⟩ | hin | hown
    · exact h0
    · have hlt := hk.1.trans_lt hk.2
      omega
    · rw [hheld] at hin
      cases hin
    · rw [hprod] at hown
      cases hown
  · rw [hi.sp.read, hi.sp.write, hlen]
  · intro i
    rcases hi.aligned.mp.ref.range i with h0 | h1 | h2
    · exact h0
    · obtain ⟨p, hp⟩ := hi.owned i h1
      rw [hmp] at hp
      cases hp
    · exact absurd ⟨h2.ge, by rw [hcons]; simp⟩ (hready i)
  · have hcount := hi.aligned.mp.count.pending
    have hlead : s.mp.lead = 0 := by rw [Mpsc.lead, hcons]
    have hnonneg := hi.aligned.mp.pending
    rw [tally_eq_zero hready, hlead] at hcount
    omega

/-- A thread runs only after the threads it hands frames to were created. -/
theorem Tidy.after (hi : Tidy s) :
    (¬ CapEnded s.cap → s.codec ≠ .off) ∧ (¬ CodecEnded s.codec → s.pb ≠ .off) := by
  have hm := hi.aligned.main
  have hc := hi.created
  have hres := hi.results
  unfold MainOk at hm
  unfold Created at hc
  cases hpc : s.main <;> rw [hpc] at hm hc
  case unwindCodec | unwindPb | failed => exact hc.elim
  case idle | stopped => exact ⟨fun h => absurd hm.2.1 h, fun h => absurd hm.2.2.1 h⟩
  case spawnPb => exact ⟨fun h => absurd (.inl hm.2.1) h, fun h => absurd (.inl hm.2.2.1) h⟩
  case spawnCodec => exact ⟨fun h => absurd (.inl hm.2.1) h, fun h => absurd (.inl hm.2.2) h⟩
  case spawnCap =>
    obtain ⟨rp, rc, hlist, hpb, -⟩ := hc
    simp only [hlist, List.forall_mem_cons] at hres
    exact ⟨fun h => absurd (.inl hm.2) h, fun _ hoff => hpb.mp hoff hres.1⟩
  case started | joinCap | joinCodec | joinPb =>
    obtain ⟨rp, rc, rs, hlist, hpb, hcodec, -⟩ := hc
    simp only [hlist, List.forall_mem_cons] at hres
    exact ⟨fun _ hoff => hcodec.mp hoff hres.2.1, fun _ hoff => hpb.mp hoff hres.1⟩

/-! ## The capture thread -/

theorem LastLook.congr (hcodec : s'.codec = s.codec) (hcons : s'.sp.cons = s.sp.cons)
    (hread : s'.sp.readIdx = s.sp.readIdx) : LastLook s' ↔ LastLook s := by
  unfold LastLook SawEmpty
  rw [hcodec, hcons, hread]

/-- Only a commit adds to the first pool. -/
theorem capStep_queue {r : Read} (h : capStep c s r = some s') :
    (s.cap = .commit ∧ s'.sp.committed.length = s.sp.committed.length + 1 ∨
        s'.sp.committed = s.sp.committed) ∧
      s'.sp.delivered = s.sp.delivered ∧ s'.sp.readIdx = s.sp.readIdx := by
  rcases capStep_sp h with hsame | hstep | ⟨body, hstep⟩ | ⟨hpc, hstep⟩ | hstep
  · rw [hsame]
    exact ⟨.inr rfl, rfl, rfl⟩
  · rcases Spsc.acquire_cases hstep with ⟨-, hsp⟩ | ⟨w, -, hsp⟩ | ⟨w, -, hsp⟩ |
        ⟨idx, -, -, hsp⟩ | ⟨idx, -, hsp⟩ <;>
      rw [hsp] <;> exact ⟨.inr rfl, rfl, rfl⟩
  · obtain ⟨idx, -, hsp⟩ := Spsc.fill_eq_some hstep
    rw [hsp]
    exact ⟨.inr rfl, rfl, rfl⟩
  · obtain ⟨idx, -, hsp⟩ := Spsc.commit_eq_some hstep
    rw [hsp]
    exact ⟨.inl ⟨hpc, List.length_append⟩, rfl, rfl⟩
  · obtain ⟨idx, -, hsp⟩ := Spsc.abandon_eq_some hstep
    rw [hsp]
    exact ⟨.inr rfl, rfl, rfl⟩

theorem capStep_looked {r : Read} (hi : Tidy s) (ho : Orderly s (.cap r))
    (h : capStep c s r = some s') (hlook : LastLook s' ∨ s'.codec = .off) :
    s'.sp.committed.length = s'.sp.delivered.length := by
  obtain ⟨hcom, hdel, hread⟩ := capStep_queue h
  have hcons := (capStep_pool hi.aligned.cap h).2.1
  have hcodec : s'.codec = s.codec := by
    obtain ⟨sp, cap, xrun, error, frames, drop, reads, rfl⟩ := capStep_frame h
    rfl
  rw [LastLook.congr hcodec hcons hread, hcodec] at hlook
  rcases hcom with ⟨hpc, -⟩ | hcom
  · rcases hlook with hlook | hoff
    · exact absurd hlook (ho hpc).1
    · exact absurd hoff (hi.after.1 (capStep_running h))
  · rw [hcom, hdel]
    exact hi.looked hlook

/-! ## The codec thread -/

/-- A look that finds nothing was a look at an empty queue. -/
theorem drain_looked {sp : Spsc Body} (hi : Spsc.Inv N s.sp)
    (h : Spsc.step N s.sp (Spsc.dequeueOp s.sp.cons) = some sp)
    (hlook : SawEmpty sp ∨ Spsc.dequeueCall s.sp.cons sp.cons = .returned none)
    (hbefore : SawEmpty s.sp → s.sp.committed.length = s.sp.delivered.length) :
    sp.committed.length = sp.delivered.length := by
  have hcons := hi.cons
  rcases Spsc.dequeue_cases h with ⟨hpc, rfl⟩ | ⟨w, n, hpc, hle, rfl⟩ | ⟨w, n, hpc, -, rfl⟩ |
    ⟨idx, n, hpc, hfree, rfl⟩ | ⟨idx, n, hpc, rfl⟩ | ⟨idx, hpc, rfl⟩
  case inl =>
    rcases hlook with hempty | hcall
    · have hwrite := hi.write
      have hread := hi.read
      have hlen := hi.le
      simp only [SawEmpty] at hempty ⊢
      omega
    · rw [hpc] at hcall
      cases hcall
  case inr.inl =>
    refine hbefore ?_
    rw [SawEmpty, hpc]
    exact hle
  case inr.inr.inr.inl =>
    rw [Spsc.ConsOk, hpc] at hcons
    have hone := (hi.queue _ hcons.2).2
    rw [← hcons.1] at hone
    omega
  all_goals
    rcases hlook with hempty | hcall
    · exact hempty.elim
    · rw [hpc] at hcall
      cases hcall

theorem LastLook.leftLoop (h : LastLook s) : s.codec.leftLoop = true := by
  unfold LastLook at h
  cases hpc : s.codec <;> rw [hpc] at h
  case drain | post | sentinel | sentinelEnqueue | done => rfl
  all_goals exact h.elim

theorem codecStep_looked {e : Encode} (hi : Tidy s) (h : codecStep c s e = some s')
    (hlook : LastLook s') : s'.sp.committed.length = s'.sp.delivered.length := by
  have hsp := hi.aligned.codecSp
  cases hpc : s.codec <;> simp only [codecStep, hpc, Option.map_eq_some_iff, reduceCtorEq] at h <;>
    rw [hpc] at hsp
  case top =>
    cases h
    have hidle : s.sp.cons = .idle := hsp.1
    cases hrun : s.running with
    | true =>
      have hleft := hlook.leftLoop
      simp only [hrun, if_true] at hleft
      cases hleft
    | false =>
      simp only [LastLook, SawEmpty, hrun, Bool.false_eq_true, if_false, hidle] at hlook
  case dequeue | acquire | enqueue =>
    obtain ⟨pool, -, rfl⟩ := h
    have hleft := hlook.leftLoop
    simp only at hleft
    split at hleft <;> cases hleft
  case drain =>
    obtain ⟨sp, hstep, rfl⟩ := h
    refine drain_looked hi.sp hstep ?_ fun hw => hi.looked (.inl ?_)
    · unfold LastLook at hlook
      simp only at hlook
      cases hcall : Spsc.dequeueCall s.sp.cons sp.cons with
      | inside =>
        simp only [hcall] at hlook
        exact .inl hlook
      | returned f =>
        cases f with
        | none => exact .inr rfl
        | some f =>
          simp only [hcall] at hlook
    · unfold LastLook
      rw [hpc]
      exact hw
  case drainRelease f =>
    obtain ⟨sp, hstep, rfl⟩ := h
    obtain ⟨hidle, -, -⟩ := release_pool hsp.2 hstep
    simp only [LastLook, SawEmpty, hidle] at hlook
  case full =>
    cases h
    exact hlook.elim
  case fullRelease | release =>
    obtain ⟨sp, -, rfl⟩ := h
    exact hlook.elim
  case encode =>
    split at h
    · obtain ⟨mp, -, rfl⟩ := Option.map_eq_some_iff.mp h
      exact hlook.elim
    · cases h
  case sentinel =>
    split at h
    · obtain ⟨mp, -, rfl⟩ := Option.map_eq_some_iff.mp h
      exact hi.looked (.inl (by unfold LastLook; rw [hpc]; trivial))
    · cases h
  case post | sentinelEnqueue =>
    obtain ⟨mp, -, rfl⟩ := h
    exact hi.looked (.inl (by unfold LastLook; rw [hpc]; trivial))

/-- Only a mark makes a frame ready. -/
theorem codecStep_ready {e : Encode} (hi : Aligned s) (h : codecStep c s e = some s') (i : Fin N)
    (hready : 2 ≤ (s'.mp.frames i).refcount) : 2 ≤ (s.mp.frames i).refcount ∨ Marking s := by
  rcases codecStep_mp h with hsame | hstep | ⟨body, hstep⟩ | ⟨hpc, hstep⟩
  · rw [hsame] at hready
    exact .inl hready
  · exact .inl (acquire_frames hstep i hready).1
  · exact .inl (fill_frames hi.mp.ref hstep i hready).1
  · exact (enqueue_frames hstep i hready).1.imp_right fun hown => ⟨hpc, i, hown⟩

theorem codecStep_noneReady {e : Encode} (hi : Tidy s) (ho : Orderly s (.codec e))
    (h : codecStep c s e = some s') (hleft : s.pb.left = true) (i : Fin N) : ¬ s'.mp.Ready i := by
  intro hready
  have hcons := (codecStep_pool hi.aligned.codecSp hi.aligned.codecMp h).mpCons
  rcases codecStep_ready hi.aligned h i hready.1 with hold | hmark
  · exact hi.left hleft i ⟨hold, hcons ▸ hready.2⟩
  · rw [ho hmark] at hleft
    cases hleft

/-! ## The playback thread -/

theorem pbStep_noneReady {w : Int} (hi : Tidy s) (ho : Orderly s (.pb w))
    (h : pbStep c s w = some s') (hleft : s'.pb.left = true) (i : Fin N) : ¬ s'.mp.Ready i := by
  cases hpc : s.pb <;> simp only [pbStep, hpc, Option.map_eq_some_iff, reduceCtorEq] at h
  case top =>
    cases h
    simp only at hleft
    split at hleft
    · cases hleft
    · rename_i hrun
      refine ho ?_ i
      unfold Leaving
      rw [hpc]
      exact Bool.eq_false_iff.mpr hrun
  case dequeue =>
    obtain ⟨mp, -, rfl⟩ := h
    simp only at hleft
    split at hleft <;> cases hleft
  case test =>
    split at h <;> cases h
    rename_i j hcons
    simp only at hleft
    split at hleft
    · rename_i hzero
      refine ho ?_ i
      unfold Leaving
      rw [hpc]
      exact ⟨j, hcons, hzero⟩
    · cases hleft
  case write =>
    have hfatal : w < 0 → (w ≠ epipe ∨ s.pbXrun + 1 > 10) → ∀ i, ¬ s.mp.Ready i := by
      intro hneg hwhy
      refine ho ?_
      unfold Leaving
      rw [hpc]
      exact ⟨hneg, hwhy⟩
    split at h
    · split at h
      · split at h
        · cases h
          exact hfatal ‹_› (.inl ‹_›) i
        · split at h <;> cases h
          · exact hfatal ‹_› (.inr ‹_›) i
          · cases hleft
      · split at h <;> cases h
        cases hleft
    · cases h
  case stat =>
    cases h
    cases hleft
  case release =>
    obtain ⟨mp, -, rfl⟩ := h
    cases hleft
  case leave why =>
    obtain ⟨mp, hstep, rfl⟩ := h
    obtain ⟨j, hcons, rfl⟩ := Mpsc.release_eq_some hstep
    intro hready
    have hij : i ≠ j := by
      rintro rfl
      have htwo := hready.1
      simp at htwo
    refine hi.left (by rw [hpc]; rfl) i ⟨?_, ?_⟩
    · simpa [setRef_of_ne _ hij] using hready.1
    · rw [hcons, taken_holds]
      simpa using hij.symm

/-! ## All threads -/

theorem step_bound {a : Act} (hi : Tidy s) (ho : Orderly s a) (h : step c s a = some s') :
    s'.sp.committed.length < 2 ^ 31 := by
  have hmain : ∀ b, mainStep s b = some s' → s'.sp.committed.length < 2 ^ 31 := by
    intro b hb
    rw [(mainStep_pools hb).1]
    exact hi.bound
  cases a with
  | cap r =>
    rcases (capStep_queue h).1 with ⟨hpc, hlen⟩ | hcom
    · rw [hlen]
      exact (ho hpc).2
    · rw [hcom]
      exact hi.bound
  | codec e =>
    rw [codecStep_committed h]
    exact hi.bound
  | pb w =>
    obtain ⟨mp, pb, xrun, error, frames, rfl⟩ := pbStep_frame h
    exact hi.bound
  | start => exact hmain .start h
  | spawn rc => exact hmain (.spawn rc) h
  | stop => exact hmain .stop h
  | join => exact hmain .join h

/-- The calling thread creates threads, and forgets those that have ended. -/
theorem mainStep_threads {a : Act} (hi : Aligned s) (h : mainStep s a = some s') :
    (s'.codec = s.codec ∨ s'.codec = .top ∨ s'.codec = .off ∧ CodecEnded s.codec) ∧
      (s'.pb = s.pb ∨ s'.pb = .top ∨ s'.pb = .off ∧ PbEnded s.pb) := by
  have hm := hi.main
  unfold MainOk at hm
  cases a <;> simp only [mainStep, reduceCtorEq] at h
  case start =>
    cases hpc : s.main <;> simp only [hpc, reduceCtorEq] at h <;> rw [hpc] at hm <;> cases h
    all_goals exact ⟨.inr (.inr ⟨rfl, hm.2.2.1⟩), .inr (.inr ⟨rfl, hm.2.2.2⟩)⟩
  case spawn rc =>
    cases hpc : s.main <;> simp only [spawnStep, hpc, reduceCtorEq] at h <;> rw [hpc] at hm <;>
      split at h <;> cases h
    case spawnPb.isFalse.refl =>
      refine ⟨.inl rfl, ?_⟩
      simp only [spawned]
      split
      · exact .inr (.inl rfl)
      · exact .inl hm.2.2.2.symm
    case spawnCodec.isFalse.refl =>
      refine ⟨?_, .inl rfl⟩
      simp only [spawned]
      split
      · exact .inr (.inl rfl)
      · exact .inl hm.2.2.symm
    all_goals exact ⟨.inl rfl, .inl rfl⟩
  case stop =>
    split at h
    case h_5 => cases h
    all_goals split at h <;> cases h <;> exact ⟨.inl rfl, .inl rfl⟩
  case join =>
    simp only [joinStep] at h
    split at h
    case h_6 => cases h
    all_goals
      split at h <;> cases h
      exact ⟨.inl rfl, .inl rfl⟩

theorem mainStep_looked {a : Act} (hi : Tidy s) (h : mainStep s a = some s')
    (hlook : LastLook s' ∨ s'.codec = .off) :
    s'.sp.committed.length = s'.sp.delivered.length := by
  obtain ⟨hsp, -⟩ := mainStep_pools h
  rw [hsp]
  rcases (mainStep_threads hi.aligned h).1 with hsame | htop | ⟨-, hend⟩
  · rw [LastLook.congr hsame (by rw [hsp]) (by rw [hsp]), hsame] at hlook
    exact hi.looked hlook
  · rcases hlook with hlook | hoff
    · have hleft := hlook.leftLoop
      rw [htop] at hleft
      cases hleft
    · rw [htop] at hoff
      cases hoff
  · exact hi.empty_of_ended hend

theorem mainStep_noneReady {a : Act} (hi : Tidy s) (h : mainStep s a = some s')
    (hleft : s'.pb.left = true) (i : Fin N) : ¬ s'.mp.Ready i := by
  rw [(mainStep_pools h).2]
  rcases (mainStep_threads hi.aligned h).2 with hsame | htop | ⟨-, hend⟩
  · rw [hsame] at hleft
    exact hi.left hleft i
  · rw [htop] at hleft
    cases hleft
  · exact hi.none_of_ended hend i

theorem step_looked {a : Act} (hi : Tidy s) (ho : Orderly s a) (h : step c s a = some s')
    (hlook : LastLook s' ∨ s'.codec = .off) :
    s'.sp.committed.length = s'.sp.delivered.length := by
  cases a with
  | cap r => exact capStep_looked hi ho h hlook
  | codec e =>
    rcases hlook with hlook | hoff
    · exact codecStep_looked hi h hlook
    · exact absurd (.inl ((codecStep_off h).mp hoff)) (codecStep_running h)
  | pb w =>
    obtain ⟨mp, pb, xrun, error, frames, rfl⟩ := pbStep_frame h
    exact hi.looked hlook
  | start => exact mainStep_looked (a := .start) hi h hlook
  | spawn rc => exact mainStep_looked (a := .spawn rc) hi h hlook
  | stop => exact mainStep_looked (a := .stop) hi h hlook
  | join => exact mainStep_looked (a := .join) hi h hlook

theorem step_noneReady {a : Act} (hi : Tidy s) (ho : Orderly s a) (h : step c s a = some s')
    (hleft : s'.pb.left = true) (i : Fin N) : ¬ s'.mp.Ready i := by
  cases a with
  | cap r =>
    obtain ⟨sp, cap, xrun, error, frames, drop, reads, rfl⟩ := capStep_frame h
    exact hi.left hleft i
  | codec e =>
    refine codecStep_noneReady hi ho h ?_ i
    obtain ⟨sp, mp, codec, drop, rfl⟩ := codecStep_frame h
    exact hleft
  | pb w => exact pbStep_noneReady hi ho h hleft i
  | start => exact mainStep_noneReady (a := .start) hi h hleft i
  | spawn rc => exact mainStep_noneReady (a := .spawn rc) hi h hleft i
  | stop => exact mainStep_noneReady (a := .stop) hi h hleft i
  | join => exact mainStep_noneReady (a := .join) hi h hleft i

theorem step_tidy {a : Act} (ha : Spawns a) (hi : Tidy s) (ho : Orderly s a)
    (h : step c s a = some s') : Tidy s' where
  aligned := step_aligned hi.aligned h
  owned := step_mpOwned hi.aligned hi.owned h
  created := (step_created ⟨hi.aligned, hi.created⟩ (Spawns.errno ha) h).2
  results := step_results ha hi.results h
  sp := step_spInv hi.sp h (step_bound hi ho h)
  accounted := by
    rcases step_sp h with hsame | ⟨l, hl⟩
    · rw [hsame]
      exact hi.accounted
    · exact Spsc.step_accounted hi.sp hi.accounted hl
  bound := step_bound hi ho h
  looked := step_looked hi ho h
  left := step_noneReady hi ho h

/-- **Stop drains an orderly stream.** With all threads created in every start, in every
interleaving whose steps meet the condition: whenever stop has returned, and when the next start
creates its first thread, both pools are as they were at first. -/
theorem run_drains {spBody : Int → Body} {mpBody : Fin N → Body} {as : List Act}
    (hspawns : ∀ a ∈ as, Spawns a)
    (hr : run (step c) (init spBody mpBody) as = some s)
    (ho : Meets (step c) Orderly (init spBody mpBody) as) (hrest : s.main.atRest = true) :
    Drained s := by
  have hboth : Meets (step c) (fun t a => Spawns a ∧ Orderly t a) (init spBody mpBody) as :=
    meets_and (meets_of_forall hspawns) ho
  have hi : Tidy s := run_invariant_of_meets
    (fun _ _ _ hi ha h => step_tidy ha.1 hi ha.2 h) (tidy_init spBody mpBody) hboth hr
  refine hi.drained ?_
  have hm := hi.aligned.main
  unfold MainOk at hm
  cases hpc : s.main <;> rw [hpc] at hm hrest
  case idle | stopped => exact hm.2
  case spawnPb => exact ⟨.inl hm.2.1, .inl hm.2.2.1, .inl hm.2.2.2⟩
  all_goals cases hrest

/-- A start and a stop; the playback thread waits for a frame when the codec thread posts the
sentinel. -/
def orderlyStop : List Act :=
  startAll ++ List.replicate 3 (.pb 0) ++ [.stop, .cap noRead] ++
    List.replicate 11 (.codec noEncode) ++ List.replicate 7 (.pb 0) ++ List.replicate 3 .join

theorem orderlyStop_drains :
    ∃ s, run (step stereoSetup) (fresh 1) orderlyStop = some s ∧ s.main = .stopped ∧
      Drained s := by
  obtain ⟨s, hs, hmain⟩ :
      ∃ s, run (step stereoSetup) (fresh 1) orderlyStop = some s ∧ s.main = .stopped :=
    ⟨_, rfl, rfl⟩
  exact ⟨s, hs, hmain, run_drains (by decide) hs (by decide) (by rw [hmain]; rfl)⟩

/-- The same calls; the playback thread sees the flag first, and the sentinel stays behind. -/
theorem hastyStop_keeps :
    ∃ s, run (step stereoSetup) (fresh 1) (startAll ++ [.stop, .cap noRead, .pb 0] ++
        List.replicate 11 (.codec noEncode) ++ List.replicate 3 .join) = some s ∧
      s.main = .stopped ∧ ¬ Drained s := by
  obtain ⟨s, hs, hmain, hpending⟩ :
      ∃ s, run (step stereoSetup) (fresh 1) (startAll ++ [.stop, .cap noRead, .pb 0] ++
          List.replicate 11 (.codec noEncode) ++ List.replicate 3 .join) = some s ∧
        s.main = .stopped ∧ s.mp.pending = 1 := ⟨_, rfl, rfl, rfl⟩
  refine ⟨s, hs, hmain, ?_⟩
  intro hdrained
  rw [hdrained.pending] at hpending
  cases hpending

end Pipeline
end Audio
end BuildingBlocks
