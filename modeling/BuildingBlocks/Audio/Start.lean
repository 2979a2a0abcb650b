import BuildingBlocks.Audio.PipelineInv

/-!
# BuildingBlocks.Audio.Start

`bb_audio_stream_start` when `pthread_create` fails. It returns a positive error number, and
`bb_thread_spawn` hands that on; `bb_audio_stream_start` takes only a negative number for an error.

* `StartLaw`: start returns 0 only with all three threads created, otherwise it has stopped and
  joined what it created, and its joins can complete.
* `startLaw_iff` — in every state the law holds exactly when no call of a complete start failed.
-/

namespace BuildingBlocks
namespace Audio

open Pool Lib

/-- The last call of `bb_audio_stream_start` has returned 0. -/
def MainPc.up : MainPc → Bool
  | .started | .joinCap | .joinCodec | .joinPb | .stopped => true
  | _ => false

namespace Pipeline

variable {N : Nat} {c : Setup} {s s' : Pipeline N}

/-- Start is all or nothing. -/
structure StartLaw (c : Setup) (s : Pipeline N) : Prop where
  zero : s.main.up = true → s.cap ≠ .off ∧ s.codec ≠ .off ∧ s.pb ≠ .off
  nonzero : s.main = .failed →
    s.running = false ∧ CapEnded s.cap ∧ CodecEnded s.codec ∧ PbEnded s.pb
  joinCodec : s.main = .unwindCodec → ∃ as s', run (step c) s as = some s' ∧ s'.codec = .done
  joinPb : s.main = .unwindPb → ∃ as s', run (step c) s as = some s' ∧ s'.pb.isDone = true

/-- Outside the returns and the joins the law asks for nothing. -/
theorem StartLaw.of_main (hup : s.main.up = false)
    (hmain : s.main ≠ .failed ∧ s.main ≠ .unwindCodec ∧ s.main ≠ .unwindPb) : StartLaw c s where
  zero h := by rw [hup] at h; cases h
  nonzero h := absurd h hmain.1
  joinCodec h := absurd h hmain.2.1
  joinPb h := absurd h hmain.2.2

theorem startLaw_up (hup : s.main.up = true) :
    StartLaw c s ↔ s.cap ≠ .off ∧ s.codec ≠ .off ∧ s.pb ≠ .off := by
  constructor
  · intro hlaw
    exact hlaw.zero hup
  · intro hcreated
    refine ⟨fun _ => hcreated, ?_, ?_, ?_⟩ <;> intro hpc <;> rw [hpc] at hup <;> cases hup

/-- Which threads exist, by the results of `pthread_create`. -/
def Created (s : Pipeline N) : Prop :=
  match s.main with
  | .idle | .spawnPb => s.results = []
  | .spawnCodec => ∃ rp, s.results = [rp] ∧ (s.pb = .off ↔ rp ≠ 0)
  | .spawnCap =>
    ∃ rp rc, s.results = [rp, rc] ∧ (s.pb = .off ↔ rp ≠ 0) ∧ (s.codec = .off ↔ rc ≠ 0)
  | .started | .joinCap | .joinCodec | .joinPb | .stopped =>
    ∃ rp rc rs, s.results = [rp, rc, rs] ∧ (s.pb = .off ↔ rp ≠ 0) ∧ (s.codec = .off ↔ rc ≠ 0) ∧
      (s.cap = .off ↔ rs ≠ 0)
  | .unwindCodec | .unwindPb | .failed => False

/-- A thread that runs stays created. -/
theorem Created.congr (hi : Created s) (hmain : s'.main = s.main) (hres : s'.results = s.results)
    (hcap : s'.cap = .off ↔ s.cap = .off) (hcodec : s'.codec = .off ↔ s.codec = .off)
    (hpb : s'.pb = .off ↔ s.pb = .off) : Created s' := by
  unfold Created at hi ⊢
  rw [hmain, hres]
  simp only [hcap, hcodec, hpb]
  exact hi

theorem capStep_off {r : Read} (h : capStep c s r = some s') :
    s'.cap = .off ↔ s.cap = .off := by
  have hne : s.cap ≠ .off := fun hoff => capStep_running h (.inl hoff)
  refine iff_of_false ?_ hne
  cases hpc : s.cap <;> simp only [capStep, hpc, Option.map_eq_some_iff, reduceCtorEq] at h
  case top =>
    cases h
    simp only
    split <;> simp
  case discard => split at h <;> cases h <;> simp
  case read =>
    split at h
    · cases h
      simp
    · split at h
      · obtain ⟨sp, -, rfl⟩ := Option.map_eq_some_iff.mp h
        simp
      · cases h
  case release n =>
    obtain ⟨sp, -, rfl⟩ := h
    split
    · simp only
      split <;> simp
    · simp
  case acquire =>
    obtain ⟨sp, -, rfl⟩ := h
    simp only
    split <;> simp
  case commit =>
    obtain ⟨sp, -, rfl⟩ := h
    simp
  case full | count | fail =>
    cases h
    simp

theorem codecStep_off {e : Encode} (h : codecStep c s e = some s') :
    s'.codec = .off ↔ s.codec = .off := by
  have hne : s.codec ≠ .off := fun hoff => codecStep_running h (.inl hoff)
  refine iff_of_false ?_ hne
  cases hpc : s.codec <;> simp only [codecStep, hpc, Option.map_eq_some_iff, reduceCtorEq] at h
  case top =>
    cases h
    simp only
    split <;> simp
  case encode | sentinel =>
    split at h
    · obtain ⟨mp, -, rfl⟩ := Option.map_eq_some_iff.mp h
      simp
    · cases h
  case full =>
    cases h
    simp
  case fullRelease | release | drainRelease =>
    obtain ⟨pool, -, rfl⟩ := h
    simp
  case post =>
    obtain ⟨pool, -, rfl⟩ := h
    simp only
    split
    · simp
    · split <;> simp
    · simp
  all_goals
    obtain ⟨pool, -, rfl⟩ := h
    simp only
    split <;> simp

theorem pbStep_off {w : Int} (h : pbStep c s w = some s') : s'.pb = .off ↔ s.pb = .off := by
  have hne : s.pb ≠ .off := fun hoff => pbStep_running h (.inl hoff)
  refine iff_of_false ?_ hne
  cases hpc : s.pb <;> simp only [pbStep, hpc, Option.map_eq_some_iff, reduceCtorEq] at h
  case top =>
    cases h
    simp only
    split <;> simp
  case dequeue =>
    obtain ⟨mp, -, rfl⟩ := h
    simp only
    split <;> simp
  case test =>
    split at h <;> cases h
    simp only
    split <;> simp
  case write =>
    split at h
    · split at h
      · split at h
        · cases h
          simp
        · split at h <;> cases h <;> simp
      · split at h <;> cases h
        simp
    · cases h
  case stat =>
    cases h
    simp
  case release | leave =>
    obtain ⟨mp, -, rfl⟩ := h
    simp

/-- What `pthread_create` can return. -/
def Errno : Act → Prop
  | .spawn rc => 0 ≤ rc
  | _ => True

theorem spawned_off {γ : Type} {rc : Int} {off top : γ} (hne : top ≠ off) :
    spawned rc off top = off ↔ rc ≠ 0 := by
  unfold spawned
  split <;> simp [*]

theorem spawnStep_created {rc : Int} (hi : Created s) (hrc : 0 ≤ rc)
    (h : spawnStep s rc = some s') : Created s' := by
  have hneg : ¬ rc < 0 := not_lt.mpr hrc
  unfold Created at hi
  cases hpc : s.main <;> simp only [spawnStep, hpc, if_neg hneg, reduceCtorEq] at h <;>
    rw [hpc] at hi <;> cases h
  case spawnPb =>
    simp only at hi
    exact ⟨rc, by simp [hi], spawned_off (by simp)⟩
  case spawnCodec =>
    obtain ⟨rp, hres, hpb⟩ := hi
    exact ⟨rp, rc, by simp [hres], hpb, spawned_off (by simp)⟩
  case spawnCap =>
    obtain ⟨rp, rs, hres, hpb, hcodec⟩ := hi
    exact ⟨rp, rs, rc, by simp [hres], hpb, hcodec, spawned_off (by simp)⟩

theorem step_created {a : Act} (hi : Aligned s ∧ Created s) (hrc : Errno a)
    (h : step c s a = some s') : Aligned s' ∧ Created s' := by
  refine ⟨step_aligned hi.1 h, ?_⟩
  cases a with
  | cap r =>
    have hoff := capStep_off h
    obtain ⟨sp, cap, xrun, error, frames, drop, reads, rfl⟩ := capStep_frame h
    exact hi.2.congr rfl rfl hoff Iff.rfl Iff.rfl
  | codec e =>
    have hoff := codecStep_off h
    obtain ⟨sp, mp, codec, drop, rfl⟩ := codecStep_frame h
    exact hi.2.congr rfl rfl Iff.rfl hoff Iff.rfl
  | pb w =>
    have hoff := pbStep_off h
    obtain ⟨mp, pb, xrun, error, frames, rfl⟩ := pbStep_frame h
    exact hi.2.congr rfl rfl Iff.rfl Iff.rfl hoff
  | start =>
    simp only [step, mainStep] at h
    split at h <;> cases h <;> rfl
  | spawn rc => exact spawnStep_created hi.2 hrc h
  | stop =>
    have hm := hi.1.main
    have hc := hi.2
    unfold MainOk at hm
    unfold Created at hc
    cases hpc : s.main <;> simp only [step, mainStep, hpc, reduceCtorEq] at h <;>
      rw [hpc] at hm hc
    case started =>
      rw [if_pos hm] at h
      cases h
      exact hc
    case idle | failed | stopped =>
      rw [if_neg (by simp [hm.1])] at h
      cases h
      exact hi.2
  | join =>
    have hc := hi.2
    unfold Created at hc
    cases hpc : s.main <;> simp only [step, joinStep, mainStep, hpc, reduceCtorEq] at h <;>
      rw [hpc] at hc
    case unwindCodec | unwindPb => exact hc.elim
    case joinCap | joinCodec | joinPb =>
      split at h <;> cases h
      exact hc

/-- **Start is all or nothing exactly when no `pthread_create` failed.** For every result of the
three calls that is 0 or a positive error number and every interleaving of the threads that exist:
the law holds in a state if and only if the three calls have not all been made or all returned
0. -/
theorem startLaw_iff {spBody : Int → Body} {mpBody : Fin N → Body} {as : List Act}
    (hr : run (step c) (init spBody mpBody) as = some s) (hrc : ∀ a ∈ as, Errno a) :
    s.StartLaw c ↔ s.results.length < 3 ∨ ∀ rc ∈ s.results, rc = 0 := by
  have hc : Created s :=
    (run_invariant_of_meets (P := fun _ a => Errno a) (I := fun t => Aligned t ∧ Created t)
      (fun _ _ _ => step_created) ⟨aligned_init spBody mpBody, rfl⟩ (meets_of_forall hrc) hr).2
  unfold Created at hc
  cases hpc : s.main <;> rw [hpc] at hc
  case unwindCodec | unwindPb | failed => exact hc.elim
  case idle | spawnPb =>
    refine iff_of_true (.of_main (by simp [hpc, MainPc.up]) (by simp [hpc])) (.inl ?_)
    simp only at hc
    simp [hc]
  case spawnCodec =>
    obtain ⟨rp, hres, -⟩ := hc
    exact iff_of_true (.of_main (by simp [hpc, MainPc.up]) (by simp [hpc])) (.inl (by simp [hres]))
  case spawnCap =>
    obtain ⟨rp, rc, hres, -⟩ := hc
    exact iff_of_true (.of_main (by simp [hpc, MainPc.up]) (by simp [hpc])) (.inl (by simp [hres]))
  all_goals
    obtain ⟨rp, rc, rs, hres, hpb, hcodec, hcap⟩ := hc
    have hup : s.main.up = true := by rw [hpc, MainPc.up]
    simp only [startLaw_up hup, hres, List.length_cons, List.length_nil, Nat.lt_irrefl, false_or,
      List.forall_mem_cons, ne_eq, hpb, hcodec, hcap, not_not, List.not_mem_nil, false_implies,
      implies_true, and_true]
    constructor
    · rintro ⟨hcap', hcodec', hpb'⟩
      exact ⟨hpb', hcodec', hcap'⟩
    · rintro ⟨hpb', hcodec', hcap'⟩
      exact ⟨hcap', hcodec', hpb'⟩

theorem startLaw_all :
    ∃ s, run (step stereoSetup) (fresh 4) startAll = some s ∧ s.main = .started ∧
      s.StartLaw stereoSetup := by
  obtain ⟨s, hs, hmain, hres⟩ :
      ∃ s, run (step stereoSetup) (fresh 4) startAll = some s ∧ s.main = .started ∧
        s.results = [0, 0, 0] := ⟨_, rfl, rfl, rfl⟩
  refine ⟨s, hs, hmain, (startLaw_iff hs ?_).mpr (.inr (by simp [hres]))⟩
  intro a ha
  simp only [startAll, List.mem_cons, List.not_mem_nil, or_false] at ha
  rcases ha with rfl | rfl | rfl | rfl
  · trivial
  all_goals exact le_rfl

/-- The second `pthread_create` returns `EAGAIN`: start returns 0 without a codec thread. -/
theorem start_eagain :
    ∃ s, run (step stereoSetup) (fresh 4) [.start, .spawn 0, .spawn 11, .spawn 0] = some s ∧
      s.main = .started ∧ s.codec = .off ∧ ¬ s.StartLaw stereoSetup :=
  ⟨_, rfl, rfl, rfl, fun hlaw => (hlaw.zero rfl).2.1 rfl⟩

end Pipeline
end Audio
end BuildingBlocks
