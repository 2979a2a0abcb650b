import BuildingBlocks.Audio.Stop
import BuildingBlocks.Lib.History

/-!
# BuildingBlocks.Audio.Capture

When `capture_thread_fn` gives up. A period is read into a frame of the pool, or discarded when the
pool is full; both reads may fail, and both count their xruns in `xrun_count`.

* `ErrorPolicy` is the policy: an error other than `-EPIPE` ends the thread, and so does the
  eleventh `-EPIPE` in a row, wherever the period went.
* `policy_iff` — the code keeps it exactly while no discarded read fails otherwise and no eleventh
  `-EPIPE` has a discarded one among the ten before it.
-/

namespace BuildingBlocks
namespace Audio

open Pool Lib

/-- The result of a read, and whether it went into a frame of the pool. -/
structure CapRead where
  n : Int
  framed : Bool
deriving DecidableEq, Repr

/-- The xruns at the front, newest first. -/
def xruns (h : List CapRead) : List CapRead := h.takeWhile fun x => x.n = epipe

/-- The xruns of reads into frames at the front. -/
def framedXruns (h : List CapRead) : List CapRead :=
  h.takeWhile fun x => x.n = epipe ∧ x.framed = true

/-- The newest read is the last of this thread. -/
def Fatal : List CapRead → Prop
  | [] => False
  | x :: h => x.n < 0 ∧ (x.n = epipe → 10 ≤ (xruns h).length)

/-- Ten xruns at the front are ten reads into frames. -/
def Framed (h : List CapRead) : Prop := 10 ≤ (xruns h).length → 10 ≤ (framedXruns h).length

instance : DecidablePred Framed := fun _ => inferInstanceAs (Decidable (_ → _))

theorem framedXruns_le (h : List CapRead) : (framedXruns h).length ≤ (xruns h).length := by
  have hsub : framedXruns h = (xruns h).takeWhile fun x => x.framed := by
    rw [xruns, List.takeWhile_takeWhile, framedXruns]
    congr 1
    funext x
    simp [and_comm]
  rw [hsub]
  exact (List.takeWhile_prefix _).length_le

theorem framed_iff (h : List CapRead) :
    Framed h ↔ (10 ≤ (framedXruns h).length ↔ 10 ≤ (xruns h).length) :=
  ⟨fun hf => ⟨fun h10 => h10.trans (framedXruns_le h), hf⟩, fun hiff => hiff.mpr⟩

/-- The thread is in its loop and has dealt with the newest read. -/
def CapPc.going : CapPc → Bool
  | .off | .release _ | .fail | .done => false
  | _ => true

theorem not_fatal_of_nonneg {x : CapRead} {h : List CapRead} (hx : 0 ≤ x.n) : ¬ Fatal (x :: h) :=
  fun hf => absurd hf.1 (not_lt.mpr hx)

theorem framedXruns_cons (x : CapRead) (h : List CapRead) :
    (framedXruns (x :: h)).length =
      if x.n = epipe ∧ x.framed = true then (framedXruns h).length + 1 else 0 := by
  rw [framedXruns, List.takeWhile_cons]
  split_ifs with hx <;> simp_all [framedXruns]

namespace Pipeline

variable {N : Nat} {c : Setup} {s s' : Pipeline N} {h h' : List CapRead}

/-- The reads of the capture thread since it was created, newest first. -/
def noteRead (s : Pipeline N) (a : Act) (h : List CapRead) : List CapRead :=
  match a, s.cap with
  | .start, _ => []
  | .cap r, .discard => { n := r.n, framed := false } :: h
  | .cap r, .read => { n := r.n, framed := true } :: h
  | _, _ => h

/-- What a step of the capture thread does about errors, `h` being its reads after the step. -/
structure Policed (s s' : Pipeline N) (h : List CapRead) : Prop where
  goesOn : s'.cap.going = true → ¬ Fatal h
  fails : s'.cap = .fail → Fatal h
  sets : s.cap = .fail → s'.error = true ∧ s'.cap = .done
  keeps : s.cap ≠ .fail → s'.error = s.error
  leaves : s'.cap = .done → s.cap = .fail ∨ s.running = false

def ErrorPolicy (c : Setup) (s : Pipeline N × List CapRead) : Act → Prop
  | .cap r => ∀ s', capStep c s.1 r = some s' → Policed s.1 s' (noteRead s.1 (.cap r) s.2)
  | _ => True

/-- A discarded read fails with `-EPIPE` only, and an eleventh `-EPIPE` has ten reads into frames
before it. -/
def Tame (s : Pipeline N × List CapRead) : Act → Prop
  | .cap r =>
    match s.1.cap with
    | .discard => (r.n < 0 → r.n = epipe) ∧ (r.n = epipe → Framed s.2)
    | .release n => n = epipe → Framed s.2.tail
    | _ => True
  | _ => True

instance (s : Pipeline N × List CapRead) : DecidablePred (Tame s)
  | .cap r =>
    match hpc : s.1.cap with
    | .discard => decidable_of_iff ((r.n < 0 → r.n = epipe) ∧ (r.n = epipe → Framed s.2)) (by
        simp [Tame, hpc])
    | .release n => decidable_of_iff (n = epipe → Framed s.2.tail) (by simp [Tame, hpc])
    | .off | .top | .acquire | .full | .read | .count _ | .commit | .fail | .done =>
      .isTrue (by simp [Tame, hpc])
  | .start | .spawn _ | .stop | .join | .codec _ | .pb _ => .isTrue trivial

/-- What `xrun_count` counts. -/
structure CountsXruns (s : Pipeline N) (h : List CapRead) : Prop where
  off : s.cap = .off → s.capXrun = 0 ∧ h = []
  going : s.cap.going = true → ¬ Fatal h ∧ s.capXrun = (framedXruns h).length
  release : ∀ n, s.cap = .release n → n < 0 ∧ ∃ t, h = { n := n, framed := true } :: t ∧
    s.capXrun = (framedXruns t).length
  fail : s.cap = .fail → Fatal h

theorem CountsXruns.of_going (hpc : s.cap.going = true) (hf : ¬ Fatal h)
    (hx : s.capXrun = (framedXruns h).length) : CountsXruns s h where
  off hoff := by simp [hoff, CapPc.going] at hpc
  going _ := ⟨hf, hx⟩
  release n hrel := by simp [hrel, CapPc.going] at hpc
  fail hfail := by simp [hfail, CapPc.going] at hpc

theorem CountsXruns.of_fail (hpc : s.cap = .fail) (hf : Fatal h) : CountsXruns s h where
  off := by simp [hpc]
  going := by simp [hpc, CapPc.going]
  release := by simp [hpc]
  fail _ := hf

theorem CountsXruns.of_off (hpc : s.cap = .off) (hx : s.capXrun = 0) : CountsXruns s [] where
  off _ := ⟨hx, rfl⟩
  going := by simp [hpc, CapPc.going]
  release := by simp [hpc]
  fail := by simp [hpc]

theorem CountsXruns.of_done (hpc : s.cap = .done) : CountsXruns s h where
  off := by simp [hpc]
  going := by simp [hpc, CapPc.going]
  release := by simp [hpc]
  fail := by simp [hpc]

/-- The thread stands where it stood, or was created. -/
theorem CountsXruns.congr (hi : CountsXruns s h) (hx : s'.capXrun = s.capXrun)
    (hcap : s'.cap = s.cap ∨ s.cap = .off ∧ s'.cap = .top) : CountsXruns s' h := by
  rcases hcap with hcap | ⟨hoff, htop⟩
  · refine ⟨?_, ?_, ?_, ?_⟩ <;> rw [hcap]
    · rw [hx]
      exact hi.off
    · rw [hx]
      exact hi.going
    · rw [hx]
      exact hi.release
    · exact hi.fail
  · obtain ⟨hzero, rfl⟩ := hi.off hoff
    exact .of_going (by rw [htop]; rfl) id (by rw [hx, hzero]; rfl)

/-- An xrun is the eleventh in a row for the thread exactly when it is, where the ten before it were
reads into frames. -/
theorem fatal_xrun {x : CapRead} {t : List CapRead} (hx : x.n = epipe) (hf : Framed t) :
    Fatal (x :: t) ↔ (framedXruns t).length + 1 > 10 := by
  have hneg : x.n < 0 := by rw [hx]; decide
  have hiff := (framed_iff t).mp hf
  have hfatal : Fatal (x :: t) ↔ 10 ≤ (xruns t).length :=
    ⟨fun hfatal => hfatal.2 hx, fun h10 => ⟨hneg, fun _ => h10⟩⟩
  rw [hfatal, ← hiff]
  omega

theorem capStep_counts {r : Read} (hi : CountsXruns s h) (ht : Tame (s, h) (.cap r))
    (hstep : capStep c s r = some s') : CountsXruns s' (noteRead s (.cap r) h) := by
  have hgoing := hi.going
  cases hpc : s.cap <;>
    simp only [capStep, hpc, Option.map_eq_some_iff, reduceCtorEq] at hstep <;>
    simp only [noteRead, hpc] <;> simp only [Tame, hpc] at ht <;> rw [hpc] at hgoing
  case top =>
    obtain ⟨hf, hx⟩ := hgoing rfl
    cases hstep
    cases hrun : s.running
    · exact .of_done rfl
    · exact .of_going rfl hf hx
  case acquire =>
    obtain ⟨hf, hx⟩ := hgoing rfl
    obtain ⟨sp, -, rfl⟩ := hstep
    refine .of_going ?_ hf hx
    cases Spsc.acquireCall sp.prod with
    | inside => rfl
    | returned o => cases o <;> rfl
  case full | count =>
    obtain ⟨hf, hx⟩ := hgoing rfl
    cases hstep
    exact .of_going rfl hf hx
  case commit =>
    obtain ⟨hf, hx⟩ := hgoing rfl
    obtain ⟨sp, -, rfl⟩ := hstep
    exact .of_going rfl hf hx
  case discard =>
    obtain ⟨-, hx⟩ := hgoing rfl
    obtain ⟨honly, hframed⟩ := ht
    split at hstep <;> cases hstep <;> rename_i hxrun
    · refine .of_fail rfl ((fatal_xrun hxrun.1 (hframed hxrun.1)).mpr ?_)
      rw [← hx]
      exact hxrun.2
    · refine .of_going rfl ?_ (by simp [framedXruns_cons])
      by_cases hn : r.n = epipe
      · rw [fatal_xrun hn (hframed hn), ← hx]
        exact fun h10 => hxrun ⟨hn, h10⟩
      · exact not_fatal_of_nonneg (not_lt.mp fun hneg => hn (honly hneg))
  case read =>
    obtain ⟨hf, hx⟩ := hgoing rfl
    split at hstep
    · rename_i hneg
      cases hstep
      exact
        { off := fun hoff => by cases hoff
          going := fun hgo => by cases hgo
          release := fun n hrel => by
            cases hrel
            exact ⟨hneg, h, rfl, hx⟩
          fail := fun hfail => by cases hfail }
    · rename_i hneg
      split at hstep
      · obtain ⟨sp, -, rfl⟩ := Option.map_eq_some_iff.mp hstep
        have hne : r.n ≠ epipe := by
          rintro he
          rw [he] at hneg
          exact hneg (by decide)
        exact .of_going rfl (not_fatal_of_nonneg (not_lt.mp hneg)) (by simp [framedXruns_cons, hne])
      · cases hstep
  case release n =>
    obtain ⟨hneg, t, rfl, hx⟩ := hi.release n hpc
    obtain ⟨sp, -, rfl⟩ := hstep
    have hfatal : n = epipe → (Fatal ({ n := n, framed := true } :: t) ↔ s.capXrun + 1 > 10) := by
      intro hn
      rw [hx]
      exact fatal_xrun hn (ht hn)
    split_ifs with hn h10
    · exact .of_fail rfl ((hfatal hn).mpr h10)
    · refine .of_going rfl (fun hf => h10 ((hfatal hn).mp hf)) ?_
      simp [framedXruns_cons, hn, hx]
    · exact .of_fail rfl ⟨hneg, fun he => absurd he hn⟩
  case fail =>
    cases hstep
    exact .of_done rfl

/-- Only the step that sets `error` does, and the thread ends there or when the stream stops. -/
theorem capStep_error {r : Read} (hstep : capStep c s r = some s') :
    (s.cap = .fail → s'.error = true ∧ s'.cap = .done) ∧ (s.cap ≠ .fail → s'.error = s.error) ∧
      (s'.cap = .done → s.cap = .fail ∨ s.running = false) := by
  cases hpc : s.cap <;>
    simp only [capStep, hpc, Option.map_eq_some_iff, reduceCtorEq] at hstep
  case top =>
    cases hstep
    cases hrun : s.running <;> simp
  case acquire =>
    obtain ⟨sp, -, rfl⟩ := hstep
    cases Spsc.acquireCall sp.prod with
    | inside => simp
    | returned o => cases o <;> simp
  case full | count =>
    cases hstep
    simp
  case commit =>
    obtain ⟨sp, -, rfl⟩ := hstep
    simp
  case discard => split at hstep <;> cases hstep <;> simp
  case read =>
    split at hstep
    · cases hstep
      simp
    · split at hstep
      · obtain ⟨sp, -, rfl⟩ := Option.map_eq_some_iff.mp hstep
        simp
      · cases hstep
  case release n =>
    obtain ⟨sp, -, rfl⟩ := hstep
    split_ifs <;> simp
  case fail =>
    cases hstep
    simp

/-- Where the policy is kept, no discarded read failed otherwise, and no discarded xrun stands among
the ten before an eleventh. -/
theorem tame_of_policed {r : Read} (hi : CountsXruns s h) (hstep : capStep c s r = some s')
    (hp : Policed s s' (noteRead s (.cap r) h)) : Tame (s, h) (.cap r) := by
  obtain ⟨hgoes, hfails, -, -, -⟩ := hp
  cases hpc : s.cap <;> simp only [Tame, hpc] <;>
    simp only [capStep, hpc, Option.map_eq_some_iff] at hstep <;>
    simp only [noteRead, hpc] at hgoes hfails
  case discard =>
    obtain ⟨-, hx⟩ := hi.going (by rw [hpc]; rfl)
    split at hstep <;> cases hstep <;> rename_i hxrun
    · refine ⟨fun _ => hxrun.1, fun _ _ => ?_⟩
      rw [← hx]
      have h10 := hxrun.2
      omega
    · have hnot := hgoes rfl
      refine ⟨fun hneg => ?_, fun hn h10 => ?_⟩
      · by_contra hne
        exact hnot ⟨hneg, fun he => absurd he hne⟩
      · exact absurd ⟨by rw [hn]; decide, fun _ => h10⟩ hnot
  case release n =>
    obtain ⟨hneg, t, rfl, hx⟩ := hi.release n hpc
    obtain ⟨sp, -, rfl⟩ := hstep
    intro hn h10
    have hfatal : Fatal ({ n := n, framed := true } :: t) := ⟨hneg, fun _ => h10⟩
    by_contra hlow
    simp only [List.tail_cons, ← hx] at hlow
    have hlt : ¬ s.capXrun + 1 > 10 := by omega
    simp only [hn, hlt, if_true, if_false] at hgoes
    exact hgoes rfl (hn ▸ hfatal)

theorem step_counts {a : Act} (hi : Aligned s ∧ CountsXruns s h) (ht : Tame (s, h) a)
    (hstep : step c s a = some s') : Aligned s' ∧ CountsXruns s' (noteRead s a h) := by
  refine ⟨step_aligned hi.1 hstep, ?_⟩
  have hm := hi.1.main
  cases a with
  | cap r => exact capStep_counts hi.2 ht hstep
  | codec e =>
    obtain ⟨sp, mp, codec, drop, rfl⟩ := codecStep_frame hstep
    exact hi.2.congr rfl (.inl rfl)
  | pb w =>
    obtain ⟨mp, pb, xrun, error, frames, rfl⟩ := pbStep_frame hstep
    exact hi.2.congr rfl (.inl rfl)
  | start =>
    simp only [step, mainStep] at hstep
    split at hstep <;> cases hstep <;> exact .of_off rfl rfl
  | spawn rc =>
    unfold MainOk at hm
    simp only [step, mainStep, spawnStep] at hstep
    cases hpc : s.main <;> simp only [hpc, reduceCtorEq] at hstep hm
    case spawnPb | spawnCodec => split at hstep <;> cases hstep <;> exact hi.2.congr rfl (.inl rfl)
    case spawnCap =>
      split at hstep <;> cases hstep
      · exact hi.2.congr rfl (.inl rfl)
      · refine hi.2.congr rfl ?_
        simp only [spawned]
        split_ifs
        · exact .inr ⟨hm.2, rfl⟩
        · exact .inl hm.2.symm
  | stop =>
    simp only [step, mainStep] at hstep
    split at hstep
    all_goals first
      | cases hstep
      | split at hstep <;> cases hstep <;> exact hi.2.congr rfl (.inl rfl)
  | join =>
    simp only [step, mainStep, joinStep] at hstep
    split at hstep
    all_goals first
      | cases hstep
      | split at hstep <;> cases hstep
        exact hi.2.congr rfl (.inl rfl)

theorem policy_iff_tame {a : Act} (hi : CountsXruns s h) (hstep : step c s a = some s') :
    ErrorPolicy c (s, h) a ↔ Tame (s, h) a := by
  cases a with
  | cap r =>
    refine ⟨fun hp => tame_of_policed hi hstep (hp s' hstep), fun ht t hstep' => ?_⟩
    have hcounts := capStep_counts hi ht hstep'
    obtain ⟨hsets, hkeeps, hleaves⟩ := capStep_error hstep'
    exact ⟨fun hgo => (hcounts.going hgo).1, hcounts.fail, hsets, hkeeps, hleaves⟩
  | _ => exact Iff.rfl

/-- **The capture thread gives up exactly when it should, while its discarded reads do no harm.** In
every run, whatever the reads return and whenever the pool is full, every step of the capture thread
keeps the error policy if and only if no discarded read fails with another error than `-EPIPE` and
no eleventh `-EPIPE` in a row has a discarded one among the ten before it. -/
theorem policy_iff (c : Setup) (spBody : Int → Body) (mpBody : Fin N → Body) (as : List Act)
    (s : Pipeline N) (hr : run (step c) (init spBody mpBody) as = some s) :
    Meets (noted (step c) noteRead) (ErrorPolicy c) (init spBody mpBody, []) as ↔
      Meets (noted (step c) noteRead) Tame (init spBody mpBody, []) as := by
  obtain ⟨h, hnoted⟩ := exists_run_noted noteRead hr []
  have hinit : Aligned (init spBody mpBody) ∧ CountsXruns (init spBody mpBody) [] :=
    ⟨aligned_init spBody mpBody, .of_off rfl rfl⟩
  refine meets_iff_of_invariant (P := ErrorPolicy c) (Q := Tame)
    (I := fun t => Aligned t.1 ∧ CountsXruns t.1 t.2) ?_ ?_ hinit hnoted
  · intro t a t' hi hstep
    exact policy_iff_tame hi.2 (noted_eq_some.mp hstep).1
  · intro t a t' hi ht hstep
    obtain ⟨hpipeline, hnote⟩ := noted_eq_some.mp hstep
    rw [hnote]
    exact step_counts hi ht hpipeline

/-- Eleven xruns on a free pool: the thread ends with an error at the last. -/
theorem policy_xruns :
    ∃ s, run (step stereoSetup) (fresh 1)
        (startAll ++ List.replicate 67 (.cap { n := epipe, data := [] })) = some s ∧
      s.error = true ∧
      Meets (noted (step stereoSetup) noteRead) (ErrorPolicy stereoSetup) (fresh 1, [])
        (startAll ++ List.replicate 67 (.cap { n := epipe, data := [] })) := by
  obtain ⟨s, hs, herror⟩ : ∃ s, run (step stereoSetup) (fresh 1)
      (startAll ++ List.replicate 67 (.cap { n := epipe, data := [] })) = some s ∧
      s.error = true := ⟨_, rfl, rfl⟩
  exact ⟨s, hs, herror, (policy_iff stereoSetup _ _ _ s hs).mpr (by decide +kernel)⟩

/-- The pool of one frame is full, and the period to be discarded. -/
def poolFull : List Act := startAll ++ List.replicate 11 (.cap { n := 480, data := [] })

/-- The read of the discarded period fails with `-EIO`, and the thread goes on. -/
theorem discard_ignores_error :
    (∃ s, run (step stereoSetup) (fresh 1) (poolFull ++ [.cap { n := -5, data := [] }]) = some s ∧
      s.error = false ∧ s.running = true ∧ s.cap = .top) ∧
      ¬ Meets (noted (step stereoSetup) noteRead) (ErrorPolicy stereoSetup) (fresh 1, [])
        (poolFull ++ [.cap { n := -5, data := [] }]) := by
  refine ⟨⟨_, rfl, rfl, rfl, rfl⟩, fun hm => ?_⟩
  obtain ⟨s, s', h, hs, hstep, hgoing, hnote⟩ : ∃ (s s' : Pipeline 1) (h : List CapRead),
      run (noted (step stereoSetup) noteRead) (fresh 1, []) poolFull = some (s, h) ∧
      capStep stereoSetup s { n := -5, data := [] } = some s' ∧ s'.cap.going = true ∧
      noteRead s (.cap { n := -5, data := [] }) h = { n := -5, framed := false } :: h :=
    ⟨_, _, _, rfl, rfl, rfl, rfl⟩
  have hpoliced := hm.of_run hs s' hstep
  rw [hnote] at hpoliced
  exact hpoliced.goesOn hgoing ⟨by decide, fun hxrun => absurd hxrun (by decide)⟩

end Pipeline
end Audio
end BuildingBlocks
