import BuildingBlocks.Lib.Run

/-!
# BuildingBlocks.Lib.Liveness

What holds however a run goes on.

* `Always step Q s` — every continuation of a run from `s` ends in `Q`.
* `Inevitable step p Q s` — so does every continuation with enough labels of the kind `p`.
* `always_of_invariant` / `inevitable_of_rank` — by an invariant, and by a rank that the labels of
  the kind bring down to zero.
* `not_inevitable_of_stays` — not so when the labels of the kind can stay outside `Q` forever.
* `countdown` — a measure that each state of a sequence has one less of.
* `Endless step s` — some run from `s` never ends; not so where a measure falls with every step
  (`not_endless`). A run that cannot go on ends in a state that is `Stuck`, and there the measure
  leads (`exists_stuck`).
-/

namespace BuildingBlocks
namespace Lib

variable {σ α : Type*} {step : σ → α → Option σ}

def Always (step : σ → α → Option σ) (Q : σ → Prop) (s : σ) : Prop :=
  ∀ as s', run step s as = some s' → Q s'

def Inevitable (step : σ → α → Option σ) (p : α → Bool) (Q : σ → Prop) (s : σ) : Prop :=
  ∃ n, ∀ as s', run step s as = some s' → n ≤ as.countP p → Q s'

variable {p : α → Bool} {I Q R : σ → Prop} {s : σ}

theorem always_of_invariant (hstep : ∀ s a s', I s → step s a = some s' → I s')
    (himp : ∀ s, I s → Q s) (hs : I s) : Always step Q s :=
  fun _ s' hr => himp s' (run_invariant hstep hs hr)

theorem Always.here (h : Always step Q s) : Q s := h [] s rfl

theorem Always.inevitable (h : Always step Q s) : Inevitable step p Q s :=
  ⟨0, fun as s' hr _ => h as s' hr⟩

theorem Inevitable.mono (h : Inevitable step p Q s) (himp : ∀ s, Q s → R s) :
    Inevitable step p R s := by
  obtain ⟨n, hn⟩ := h
  exact ⟨n, fun as s' hr hle => himp s' (hn as s' hr hle)⟩

/-- The rank falls with each label of the kind, down to zero. -/
theorem rank_run (f : σ → Nat) (hstep : ∀ s a s', I s → step s a = some s' → I s' ∧ f s' ≤ f s)
    (hlt : ∀ s a s', I s → p a = true → step s a = some s' → 0 < f s → f s' < f s) {as : List α}
    {s' : σ} (hs : I s) (hr : run step s as = some s') : f s' ≤ f s - as.countP p := by
  induction as generalizing s with
  | nil =>
    cases hr
    exact le_rfl
  | cons a as ih =>
    obtain ⟨s₁, h₁, h₂⟩ := run_cons_eq_some.mp hr
    obtain ⟨hs₁, hle⟩ := hstep s a s₁ hs h₁
    have hrest := ih hs₁ h₂
    rw [List.countP_cons]
    cases hp : p a with
    | false =>
      rw [if_neg Bool.false_ne_true]
      omega
    | true =>
      rw [if_pos rfl]
      have hfall := hlt s a s₁ hs hp h₁
      omega

theorem inevitable_of_rank (f : σ → Nat)
    (hstep : ∀ s a s', I s → step s a = some s' → I s' ∧ f s' ≤ f s)
    (hlt : ∀ s a s', I s → p a = true → step s a = some s' → 0 < f s → f s' < f s) (hs : I s) :
    Inevitable step p (fun s' => I s' ∧ f s' = 0) s := by
  refine ⟨f s, fun as s' hr hle => ⟨?_, ?_⟩⟩
  · exact run_invariant (fun t a t' ht h => (hstep t a t' ht h).1) hs hr
  · have hrank := rank_run f hstep hlt hs hr
    omega

/-- From a state of `I` there are runs of any number of labels of the kind that stay in `I`. -/
theorem exists_run_of_stays (hstay : ∀ s, I s → ∃ a s', p a = true ∧ step s a = some s' ∧ I s')
    (hs : I s) (n : Nat) : ∃ as s', run step s as = some s' ∧ n ≤ as.countP p ∧ I s' := by
  induction n generalizing s with
  | zero => exact ⟨[], s, rfl, Nat.zero_le _, hs⟩
  | succ n ih =>
    obtain ⟨a, s₁, hp, h₁, hs₁⟩ := hstay s hs
    obtain ⟨as, s', hr, hle, hs'⟩ := ih hs₁
    refine ⟨a :: as, s', run_cons_eq_some.mpr ⟨s₁, h₁, hr⟩, ?_, hs'⟩
    rw [List.countP_cons, if_pos hp]
    omega

theorem not_inevitable_of_stays
    (hstay : ∀ s, I s → ∃ a s', p a = true ∧ step s a = some s' ∧ I s')
    (hout : ∀ s, I s → ¬ Q s) (hs : I s) : ¬ Inevitable step p Q s := by
  rintro ⟨n, hn⟩
  obtain ⟨as, s', hr, hle, hs'⟩ := exists_run_of_stays hstay hs n
  exact hout s' hs' (hn as s' hr hle)

theorem countdown {seq : Nat → σ} {f : σ → Nat} (h : ∀ n, f (seq (n + 1)) = f (seq n) - 1)
    (n : Nat) : f (seq n) = f (seq 0) - n := by
  induction n with
  | zero => rfl
  | succ n ih => rw [h, ih, Nat.sub_sub]

def Endless (step : σ → α → Option σ) (s : σ) : Prop :=
  ∃ seq : Nat → σ, seq 0 = s ∧ ∀ n, ∃ a, step (seq n) a = some (seq (n + 1))

def Stuck (step : σ → α → Option σ) (s : σ) : Prop := ∀ a, step s a = none

theorem not_endless {ρ : Type*} {r : ρ → ρ → Prop} [IsWellFounded ρ r] (f : σ → ρ)
    (hstep : ∀ s a s', I s → step s a = some s' → I s' ∧ r (f s') (f s)) (hs : I s) :
    ¬ Endless step s := by
  rintro ⟨seq, rfl, hseq⟩
  have hI : ∀ n, I (seq n) := by
    intro n
    induction n with
    | zero => exact hs
    | succ n ih =>
      obtain ⟨a, ha⟩ := hseq n
      exact (hstep _ a _ ih ha).1
  obtain ⟨n, hn⟩ := WellFounded.not_rel_apply_succ (r := r) (fun n => f (seq n))
  obtain ⟨a, ha⟩ := hseq n
  exact hn (hstep _ a _ (hI n) ha).2

/-- Where the measure falls with every step, a run can be gone on with until it is stuck. -/
theorem exists_stuck {ρ : Type*} {r : ρ → ρ → Prop} [IsWellFounded ρ r] (f : σ → ρ)
    (hstep : ∀ s a s', I s → step s a = some s' → I s' ∧ r (f s') (f s)) (hs : I s) :
    ∃ as s', run step s as = some s' ∧ I s' ∧ Stuck step s' := by
  have hall : ∀ t, I t → ∃ as s', run step t as = some s' ∧ I s' ∧ Stuck step s' := by
    intro t
    induction t using (InvImage.wf f (IsWellFounded.wf (r := r))).induction with
    | _ t ih =>
      intro ht
      by_cases hstuck : Stuck step t
      · exact ⟨[], t, rfl, ht, hstuck⟩
      · obtain ⟨a, ha⟩ := not_forall.mp hstuck
        obtain ⟨t', ht'⟩ := Option.ne_none_iff_exists'.mp ha
        obtain ⟨hI, hlt⟩ := hstep t a t' ht ht'
        obtain ⟨as, s', hr, hs', hend⟩ := ih t' hlt hI
        exact ⟨a :: as, s', run_cons_eq_some.mpr ⟨t', ht', hr⟩, hs', hend⟩
  exact hall s hs

end Lib
end BuildingBlocks
