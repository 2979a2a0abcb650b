import Mathlib

/-!
# BuildingBlocks.Lib.Run

Runs of a labelled system. A system is a partial function `step : σ → α → Option σ`; the label
carries every choice the environment makes, `none` means that the label is not enabled.

* `run step s as`     — the state after the labels `as`, executable.
* `Meets step P s as` — before every step of the run, `P` holds of the state and the label.
* `run_invariant` / `run_invariant_of_meets` — the induction over runs, packaged once.
* `run_simulation_of_meets` — a forward simulation lifts from steps to runs.
-/

namespace BuildingBlocks
namespace Lib

variable {σ α τ β : Type*}

/-- Perform the labels in order. -/
def run (step : σ → α → Option σ) : σ → List α → Option σ
  | s, [] => some s
  | s, a :: as =>
    match step s a with
    | none => none
    | some s' => run step s' as

/-- `P` holds of the state and the label before every step of the run. -/
def Meets (step : σ → α → Option σ) (P : σ → α → Prop) : σ → List α → Prop
  | _, [] => True
  | s, a :: as => P s a ∧ ∀ s', step s a = some s' → Meets step P s' as

variable {step : σ → α → Option σ}

instance Meets.decidable {P : σ → α → Prop} [∀ s a, Decidable (P s a)] :
    ∀ s as, Decidable (Meets step P s as)
  | _, [] => .isTrue trivial
  | s, a :: as =>
    have : Decidable (∀ s', step s a = some s' → Meets step P s' as) :=
      match step s a with
      | none => .isTrue fun _ e => nomatch e
      | some s' =>
        match Meets.decidable s' as with
        | .isTrue hm => .isTrue fun _ e => Option.some.inj e ▸ hm
        | .isFalse hm => .isFalse fun hall => hm (hall s' rfl)
    inferInstanceAs (Decidable (_ ∧ _))

@[simp] theorem run_nil (s : σ) : run step s [] = some s := rfl

theorem run_cons_eq_some {s s'' : σ} {a : α} {as : List α} :
    run step s (a :: as) = some s'' ↔ ∃ s', step s a = some s' ∧ run step s' as = some s'' := by
  simp only [run]
  cases h : step s a <;> simp

theorem run_append_eq_some {s s'' : σ} {as bs : List α} :
    run step s (as ++ bs) = some s'' ↔
      ∃ s', run step s as = some s' ∧ run step s' bs = some s'' := by
  induction as generalizing s with
  | nil => simp
  | cons a as ih =>
    simp only [List.cons_append, run_cons_eq_some, ih]
    constructor
    · rintro ⟨s₁, h₁, s₂, h₂, h₃⟩; exact ⟨s₂, ⟨s₁, h₁, h₂⟩, h₃⟩
    · rintro ⟨s₂, ⟨s₁, h₁, h₂⟩, h₃⟩; exact ⟨s₁, h₁, s₂, h₂, h₃⟩

example : run (fun s a => if a ≤ s then some (s - a) else none) 5 [2, 2] = some 1 := by
  decide +kernel

/-- Every sequence of labels is a run when every label is always enabled. -/
theorem exists_run_of_total (h : ∀ s a, ∃ s', step s a = some s') (s : σ) (as : List α) :
    ∃ s', run step s as = some s' := by
  induction as generalizing s with
  | nil => exact ⟨s, rfl⟩
  | cons a as ih =>
    obtain ⟨s₁, h₁⟩ := h s a
    obtain ⟨s', hr⟩ := ih s₁
    exact ⟨s', run_cons_eq_some.mpr ⟨s₁, h₁, hr⟩⟩

/-- What holds at the start and is preserved by every step that meets `P` holds at the end of
every run whose steps all meet `P`. -/
theorem run_invariant_of_meets {P : σ → α → Prop} {I : σ → Prop}
    (hstep : ∀ s a s', I s → P s a → step s a = some s' → I s') {s s' : σ} {as : List α}
    (hs : I s) (hm : Meets step P s as) (hr : run step s as = some s') : I s' := by
  induction as generalizing s with
  | nil => cases hr; exact hs
  | cons a as ih =>
    obtain ⟨s₁, h₁, h₂⟩ := run_cons_eq_some.mp hr
    exact ih (hstep _ _ _ hs hm.1 h₁) (hm.2 _ h₁) h₂

/-- Two conditions that agree under an invariant, which the second preserves, are met by the same
runs. -/
theorem meets_iff_of_invariant {P Q : σ → α → Prop} {I : σ → Prop}
    (hiff : ∀ s a s', I s → step s a = some s' → (P s a ↔ Q s a))
    (hstep : ∀ s a s', I s → Q s a → step s a = some s' → I s') {s s' : σ} {as : List α}
    (hs : I s) (hr : run step s as = some s') : Meets step P s as ↔ Meets step Q s as := by
  induction as generalizing s with
  | nil => exact Iff.rfl
  | cons a as ih =>
    obtain ⟨s₁, h₁, h₂⟩ := run_cons_eq_some.mp hr
    simp only [Meets, h₁, Option.some.injEq, forall_eq']
    rw [hiff s a s₁ hs h₁]
    exact and_congr_right (fun hq => ih (hstep s a s₁ hs hq h₁) h₂)

/-- A condition that follows from another one under an invariant, which the other one preserves, is
met by the runs that meet the other one. -/
theorem Meets.of_invariant {P Q : σ → α → Prop} {I : σ → Prop} (himp : ∀ s a, I s → P s a → Q s a)
    (hstep : ∀ s a s', I s → P s a → step s a = some s' → I s') {s : σ} {as : List α} (hs : I s)
    (hm : Meets step P s as) : Meets step Q s as := by
  induction as generalizing s with
  | nil => trivial
  | cons a as ih =>
    exact ⟨himp s a hs hm.1, fun s' h => ih (hstep s a s' hs hm.1 h) (hm.2 s' h)⟩

theorem meets_true {s : σ} {as : List α} : Meets step (fun _ _ => True) s as := by
  induction as generalizing s with
  | nil => trivial
  | cons a as ih => exact ⟨trivial, fun _ _ => ih⟩

theorem meets_and {P Q : σ → α → Prop} {s : σ} {as : List α} (hp : Meets step P s as)
    (hq : Meets step Q s as) : Meets step (fun s a => P s a ∧ Q s a) s as := by
  induction as generalizing s with
  | nil => trivial
  | cons a as ih => exact ⟨⟨hp.1, hq.1⟩, fun s' h => ih (hp.2 s' h) (hq.2 s' h)⟩

/-- A condition on labels alone. -/
theorem meets_of_forall {P : α → Prop} {s : σ} {as : List α} (h : ∀ a ∈ as, P a) :
    Meets step (fun _ a => P a) s as := by
  induction as generalizing s with
  | nil => trivial
  | cons a as ih =>
    exact ⟨h a List.mem_cons_self, fun _ _ => ih fun b hb => h b (List.mem_cons_of_mem a hb)⟩

/-- The condition at one step of a run that meets it. -/
theorem Meets.of_run {P : σ → α → Prop} {s s' : σ} {as bs : List α} {a : α}
    (hm : Meets step P s (as ++ a :: bs)) (hr : run step s as = some s') : P s' a := by
  induction as generalizing s with
  | nil =>
    cases hr
    exact hm.1
  | cons b as ih =>
    obtain ⟨s₁, h₁, h₂⟩ := run_cons_eq_some.mp hr
    exact ih (hm.2 s₁ h₁) h₂

/-- What holds at the start and is preserved by every step holds at the end of every run. -/
theorem run_invariant {I : σ → Prop} (hstep : ∀ s a s', I s → step s a = some s' → I s')
    {s s' : σ} {as : List α} (hs : I s) (hr : run step s as = some s') : I s' :=
  run_invariant_of_meets (P := fun _ _ => True) (fun s a s' h _ => hstep s a s' h) hs meets_true hr

/-- A run of a part of the steps is a run. -/
theorem run_of_le {step' : σ → α → Option σ}
    (h : ∀ s a s', step' s a = some s' → step s a = some s') {s s' : σ} {as : List α}
    (hr : run step' s as = some s') : run step s as = some s' := by
  induction as generalizing s with
  | nil => exact hr
  | cons a as ih =>
    obtain ⟨s₁, h₁, h₂⟩ := run_cons_eq_some.mp hr
    exact run_cons_eq_some.mpr ⟨s₁, h _ _ _ h₁, ih h₂⟩

/-- Where every state of `I` that is not in `Q` has a step within `I` that decreases a rank, a run
leads from `I` to `Q`. -/
theorem exists_run_of_rank {I Q : σ → Prop} (f : σ → Nat)
    (hstep : ∀ s, I s → ¬ Q s → ∃ a s', step s a = some s' ∧ I s' ∧ f s' < f s) {s : σ} (hs : I s) :
    ∃ as s', run step s as = some s' ∧ I s' ∧ Q s' := by
  induction hn : f s using Nat.strong_induction_on generalizing s with
  | _ n ih =>
    by_cases hq : Q s
    · exact ⟨[], s, rfl, hs, hq⟩
    · obtain ⟨a, s₁, h₁, hs₁, hlt⟩ := hstep s hs hq
      obtain ⟨as, s', hr, hs', hq'⟩ := ih (f s₁) (hn ▸ hlt) hs₁ rfl
      exact ⟨a :: as, s', run_cons_eq_some.mpr ⟨s₁, h₁, hr⟩, hs', hq'⟩

/-- A bound on a quantity that no step decreases holds before and after every step of a run when
it holds at the end. -/
theorem meets_lt_of_mono {f : σ → Nat} {b : Nat}
    (hmono : ∀ s a s', step s a = some s' → f s ≤ f s') {s s' : σ} {as : List α}
    (hr : run step s as = some s') (hb : f s' < b) :
    Meets step (fun s a => ∀ s', step s a = some s' → f s' < b) s as := by
  induction as generalizing s with
  | nil => trivial
  | cons a as ih =>
    obtain ⟨s₁, h₁, h₂⟩ := run_cons_eq_some.mp hr
    have hle : f s₁ ≤ f s' :=
      run_invariant (I := fun t => f s₁ ≤ f t) (fun _ _ _ h hs => h.trans (hmono _ _ _ hs))
        le_rfl h₂
    refine ⟨fun t ht => ?_, fun t ht => ?_⟩ <;> rw [h₁] at ht <;> cases ht
    · omega
    · exact ih h₂

/-- Forward simulation: when every step that meets `P` is matched by a (possibly empty) run of the
abstract system, so is every run whose steps all meet `P`. -/
theorem run_simulation_of_meets {step' : τ → β → Option τ} {P : σ → α → Prop} {R : σ → τ → Prop}
    (hstep : ∀ s a s' t, R s t → P s a → step s a = some s' →
      ∃ bs t', run step' t bs = some t' ∧ R s' t')
    {s s' : σ} {t : τ} {as : List α} (hR : R s t) (hm : Meets step P s as)
    (hr : run step s as = some s') : ∃ bs t', run step' t bs = some t' ∧ R s' t' := by
  induction as generalizing s t with
  | nil => cases hr; exact ⟨[], t, rfl, hR⟩
  | cons a as ih =>
    obtain ⟨s₁, h₁, h₂⟩ := run_cons_eq_some.mp hr
    obtain ⟨bs, t₁, hb, hR₁⟩ := hstep _ _ _ _ hR hm.1 h₁
    obtain ⟨cs, t₂, hc, hR₂⟩ := ih hR₁ (hm.2 _ h₁) h₂
    exact ⟨bs ++ cs, t₂, run_append_eq_some.mpr ⟨t₁, hb, hc⟩, hR₂⟩

end Lib
end BuildingBlocks
