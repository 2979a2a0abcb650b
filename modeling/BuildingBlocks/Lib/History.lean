import BuildingBlocks.Lib.Run

/-!
# BuildingBlocks.Lib.History

A system with a history beside its state, for conditions on what happened before a step.

* `noted step note`   — every step records itself, the state moves as before.
* `exists_run_noted`  — every run is one with a history.
* `meets_noted`       — a condition that does not look at the history is met as before.
-/

namespace BuildingBlocks
namespace Lib

variable {σ α η : Type*} {step : σ → α → Option σ} {note : σ → α → η → η}

def noted (step : σ → α → Option σ) (note : σ → α → η → η) (s : σ × η) (a : α) : Option (σ × η) :=
  (step s.1 a).map fun s' => (s', note s.1 a s.2)

theorem noted_eq_some {s s' : σ × η} {a : α} :
    noted step note s a = some s' ↔ step s.1 a = some s'.1 ∧ s'.2 = note s.1 a s.2 := by
  rw [noted, Option.map_eq_some_iff]
  constructor
  · rintro ⟨t, ht, rfl⟩
    exact ⟨ht, rfl⟩
  · rintro ⟨ht, hnote⟩
    exact ⟨s'.1, ht, Prod.ext rfl hnote.symm⟩

theorem exists_run_noted (note : σ → α → η → η) {s s' : σ} {as : List α}
    (hr : run step s as = some s') (h : η) :
    ∃ h', run (noted step note) (s, h) as = some (s', h') := by
  induction as generalizing s h with
  | nil =>
    cases hr
    exact ⟨h, rfl⟩
  | cons a as ih =>
    obtain ⟨s₁, h₁, h₂⟩ := run_cons_eq_some.mp hr
    obtain ⟨h', hrun⟩ := ih h₂ (note s a h)
    exact ⟨h', run_cons_eq_some.mpr ⟨(s₁, note s a h), noted_eq_some.mpr ⟨h₁, rfl⟩, hrun⟩⟩

theorem meets_noted (note : σ → α → η → η) {P : σ → α → Prop} {s : σ} {as : List α} (h : η) :
    Meets (noted step note) (fun s a => P s.1 a) (s, h) as ↔ Meets step P s as := by
  induction as generalizing s h with
  | nil => exact Iff.rfl
  | cons a as ih =>
    refine and_congr_right fun _ => ⟨fun hm s' hs => ?_, fun hm s' hs => ?_⟩
    · exact (ih _).mp (hm (s', note s a h) (noted_eq_some.mpr ⟨hs, rfl⟩))
    · exact (ih s'.2).mpr (hm s'.1 (noted_eq_some.mp hs).1)

end Lib
end BuildingBlocks
