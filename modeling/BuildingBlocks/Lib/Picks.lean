import Mathlib

/-!
# BuildingBlocks.Lib.Picks

Entries picked from a list by their positions.

* `picks_subperm` — picked at positions that are all different, they are some of the entries, none
  more often than the list has it.
* `picks_sublist` — at ascending positions they are in the order of the list.
-/

namespace BuildingBlocks
namespace Lib

variable {α β : Type*} {l : List α} {picks : List (Nat × α)}

theorem filterMap_range_getElem? (l : List α) :
    (List.range l.length).filterMap (fun t => l[t]?) = l := by
  induction l with
  | nil => rfl
  | cons a l ih =>
    rw [List.length_cons, List.range_succ_eq_map, List.filterMap_cons, List.filterMap_map]
    simpa [Function.comp_def] using ih

theorem subperm_filterMap {l₁ l₂ : List α} (h : l₁.Subperm l₂) (f : α → Option β) :
    (l₁.filterMap f).Subperm (l₂.filterMap f) := by
  obtain ⟨l, hperm, hsub⟩ := h
  exact ⟨l.filterMap f, hperm.filterMap f, hsub.filterMap f⟩

theorem picks_eq (h : ∀ e ∈ picks, l[e.1]? = some e.2) :
    picks.map Prod.snd = (picks.map Prod.fst).filterMap fun t => l[t]? := by
  rw [List.filterMap_map, eq_comm, List.filterMap_eq_map_iff_forall_eq_some]
  exact h

theorem positions_subset (h : ∀ e ∈ picks, l[e.1]? = some e.2) :
    picks.map Prod.fst ⊆ List.range l.length := by
  intro t ht
  obtain ⟨e, he, rfl⟩ := List.mem_map.mp ht
  exact List.mem_range.mpr (List.getElem?_eq_some_iff.mp (h e he)).1

/-- Each entry is picked at most once. -/
theorem picks_subperm (h : ∀ e ∈ picks, l[e.1]? = some e.2) (hnodup : (picks.map Prod.fst).Nodup) :
    (picks.map Prod.snd).Subperm l := by
  have hpicks := subperm_filterMap (hnodup.subperm (positions_subset h)) fun t => l[t]?
  rwa [← picks_eq h, filterMap_range_getElem?] at hpicks

/-- The entries are picked in order. -/
theorem picks_sublist (h : ∀ e ∈ picks, l[e.1]? = some e.2)
    (hsorted : (picks.map Prod.fst).Pairwise (· < ·)) : (picks.map Prod.snd).Sublist l := by
  have hnodup : (picks.map Prod.fst).Nodup := hsorted.imp fun hlt => hlt.ne
  have hpositions : (picks.map Prod.fst).Sublist (List.range l.length) :=
    List.sublist_of_subperm_of_pairwise (hnodup.subperm (positions_subset h)) hsorted
      List.pairwise_lt_range
  have hpicks := hpositions.filterMap fun t => l[t]?
  rwa [← picks_eq h, filterMap_range_getElem?] at hpicks

end Lib
end BuildingBlocks
