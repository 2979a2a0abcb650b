import Mathlib.Data.List.Basic
import Mathlib.Data.List.Induction
import Mathlib.Data.List.Nodup
import Mathlib.Tactic.Common

/-!
# BuildingBlocks.Lib.Assoc

Entries in a list as a map.

* `put` replaces the entry of a key where it stands, or appends one.
* `valueOf_put`, `keys_put`, `nodup_keys_put` — what one `put` does.
* `puts_spec` — after a sequence of them every key is there once, with its last value.
-/

namespace BuildingBlocks
namespace Lib

variable {κ ν : Type*} [DecidableEq κ]

def keys (es : List (κ × ν)) : List κ := es.map Prod.fst

/-- The value of the first entry of a key. -/
def valueOf (es : List (κ × ν)) (k : κ) : Option ν := (es.find? (fun e => e.1 = k)).map Prod.snd

def put (es : List (κ × ν)) (e : κ × ν) : List (κ × ν) :=
  if e.1 ∈ keys es then es.map (fun e' => if e'.1 = e.1 then e else e') else es ++ [e]

def puts (es sets : List (κ × ν)) : List (κ × ν) := sets.foldl put es

/-- The value of the last entry of a key. -/
def last (sets : List (κ × ν)) (k : κ) : Option ν := valueOf sets.reverse k

section Put

variable {es : List (κ × ν)} {e : κ × ν} {k : κ}

@[simp] theorem valueOf_nil : valueOf ([] : List (κ × ν)) k = none := rfl

theorem valueOf_cons : valueOf (e :: es) k = if e.1 = k then some e.2 else valueOf es k := by
  unfold valueOf
  by_cases h : e.1 = k
  · rw [List.find?_cons_of_pos (by simpa using h), if_pos h]
    rfl
  · rw [List.find?_cons_of_neg (by simpa using h), if_neg h]

theorem valueOf_append (h : k ∉ keys es) (es' : List (κ × ν)) :
    valueOf (es ++ es') k = valueOf es' k := by
  induction es with
  | nil => rfl
  | cons e es ih =>
    have hk : e.1 ≠ k ∧ k ∉ keys es := by simpa [keys, eq_comm] using h
    rw [List.cons_append, valueOf_cons, if_neg hk.1, ih hk.2]

theorem valueOf_append_of_ne {e : κ × ν} (h : e.1 ≠ k) : valueOf (es ++ [e]) k = valueOf es k := by
  induction es with
  | nil => rw [List.nil_append, valueOf_cons, if_neg h]
  | cons e' es ih => rw [List.cons_append, valueOf_cons, valueOf_cons, ih]

theorem keys_replace : keys (es.map (fun e' => if e'.1 = e.1 then e else e')) = keys es := by
  rw [keys, keys, List.map_map]
  refine List.map_congr_left (fun e' _ => ?_)
  rw [Function.comp_apply]
  split
  · rename_i h
    exact h.symm
  · rfl

theorem keys_put : keys (put es e) = if e.1 ∈ keys es then keys es else keys es ++ [e.1] := by
  unfold put
  split
  · exact keys_replace
  · rw [keys, List.map_append]
    rfl

theorem mem_keys_put : k ∈ keys (put es e) ↔ k = e.1 ∨ k ∈ keys es := by
  rw [keys_put]
  split
  · rename_i h
    exact ⟨Or.inr, fun hk => hk.elim (fun he => he ▸ h) id⟩
  · rw [List.mem_append, List.mem_singleton, or_comm]

theorem nodup_keys_put (h : (keys es).Nodup) : (keys (put es e)).Nodup := by
  rw [keys_put]
  split
  · exact h
  · rename_i hnot
    exact h.append (List.nodup_singleton _) (List.disjoint_singleton.mpr hnot)

theorem valueOf_replace_of_ne (h : k ≠ e.1) :
    valueOf (es.map (fun e' => if e'.1 = e.1 then e else e')) k = valueOf es k := by
  induction es with
  | nil => rfl
  | cons e' es ih =>
    rw [List.map_cons, valueOf_cons, valueOf_cons, ih]
    by_cases he : e'.1 = e.1
    · rw [if_pos he, if_neg (Ne.symm h), he, if_neg (Ne.symm h)]
    · rw [if_neg he]

theorem valueOf_replace (h : e.1 ∈ keys es) :
    valueOf (es.map (fun e' => if e'.1 = e.1 then e else e')) e.1 = some e.2 := by
  induction es with
  | nil => exact absurd h List.not_mem_nil
  | cons e' es ih =>
    rw [List.map_cons, valueOf_cons]
    by_cases he : e'.1 = e.1
    · rw [if_pos he, if_pos rfl]
    · rw [if_neg he, if_neg he]
      rcases List.mem_cons.mp h with heq | hmem
      · exact absurd heq.symm he
      · exact ih hmem

theorem valueOf_put : valueOf (put es e) k = if k = e.1 then some e.2 else valueOf es k := by
  unfold put
  by_cases hk : k = e.1
  · subst hk
    rw [if_pos rfl]
    split
    · rename_i h
      exact valueOf_replace h
    · rename_i h
      rw [valueOf_append h, valueOf_cons, if_pos rfl]
  · rw [if_neg hk]
    split
    · exact valueOf_replace_of_ne hk
    · exact valueOf_append_of_ne (Ne.symm hk)

end Put

/-! ## Sequences -/

section Puts

variable {es sets : List (κ × ν)} {k : κ}

theorem puts_concat (e : κ × ν) : puts es (sets ++ [e]) = put (puts es sets) e :=
  List.foldl_concat _ _ _ _

/-- The entries a sequence makes: every key once, each with its last value. -/
theorem puts_spec (sets : List (κ × ν)) :
    (keys (puts [] sets)).Nodup ∧ (∀ k, k ∈ keys (puts [] sets) ↔ k ∈ keys sets) ∧
      ∀ k, valueOf (puts [] sets) k = last sets k := by
  induction sets using List.reverseRecOn with
  | nil => exact ⟨List.nodup_nil, fun k => Iff.rfl, fun k => rfl⟩
  | append_singleton sets e ih =>
    obtain ⟨hnodup, hkeys, hget⟩ := ih
    rw [puts_concat]
    refine ⟨nodup_keys_put hnodup, ?_, ?_⟩
    · intro k
      rw [mem_keys_put, hkeys, keys, keys, List.map_append, List.mem_append, List.map_singleton,
        List.mem_singleton, or_comm]
    · intro k
      rw [valueOf_put, hget, last, last, List.reverse_append, List.reverse_singleton,
        List.singleton_append, valueOf_cons]
      by_cases hk : k = e.1
      · rw [if_pos hk, if_pos hk.symm]
      · rw [if_neg hk, if_neg (Ne.symm hk)]

end Puts

end Lib
end BuildingBlocks
