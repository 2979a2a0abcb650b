import Mathlib.Data.List.Basic
import Mathlib.Data.List.DropRight
import Mathlib.Logic.Function.Basic
import Mathlib.Tactic.Common

/-!
# BuildingBlocks.Lib.FileTree

Trees of directories and files, and the paths through them.

* `FileTree` — what stands under each path; what has something below it is a directory.
* `mkdir`, `write`, `remove`, `clear` — the operations, with what they leave elsewhere.
* `walk` — a path followed component by component; `walk_eq_some_iff` says where it ends and which
  directories it passes.
-/

namespace BuildingBlocks
namespace Lib

variable {ν γ : Type*}

inductive Node (γ : Type*) where
  | dir
  | file (content : γ)
deriving DecidableEq

def isDir : Option (Node γ) → Bool
  | some .dir => true
  | _ => false

def isFile : Option (Node γ) → Bool
  | some (.file _) => true
  | _ => false

@[simp] theorem isDir_dir : isDir (some (.dir : Node γ)) = true := rfl

@[simp] theorem isFile_dir : isFile (some (.dir : Node γ)) = false := rfl

@[simp] theorem isDir_file (content : γ) : isDir (some (.file content)) = false := rfl

@[simp] theorem isFile_file (content : γ) : isFile (some (.file content)) = true := rfl

theorem isDir_iff {x : Option (Node γ)} : isDir x = true ↔ x = some .dir := by
  rcases x with _ | _ | _ <;> simp [isDir]

/-- A tree: the path to a node is a path of directories. -/
structure FileTree (ν γ : Type*) where
  node : List ν → Option (Node γ)
  closed : ∀ p n, node (p ++ [n]) ≠ none → node p = some .dir

namespace FileTree

variable {t : FileTree ν γ} {p q : List ν} {v : Node γ}

/-- Above a node there are directories. -/
theorem isDir_of_prefix (h : t.node q ≠ none) (hpre : p <+: q) (hne : p ≠ q) :
    t.node p = some .dir := by
  obtain ⟨r, rfl⟩ := hpre
  induction r using List.reverseRecOn with
  | nil => exact absurd (List.append_nil p).symm hne
  | append_singleton r n ih =>
    rw [← List.append_assoc] at h
    have hdir := t.closed (p ++ r) n h
    rcases eq_or_ne r [] with rfl | hr
    · rwa [List.append_nil] at hdir
    · refine ih (by rw [hdir]; exact Option.some_ne_none _) (fun he => hr ?_)
      exact List.append_right_eq_self.mp he.symm

variable [DecidableEq ν]

/-- A node that may be placed at a path: its directory is there, and a file takes no directory's
place. -/
def MayPut (t : FileTree ν γ) (p : List ν) (v : Node γ) : Prop :=
  p ≠ [] ∧ isDir (t.node p.dropLast) = true ∧ (v = .dir ∨ isDir (t.node p) = false)

/-- The node is placed at the path. -/
def put (t : FileTree ν γ) (p : List ν) (v : Node γ) (h : t.MayPut p v) : FileTree ν γ where
  node := Function.update t.node p (some v)
  closed := by
    intro q n hq
    obtain ⟨-, hparent, hleaf⟩ := h
    by_cases hqn : q ++ [n] = p
    · rw [← hqn, List.dropLast_concat, isDir_iff] at hparent
      rwa [Function.update_of_ne]
      rintro rfl
      exact List.cons_ne_nil n [] (List.append_right_eq_self.mp hqn)
    · rw [Function.update_of_ne hqn] at hq
      have hdir := t.closed q n hq
      by_cases hqp : q = p
      · rw [← hqp, Function.update_self]
        rcases hleaf with rfl | hleaf
        · rfl
        · rw [← hqp, hdir] at hleaf
          cases hleaf
      · rw [Function.update_of_ne hqp]
        exact hdir

theorem put_self (h : t.MayPut p v) : (t.put p v h).node p = some v := Function.update_self _ _ _

theorem put_of_ne (h : t.MayPut p v) (hne : q ≠ p) : (t.put p v h).node q = t.node q :=
  Function.update_of_ne hne _ _

/-- `mkdir`. -/
def mkdir (t : FileTree ν γ) (p : List ν) : FileTree ν γ :=
  if h : t.node p = none ∧ p ≠ [] ∧ isDir (t.node p.dropLast) = true then
    t.put p .dir ⟨h.2.1, h.2.2, Or.inl rfl⟩
  else t

/-- A file opened for writing, and what is written to it; `none` when it does not open. -/
def write (t : FileTree ν γ) (p : List ν) (content : γ) : Option (FileTree ν γ) :=
  if h : p ≠ [] ∧ isDir (t.node p.dropLast) = true ∧ isDir (t.node p) = false then
    some (t.put p (.file content) ⟨h.1, h.2.1, Or.inr h.2.2⟩)
  else none

/-- A node goes with everything below it. -/
def remove (t : FileTree ν γ) (p : List ν) : FileTree ν γ where
  node q := if p <+: q then none else t.node q
  closed := by
    intro q n hq
    by_cases hpre : p <+: q ++ [n]
    · rw [if_pos hpre] at hq
      exact absurd rfl hq
    · rw [if_neg hpre] at hq
      rw [if_neg (fun h => hpre (h.trans (List.prefix_append q [n])))]
      exact t.closed q n hq

/-- Everything goes but the root. -/
def clear (t : FileTree ν γ) : FileTree ν γ where
  node q := if q = [] then t.node [] else none
  closed := by
    intro q n hq
    rw [if_neg (List.append_ne_nil_of_right_ne_nil q (List.cons_ne_nil n []))] at hq
    exact absurd rfl hq

/-- The directories on the way to some paths. -/
def ofPaths (paths : List (List ν)) : FileTree ν γ where
  node q := if ∃ v ∈ paths, q <+: v then some .dir else none
  closed := by
    intro q n hq
    split at hq
    · next h =>
      obtain ⟨v, hv, hpre⟩ := h
      exact if_pos ⟨v, hv, (List.prefix_append q [n]).trans hpre⟩
    · exact absurd rfl hq

theorem ofPaths_eq (paths : List (List ν)) (q : List ν) :
    (ofPaths paths : FileTree ν γ).node q =
      if ∃ v ∈ paths, q <+: v then some .dir else none := rfl

theorem mkdir_of_ne (hne : q ≠ p) : (t.mkdir p).node q = t.node q := by
  unfold mkdir
  split
  · exact put_of_ne _ hne
  · rfl

/-- A directory that is made stands there after, and nothing else changes. -/
theorem mkdir_self (hnone : isFile (t.node p) = false) (hparent : isDir (t.node p.dropLast) = true)
    (hne : p ≠ []) : (t.mkdir p).node p = some .dir := by
  unfold mkdir
  split
  · exact put_self _
  · next h =>
    rcases hp : t.node p with _ | _ | _
    · exact absurd ⟨hp, hne, hparent⟩ h
    · rfl
    · rw [hp] at hnone
      cases hnone

/-- `mkdir` changes nothing but that its path may become a directory. -/
theorem mkdir_cases (t : FileTree ν γ) (p q : List ν) :
    (t.mkdir p).node q = t.node q ∨ q = p ∧ (t.mkdir p).node q = some .dir := by
  rcases eq_or_ne q p with rfl | hqp
  · unfold mkdir
    split
    · exact Or.inr ⟨rfl, put_self _⟩
    · exact Or.inl rfl
  · exact Or.inl (mkdir_of_ne hqp)

/-- `mkdir` removes nothing and changes nothing that is there. -/
theorem mkdir_of_ne_none (h : t.node q ≠ none) : (t.mkdir p).node q = t.node q := by
  by_cases hqp : q = p
  · unfold mkdir
    split
    · next hp => exact absurd (hqp ▸ hp.1) h
    · rfl
  · exact mkdir_of_ne hqp

theorem remove_eq (t : FileTree ν γ) (p q : List ν) :
    (t.remove p).node q = if p <+: q then none else t.node q := rfl

theorem remove_of_not (h : ¬ p <+: q) : (t.remove p).node q = t.node q := if_neg h

theorem write_eq_some {content : γ} {t' : FileTree ν γ} (h : t.write p content = some t') :
    t'.node p = some (.file content) ∧ ∀ q, q ≠ p → t'.node q = t.node q := by
  unfold write at h
  split at h
  · rw [← Option.some.inj h]
    exact ⟨put_self _, fun q hq => put_of_ne _ hq⟩
  · cases h

theorem write_isSome (content : γ) (hne : p ≠ []) (hparent : isDir (t.node p.dropLast) = true)
    (hdir : isDir (t.node p) = false) : ∃ t', t.write p content = some t' :=
  ⟨_, dif_pos ⟨hne, hparent, hdir⟩⟩

end FileTree

/-! ## Paths -/

/-- A component of a path. -/
inductive Comp (ν : Type*) where
  | here
  | up
  | name (n : ν)
deriving DecidableEq

/-- Where a component leads. -/
def Comp.apply (p : List ν) : Comp ν → List ν
  | .here => p
  | .up => p.dropLast
  | .name n => p ++ [n]

/-- A path that is followed from `p`; every node on the way has to be a directory. -/
def walk (look : List ν → Option (Node γ)) : List ν → List (Comp ν) → Option (List ν)
  | p, [] => some p
  | p, c :: cs => if isDir (look p) then walk look (c.apply p) cs else none

/-- Where the path ends. -/
def goTo (p : List ν) (cs : List (Comp ν)) : List ν := cs.foldl Comp.apply p

/-- The nodes on the way. -/
def through : List ν → List (Comp ν) → List (List ν)
  | _, [] => []
  | p, c :: cs => p :: through (c.apply p) cs

theorem walk_eq_some_iff {look : List ν → Option (Node γ)} {p q : List ν} {cs : List (Comp ν)} :
    walk look p cs = some q ↔ q = goTo p cs ∧ ∀ v ∈ through p cs, isDir (look v) = true := by
  induction cs generalizing p with
  | nil =>
    rw [walk, Option.some.injEq]
    exact ⟨fun h => ⟨h.symm, fun v hv => absurd hv List.not_mem_nil⟩, fun h => h.1.symm⟩
  | cons c cs ih =>
    rw [walk, through, List.forall_mem_cons]
    cases isDir (look p) with
    | true =>
      rw [if_pos rfl, ih, and_iff_right rfl]
      rfl
    | false =>
      rw [if_neg Bool.false_ne_true]
      exact iff_of_false (fun h => nomatch h) (fun h => Bool.false_ne_true h.2.1)

/-- A path that never goes up stays below where it begins. -/
theorem prefix_goTo {p : List ν} {cs : List (Comp ν)} (h : Comp.up ∉ cs) :
    p <+: goTo p cs ∧ ∀ v ∈ through p cs, v <+: goTo p cs := by
  induction cs generalizing p with
  | nil => exact ⟨List.prefix_rfl, fun v hv => absurd hv List.not_mem_nil⟩
  | cons c cs ih =>
    rw [List.mem_cons, not_or] at h
    have hstep : p <+: c.apply p := by
      cases c with
      | here => exact List.prefix_rfl
      | up => exact absurd rfl h.1
      | name n => exact List.prefix_append p [n]
    obtain ⟨hpre, hall⟩ := ih (p := c.apply p) h.2
    rw [through, List.forall_mem_cons]
    exact ⟨hstep.trans hpre, hstep.trans hpre, hall⟩

/-- A path of names. -/
theorem goTo_names (p names : List ν) : goTo p (names.map Comp.name) = p ++ names := by
  induction names generalizing p with
  | nil => exact (List.append_nil p).symm
  | cons n names ih =>
    rw [List.map_cons, goTo, List.foldl_cons]
    exact (ih (p ++ [n])).trans (List.append_assoc p [n] names)

end Lib
end BuildingBlocks
