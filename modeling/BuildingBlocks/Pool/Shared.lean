import BuildingBlocks.Pool.SpscWrap
import BuildingBlocks.Pool.Ownership
import BuildingBlocks.Pool.MpscCorrect

/-!
# BuildingBlocks.Pool.Shared

Frames with additional holders: `bb_frame_ref` and `bb_frame_unref` in any order with the operations
of a pool. `refs` counts the references of a frame that its holders have not dropped.

* `Sound` is what the count of a frame is for: no frame is free while somebody has it, none can be
  dequeued that was not put in, and a frame nobody has is free again.
* `Careful` is the condition: the last reference but the pool's is dropped before the release, and
  in the mutex-protected pool a frame on its way to the queue is not referenced.
* `shared_iff` — the careful runs are exactly the sound ones.
-/

namespace BuildingBlocks
namespace Pool

/-- An operation of the pool, or one of an additional holder. -/
inductive SharedLabel (α ι : Type*) where
  | pool (a : α)
  | ref (i : ι)
  | unref (i : ι)

/-- `atomic_fetch_sub(&f->refcount, 1)`. -/
def subRef {ι β : Type*} [DecidableEq ι] (fs : ι → Frame β) (i : ι) : ι → Frame β :=
  setRef fs i ((fs i).refcount - 1)

/-! ## The lock-free pool -/

namespace Spsc

open Lib

variable {β : Type*} {count : Nat}

structure Shared (β : Type*) where
  pool : Spsc β
  refs : Int → Nat

def Shared.init (body : Int → β) : Shared β where
  pool := Spsc.init body
  refs _ := 0

/-- A holder drops a reference only while it has one. -/
def Shared.step (count : Nat) (s : Shared β) : SharedLabel (SpLabel β) Int → Option (Shared β)
  | .pool a => (Spsc.step count s.pool a).map fun pool => { s with pool := pool }
  | .ref i =>
    some {
      pool := { s.pool with frames := addRef s.pool.frames i }
      refs := Function.update s.refs i (s.refs i + 1) }
  | .unref i =>
    if s.refs i = 0 then none
    else
      some {
        pool := { s.pool with frames := subRef s.pool.frames i }
        refs := Function.update s.refs i (s.refs i - 1) }

/-- The frame the producer has. -/
def owned : ProdPc → List Int
  | .owns idx => [idx]
  | _ => []

/-- The frames the producer, the queue and the consumer have. -/
def inUse (s : Spsc β) : List Int :=
  owned s.prod ++ ((s.committed.map Prod.fst).drop s.delivered.length ++ s.held)

structure Shared.Sound (s : Shared β) : Prop where
  /-- What an acquire can hand out nobody has. -/
  exclusive : ∀ i, (s.pool.frames i).refcount = 0 → s.refs i = 0 ∧ i ∉ s.pool.inUse
  /-- What was dequeued had been committed. -/
  ordered : s.pool.delivered.map Prod.fst <+: s.pool.committed.map Prod.fst
  /-- What nobody has can be acquired. -/
  returned : ∀ i, s.refs i = 0 → i ∉ s.pool.inUse → (s.pool.frames i).refcount = 0

/-- A frame is released when no additional holder has a reference. -/
def Shared.Careful (s : Shared β) : SharedLabel (SpLabel β) Int → Prop
  | .pool (.release i) => s.refs i = 0
  | .pool .abandon => ∀ i ∈ owned s.pool.prod, s.refs i = 0
  | _ => True

instance (s : Shared β) : ∀ a, Decidable (s.Careful a)
  | .ref _ | .unref _ => .isTrue trivial
  | .pool (.release i) => inferInstanceAs (Decidable (s.refs i = 0))
  | .pool .abandon => inferInstanceAs (Decidable (∀ i ∈ owned s.pool.prod, s.refs i = 0))
  | .pool .acqLoadWrite | .pool .acqLoadRead | .pool .acqCas | .pool (.fill _) | .pool .commit
  | .pool .deqLoadWrite | .pool .deqLoadRead | .pool .deqLoadRef | .pool .deqAdvance =>
    .isTrue trivial

/-- The count of a frame is the references of its holders and one of the pool. -/
structure Shared.Inv (count : Nat) (s : Shared β) : Prop where
  counted : Counted count s.pool
  refcount : ∀ i, (s.pool.frames i).refcount = s.refs i + s.pool.inUse.count i
  once : s.pool.inUse.Nodup

section Inv

variable {s s' : Shared β} {pool : Spsc β}

theorem Shared.inv_init (body : Int → β) : Shared.Inv count (Shared.init body) where
  counted := counted_init body
  refcount _ := rfl
  once := List.nodup_nil

theorem Shared.Inv.sound (hi : s.Inv count) : s.Sound where
  exclusive i h := by
    have hcount := hi.refcount i
    rw [h] at hcount
    exact ⟨by omega, List.count_eq_zero.mp (by omega)⟩
  ordered := by
    rw [hi.counted.committed, hi.counted.delivered]
    exact slots_prefix hi.counted.le
  returned i h hnot := by
    rw [hi.refcount, h, List.count_eq_zero.mpr hnot]
    rfl

/-- The frames keep their counts, and change hands at most. -/
theorem Shared.Inv.perm (hi : s.Inv count) (hcounted : Counted count pool)
    (hf : ∀ i, (pool.frames i).refcount = (s.pool.frames i).refcount)
    (hperm : pool.inUse.Perm s.pool.inUse) : Shared.Inv count { s with pool := pool } where
  counted := hcounted
  refcount i := by
    rw [hf, hi.refcount, hperm.count_eq]
  once := hperm.nodup_iff.mpr hi.once

/-- A frame without additional holders goes back. -/
theorem Shared.Inv.drop (hi : s.Inv count) {i : Int} (hcounted : Counted count pool)
    (hf : pool.frames = setRef s.pool.frames i 0) (hrefs : s.refs i = 0)
    (hperm : s.pool.inUse.Perm (i :: pool.inUse)) : Shared.Inv count { s with pool := pool } := by
  have honce := hperm.nodup_iff.mp hi.once
  rw [List.nodup_cons] at honce
  refine ⟨hcounted, ?_, honce.2⟩
  intro j
  rw [hf]
  by_cases hj : j = i
  · subst hj
    rw [setRef_refcount_self, hrefs, List.count_eq_zero.mpr honce.1]
    rfl
  · rw [setRef_of_ne _ hj, hi.refcount, hperm.count_eq, List.count_cons_of_ne (Ne.symm hj)]

theorem Shared.Inv.acquire (hi : s.Inv count) {idx : Int} (hcounted : Counted count pool)
    (hp : s.pool.prod = .acqSlot idx) (h0 : (s.pool.frames idx).refcount = 0)
    (hpool : pool = { s.pool with frames := setRef s.pool.frames idx 1, prod := .owns idx }) :
    Shared.Inv count { s with pool := pool } := by
  obtain ⟨hrefs, hnot⟩ := hi.sound.exclusive idx h0
  have huse : pool.inUse = idx :: s.pool.inUse := by
    rw [hpool]
    simp [inUse, owned, hp]
  refine ⟨hcounted, ?_, ?_⟩
  · intro j
    rw [huse, hpool]
    by_cases hj : j = idx
    · subst hj
      simp [hrefs, List.count_eq_zero.mpr hnot]
    · simp only [setRef_of_ne _ hj]
      rw [hi.refcount, List.count_cons_of_ne (Ne.symm hj)]
  · rw [huse]
    exact List.nodup_cons.mpr ⟨hnot, hi.once⟩

/-- The frame that is dequeued is the first of the queue. -/
theorem Counted.queue_head {s : Spsc β} (hi : Counted count s) {idx : Int}
    (hc : s.cons = .deqTake idx) :
    (s.committed.map Prod.fst).drop s.delivered.length =
      idx :: (s.committed.map Prod.fst).drop (s.delivered.length + 1) := by
  have hcons := hi.cons
  rw [ConsCounted, hc] at hcons
  obtain ⟨hidx, hlt, hlow⟩ := hcons
  have hlen : s.delivered.length < (s.committed.map Prod.fst).length := by
    rwa [List.length_map]
  rw [List.drop_eq_getElem_cons hlen]
  congr 1
  have hget : (s.committed.map Prod.fst)[s.delivered.length]? =
      some (slot count (int32 s.delivered.length)) := by
    rw [hi.committed, slots, List.getElem?_map, List.getElem?_range hlt]
    rfl
  rw [List.getElem?_eq_getElem hlen, Option.some.injEq] at hget
  rw [hget, hidx, hi.read, int32_eq (by omega) (by omega)]

theorem Shared.inv_pool (hcount : count < 2 ^ 31) (hi : s.Inv count) {a : SpLabel β}
    (hc : s.Careful (.pool a)) (h : Spsc.step count s.pool a = some pool) :
    Shared.Inv count { s with pool := pool } := by
  have hcounted := step_counted hcount hi.counted h
  cases a with
  | acqLoadWrite =>
    simp only [Spsc.step] at h
    split at h <;> cases h
    rename_i hpc
    exact hi.perm hcounted (fun _ => rfl) (by simp [inUse, owned, hpc])
  | acqLoadRead =>
    simp only [Spsc.step] at h
    split at h
    · rename_i w hpc
      split at h <;> cases h <;>
        exact hi.perm hcounted (fun _ => rfl) (by simp [inUse, owned, hpc])
    · cases h
  | acqCas =>
    simp only [Spsc.step] at h
    split at h
    · rename_i idx hpc
      split at h <;> cases h
      · exact hi.acquire hcounted hpc ‹_› rfl
      · exact hi.perm hcounted (fun _ => rfl) (by simp [inUse, owned, hpc])
    · cases h
  | fill x =>
    simp only [Spsc.step] at h
    split at h <;> cases h
    exact hi.perm hcounted (fun _ => by simp) (List.Perm.refl _)
  | commit =>
    simp only [Spsc.step] at h
    split at h <;> cases h
    rename_i idx hpc
    refine hi.perm hcounted (fun _ => rfl) ?_
    have hle : s.pool.delivered.length ≤ (s.pool.committed.map Prod.fst).length := by
      rw [List.length_map]
      exact hi.counted.le
    simp only [inUse, owned, hpc, List.map_append, List.nil_append, List.map_cons, List.map_nil,
      List.drop_append_of_le_length hle, List.append_assoc, List.singleton_append]
    exact List.perm_middle
  | abandon =>
    simp only [Spsc.step] at h
    split at h <;> cases h
    rename_i idx hpc
    exact hi.drop hcounted rfl (hc idx (by simp [owned, hpc])) (by simp [inUse, owned, hpc])
  | deqLoadWrite =>
    simp only [Spsc.step] at h
    split at h <;> cases h
    exact hi.perm hcounted (fun _ => rfl) (List.Perm.refl _)
  | deqLoadRead | deqLoadRef =>
    simp only [Spsc.step] at h
    split at h
    · split at h <;> cases h <;> exact hi.perm hcounted (fun _ => rfl) (List.Perm.refl _)
    · cases h
  | deqAdvance =>
    simp only [Spsc.step] at h
    split at h <;> cases h
    rename_i idx hpc
    refine hi.perm hcounted (fun _ => rfl) ?_
    simp only [inUse, hi.counted.queue_head hpc, List.length_append, List.length_singleton]
    refine List.Perm.append_left _ ?_
    rw [← List.append_assoc, List.cons_append]
    exact List.perm_append_singleton _ _
  | release idx =>
    simp only [Spsc.step] at h
    split at h
    · split at h <;> cases h
      rename_i hmem
      refine hi.drop hcounted rfl hc ?_
      simp only [inUse]
      refine ((List.perm_cons_erase hmem).append_left _ |>.append_left _).trans ?_
      exact (List.Perm.append_left _ List.perm_middle).trans List.perm_middle
    · cases h

theorem Shared.inv_ref (hi : s.Inv count) (i : Int) (n : Nat) {frames : Int → Frame β}
    (hf : frames = setRef s.pool.frames i ((s.pool.frames i).refcount - s.refs i + n)) :
    Shared.Inv count {
      pool := { s.pool with frames := frames }
      refs := Function.update s.refs i n } where
  counted := hi.counted.congr rfl rfl rfl rfl hi.counted.prod hi.counted.cons
  refcount j := by
    show (frames j).refcount = (Function.update s.refs i n j : Int) + (s.pool.inUse.count j : Int)
    rw [hf]
    by_cases hj : j = i
    · subst hj
      have hcount := hi.refcount j
      rw [setRef_refcount_self, Function.update_self]
      omega
    · rw [setRef_of_ne _ hj, Function.update_of_ne hj]
      exact hi.refcount j
  once := hi.once

theorem Shared.inv_step (hcount : count < 2 ^ 31) {a : SharedLabel (SpLabel β) Int}
    (hi : s.Inv count) (hc : s.Careful a) (h : s.step count a = some s') : s'.Inv count := by
  cases a with
  | pool a =>
    simp only [Shared.step, Option.map_eq_some_iff] at h
    obtain ⟨pool, hstep, rfl⟩ := h
    exact Shared.inv_pool hcount hi hc hstep
  | ref i =>
    simp only [Shared.step, Option.some.injEq] at h
    subst h
    refine Shared.inv_ref hi i (s.refs i + 1) ?_
    rw [addRef]
    congr 1
    push_cast
    omega
  | unref i =>
    simp only [Shared.step] at h
    split_ifs at h with h0
    cases h
    refine Shared.inv_ref hi i (s.refs i - 1) ?_
    rw [subRef]
    congr 1
    omega

/-- A release with a reference left makes the frame free although somebody has it. -/
theorem Shared.careful_of_sound {a : SharedLabel (SpLabel β) Int}
    (h : s.step count a = some s') (hs : s'.Sound) : s.Careful a := by
  cases a with
  | ref i => trivial
  | unref i => trivial
  | pool a =>
    simp only [Shared.step, Option.map_eq_some_iff] at h
    obtain ⟨pool, hstep, rfl⟩ := h
    have hfree : ∀ i, pool.frames = setRef s.pool.frames i 0 → s.refs i = 0 := by
      intro i hf
      refine (hs.exclusive i ?_).1
      show (pool.frames i).refcount = 0
      rw [hf, setRef_refcount_self]
    cases a with
    | abandon =>
      simp only [Spsc.step] at hstep
      split at hstep <;> cases hstep
      rename_i idx hpc
      simp only [Careful, hpc, owned, List.mem_singleton, forall_eq]
      exact hfree idx rfl
    | release i =>
      obtain ⟨-, -, rfl⟩ : s.pool.cons = .idle ∧ i ∈ s.pool.held ∧ pool =
          { s.pool with frames := setRef s.pool.frames i 0, held := s.pool.held.erase i } := by
        simp only [Spsc.step] at hstep
        split at hstep
        · split at hstep <;> cases hstep
          exact ⟨‹_›, ‹_›, rfl⟩
        · cases hstep
      exact hfree i rfl
    | _ => trivial

/-- The law of one step: what it leaves is sound. -/
def Shared.Law (count : Nat) (s : Shared β) (a : SharedLabel (SpLabel β) Int) : Prop :=
  ∀ s', s.step count a = some s' → s'.Sound

theorem Shared.law_iff_careful (hcount : count < 2 ^ 31) {a : SharedLabel (SpLabel β) Int}
    (hi : s.Inv count) (h : s.step count a = some s') : s.Law count a ↔ s.Careful a :=
  ⟨fun hl => Shared.careful_of_sound h (hl s' h),
    fun hc _ h' => (Shared.inv_step hcount hi hc h').sound⟩

end Inv

end Spsc

/-! ## The mutex-protected pool -/

section Frames

variable {ι β : Type*}

/-- The frames with the references of the additional holders taken off. -/
def less (fs : ι → Frame β) (refs : ι → Nat) : ι → Frame β :=
  fun i => { fs i with refcount := (fs i).refcount - refs i }

@[simp] theorem less_refcount (fs : ι → Frame β) (refs : ι → Nat) (i : ι) :
    (less fs refs i).refcount = (fs i).refcount - refs i := rfl

@[simp] theorem less_body (fs : ι → Frame β) (refs : ι → Nat) (i : ι) :
    (less fs refs i).body = (fs i).body := rfl

variable [DecidableEq ι] (fs : ι → Frame β) {refs : ι → Nat} {i : ι}

theorem less_setRef {n : Int} (h : refs i = 0) :
    less (setRef fs i n) refs = setRef (less fs refs) i n := by
  funext j
  by_cases hj : j = i
  · subst hj
    simp [less, setRef, h]
  · simp [less, setRef_of_ne _ hj]

theorem less_addRef : less (addRef fs i) refs = addRef (less fs refs) i := by
  funext j
  by_cases hj : j = i
  · subst hj
    simp only [less, addRef, setRef, Function.update_self]
    congr 1
    omega
  · simp [less, addRef, setRef_of_ne _ hj]

theorem less_setBody {x : β} : less (setBody fs i x) refs = setBody (less fs refs) i x := by
  funext j
  by_cases hj : j = i
  · subst hj
    simp [less, setBody]
  · simp [less, setBody_of_ne _ hj]

/-- A reference that is taken or dropped is taken off again. -/
theorem less_update {n : Nat} :
    less (setRef fs i ((fs i).refcount - refs i + n)) (Function.update refs i n) =
      less fs refs := by
  funext j
  by_cases hj : j = i
  · subst hj
    simp only [less, setRef, Function.update_self]
    congr 1
    omega
  · simp [less, setRef_of_ne _ hj, hj]

end Frames

namespace Mpsc

open Lib

variable {ι β : Type*} {N : Nat}

/-- `queued` is history: the frame was marked ready and has not been dequeued since. -/
structure Shared (ι β : Type*) (N : Nat) where
  pool : Mpsc ι β N
  refs : Fin N → Nat
  queued : Fin N → Bool

def Shared.init (body : Fin N → β) : Shared ι β N where
  pool := Mpsc.init body
  refs _ := 0
  queued _ := false

/-- `bb_pool_mp_enqueue` marks a frame, the scan of `bb_pool_mp_dequeue` takes one. -/
def note (before after : Mpsc ι β N) (queued : Fin N → Bool) : MpLabel ι β → Fin N → Bool
  | .mark p =>
    match before.prod p with
    | .owns i => Function.update queued i true
    | _ => queued
  | .deqLoadRef =>
    match after.cons with
    | .found i => Function.update queued i false
    | _ => queued
  | _ => queued

def Shared.step [DecidableEq ι] (s : Shared ι β N) :
    SharedLabel (MpLabel ι β) (Fin N) → Option (Shared ι β N)
  | .pool a =>
    (Mpsc.step s.pool a).map fun pool =>
      { s with pool := pool, queued := note s.pool pool s.queued a }
  | .ref i =>
    some { s with
      pool := { s.pool with frames := addRef s.pool.frames i }
      refs := Function.update s.refs i (s.refs i + 1) }
  | .unref i =>
    if s.refs i = 0 then none
    else
      some { s with
        pool := { s.pool with frames := subRef s.pool.frames i }
        refs := Function.update s.refs i (s.refs i - 1) }

structure Shared.Sound (s : Shared ι β N) : Prop where
  /-- What an acquire can hand out nobody has. -/
  exclusive : ∀ i, (s.pool.frames i).refcount = 0 →
    s.refs i = 0 ∧ (∀ p, s.pool.prod p ≠ .owns i) ∧ s.queued i = false ∧ s.pool.cons.taken ≠ some i
  /-- What a dequeue can deliver was enqueued. -/
  ordered : ∀ i, s.pool.Ready i → s.queued i = true
  /-- What nobody has can be acquired. -/
  returned : ∀ i, s.refs i = 0 → (∀ p, s.pool.prod p ≠ .owns i) → s.queued i = false →
    s.pool.cons.taken ≠ some i → (s.pool.frames i).refcount = 0

/-- A frame is released when no additional holder has a reference, and none is taken at a count of
1, where it would look like the one `bb_pool_mp_enqueue` adds. -/
def Shared.Careful (s : Shared ι β N) : SharedLabel (MpLabel ι β) (Fin N) → Prop
  | .pool .release => ∀ i, s.pool.cons = .holds i → s.refs i = 0
  | .ref i => (s.pool.frames i).refcount ≠ 1
  | _ => True

/-- The pool without the additional holders. -/
def Shared.bare (s : Shared ι β N) : Mpsc ι β N :=
  { s.pool with frames := less s.pool.frames s.refs }

theorem Shared.refcount_eq (s : Shared ι β N) (i : Fin N) :
    (s.pool.frames i).refcount = (s.bare.frames i).refcount + s.refs i := by
  show _ = (s.pool.frames i).refcount - s.refs i + s.refs i
  omega

theorem Shared.bare_setRef {s : Shared ι β N} {i : Fin N} {n : Int} (hrefs : s.refs i = 0) :
    less (setRef s.pool.frames i n) s.refs = setRef s.bare.frames i n := less_setRef _ hrefs

/-- Without its additional holders the pool keeps its invariant; a frame that a producer fills has
none, and one nobody has at most one. -/
structure Shared.Inv [Fintype ι] (s : Shared ι β N) : Prop where
  bare : MInv s.bare
  owned : Owned s.bare
  queued : ∀ i, s.queued i = true ↔ s.bare.Ready i
  filled : ∀ i, (s.bare.frames i).refcount = 1 → s.refs i = 0
  spare : ∀ i, (s.bare.frames i).refcount = 0 → s.refs i ≤ 1

/-- The operations that touch no frame and leave the consumer's frame. -/
def Quiet : MpLabel ι β → Prop
  | .acquire _ | .lock _ | .post _ | .signal _ | .unlock _ | .deqLock | .deqLoadPending | .deqWake
  | .deqSub | .deqUnlock => True
  | _ => False

theorem step_quiet [DecidableEq ι] {s s' : Mpsc ι β N} {a : MpLabel ι β} (hq : Quiet a)
    (h : Mpsc.step s a = some s') (fs : Fin N → Frame β) :
    s'.frames = s.frames ∧ s'.cons.taken = s.cons.taken ∧
      Mpsc.step { s with frames := fs } a = some { s' with frames := fs } := by
  cases a with
  | acquire p | post p | signal p | unlock p | lock p =>
    simp only [Mpsc.step] at h ⊢
    split at h <;> cases h
    simp [*, Mpsc.setProd]
  | deqLock | deqWake =>
    simp only [Mpsc.step] at h ⊢
    split at h <;> cases h
    rename_i hpc _
    simp [hpc, MpConsPc.taken]
  | deqLoadPending =>
    simp only [Mpsc.step] at h ⊢
    split at h
    · rename_i hpc
      split at h <;> cases h <;> simp [*, MpConsPc.taken]
    · cases h
  | deqSub | deqUnlock =>
    simp only [Mpsc.step] at h ⊢
    split at h <;> cases h <;> simp [*, MpConsPc.taken]
  | acqCas | fill | mark | deqLoadRef | release => exact hq.elim

section Inv

variable [Fintype ι] {s s' : Shared ι β N} {pool : Mpsc ι β N} {i : Fin N}

theorem Shared.inv_init (body : Fin N → β) : Shared.Inv (Shared.init body : Shared ι β N) := by
  have hbare : (Shared.init body : Shared ι β N).bare = Mpsc.init body := rfl
  refine ⟨hbare ▸ minv_init body, hbare ▸ owned_init body, ?_, fun _ _ => rfl, fun _ _ => ?_⟩
  · intro i
    simp [Shared.init, Shared.bare, Ready, Mpsc.init]
  · exact Nat.zero_le _

theorem Shared.Inv.sound (hi : s.Inv) : s.Sound where
  exclusive i h := by
    have hcount := s.refcount_eq i
    have hrange := hi.bare.ref.range i
    have hrefs : s.refs i = 0 := by omega
    obtain ⟨hown, hready, htaken⟩ := hi.bare.ref.free (i := i) (by omega)
    refine ⟨hrefs, hown, ?_, htaken⟩
    rw [← Bool.not_eq_true, hi.queued]
    exact hready
  ordered i h := by
    rw [hi.queued]
    have hcount := s.refcount_eq i
    have htwo := h.1
    rcases hi.bare.ref.range i with h0 | h1 | h2
    · have hspare := hi.spare i h0
      omega
    · have hfilled := hi.filled i h1
      omega
    · exact ⟨h2.ge, h.2⟩
  returned i hrefs hown hqueued htaken := by
    have hcount := s.refcount_eq i
    rcases hi.bare.ref.range i with h0 | h1 | h2
    · omega
    · obtain ⟨p, hp⟩ := hi.owned i h1
      exact absurd hp (hown p)
    · have hready := (hi.queued i).mpr ⟨h2.ge, htaken⟩
      rw [hqueued] at hready
      cases hready

/-- The references of additional holders make no frame look ready. -/
theorem Shared.Inv.ready_iff (hi : s.Inv) : s.pool.Ready i ↔ s.bare.Ready i := by
  refine ⟨fun h => (hi.queued i).mp (hi.sound.ordered i h), fun h => ⟨?_, h.2⟩⟩
  have hcount := s.refcount_eq i
  have htwo := h.1
  omega

/-- The counts of the bare pool, its queue and the references as before. -/
theorem Shared.Inv.congr (hi : s.Inv) (hbare : Mpsc.MInv s'.bare) (howned : Owned s'.bare)
    (hf : ∀ i, (s'.bare.frames i).refcount = (s.bare.frames i).refcount)
    (ht : s'.pool.cons.taken = s.pool.cons.taken) (hrefs : s'.refs = s.refs)
    (hq : s'.queued = s.queued) : s'.Inv where
  bare := hbare
  owned := howned
  queued i := by
    rw [hq, hi.queued, Ready, Ready, hf]
    show _ ∧ s.pool.cons.taken ≠ some i ↔ _ ∧ s'.pool.cons.taken ≠ some i
    rw [ht]
  filled i := by
    rw [hf, hrefs]
    exact hi.filled i
  spare i := by
    rw [hf, hrefs]
    exact hi.spare i

/-- A scan does not run past the last slot. -/
theorem Shared.Inv.scan_lt (hi : s.Inv) {k : Nat} (hpc : s.pool.cons = .scan k) : k < N := by
  have hcons := hi.bare.cons
  have hpc' : s.bare.cons = .scan k := hpc
  rw [ConsOk, hpc'] at hcons
  obtain ⟨-, j, hkj, -⟩ := hcons
  exact hkj.trans_lt j.isLt

/-- The additional holders of a frame have `n` references now. -/
theorem Shared.Inv.recount (hi : s.Inv) {n : Nat} {frames : Fin N → Frame β}
    (hf : frames = setRef s.pool.frames i ((s.pool.frames i).refcount - s.refs i + n))
    (hfilled : (s.bare.frames i).refcount = 1 → n = 0)
    (hspare : (s.bare.frames i).refcount = 0 → n ≤ 1) :
    Shared.Inv { s with
      pool := { s.pool with frames := frames }
      refs := Function.update s.refs i n } := by
  have hsame : Shared.bare { s with
      pool := { s.pool with frames := frames }
      refs := Function.update s.refs i n } = s.bare := by
    simp only [Shared.bare, hf, less_update]
  refine ⟨hsame ▸ hi.bare, hsame ▸ hi.owned, hsame ▸ hi.queued, ?_, ?_⟩
  · intro j
    rw [hsame]
    by_cases hj : j = i
    · subst hj
      simpa using hfilled
    · simpa [hj] using hi.filled j
  · intro j
    rw [hsame]
    by_cases hj : j = i
    · subst hj
      simpa using hspare
    · simpa [hj] using hi.spare j

section Steps

variable [DecidableEq ι] {p : ι}

/-- A step that changes the count of one frame is a step of the pool without additional holders, and
needs a look at that frame only. -/
theorem Shared.Inv.frame (hi : s.Inv) {a : MpLabel ι β} {bare : Mpsc ι β N}
    (hstep : Mpsc.step s.bare a = some bare) (hsame : s'.bare = bare) (hrefs : s'.refs = s.refs)
    (hqueued : ∀ j, s'.queued j = true ↔ bare.Ready j)
    (hother : ∀ j, j ≠ i → (bare.frames j).refcount = (s.bare.frames j).refcount)
    (hfilled : (bare.frames i).refcount = 1 → s.refs i = 0)
    (hspare : (bare.frames i).refcount = 0 → s.refs i ≤ 1) : s'.Inv := by
  subst hsame
  refine ⟨step_minv hi.bare hstep, step_owned hi.bare.ref hi.owned hstep, hqueued, ?_, ?_⟩
  · intro j
    rw [hrefs]
    by_cases hj : j = i
    · rwa [hj]
    · rw [hother j hj]
      exact hi.filled j
  · intro j
    rw [hrefs]
    by_cases hj : j = i
    · rwa [hj]
    · rw [hother j hj]
      exact hi.spare j

/-- A producer that neither marks its frame nor takes one. -/
theorem Shared.Inv.quiet (hi : s.Inv) {a : MpLabel ι β} (h : Mpsc.step s.pool a = some pool)
    (hq : Quiet a) : Shared.Inv { s with pool := pool } := by
  obtain ⟨hframes, htaken, hbare⟩ := step_quiet hq h (less s.pool.frames s.refs)
  have hstate : Shared.bare { s with pool := pool } =
      { pool with frames := less s.pool.frames s.refs } := by
    rw [Shared.bare, hframes]
  rw [← hstate] at hbare
  exact hi.congr (step_minv hi.bare hbare) (step_owned hi.bare.ref hi.owned hbare)
    (fun i => by simp [Shared.bare, hframes]) htaken rfl rfl

/-- The producer goes on with its scan, or gives up: the frame at hand may be one an additional
holder keeps from it. -/
theorem Shared.Inv.scan (hi : s.Inv) {k : Nat} (hp : s.pool.prod p = .scan k) {pc : MpProdPc N}
    (hpc : pc = .scan (k + 1) ∨ pc = .idle) :
    Shared.Inv { s with pool := s.pool.setProd p pc } := by
  have hflight : ¬ s.bare.InFlight p := by simp [InFlight, Shared.bare, hp]
  have hno : ∀ i, pc ≠ .owns i := by rcases hpc with rfl | rfl <;> simp
  have hsame : Shared.bare { s with pool := s.pool.setProd p pc } = s.bare.setProd p pc := rfl
  refine hi.congr ?_ ?_ (fun _ => rfl) rfl rfl rfl
  · rw [hsame]
    exact minv_setProd hi.bare hno (by rcases hpc with rfl | rfl <;> simpa using hflight)
  · rw [hsame]
    exact hi.owned.setProd (by simp [Shared.bare, hp])

theorem Shared.Inv.acquire (hi : s.Inv) (hp : s.pool.prod p = .scan i)
    (h0 : (s.pool.frames i).refcount = 0) :
    Shared.Inv { s with
      pool := { s.pool.setProd p (.owns i) with frames := setRef s.pool.frames i 1 } } := by
  have hrefs := (hi.sound.exclusive i h0).1
  have hcount := s.refcount_eq i
  have hbare0 : (s.bare.frames i).refcount = 0 := by omega
  have hstep : Mpsc.step s.bare (.acqCas p) = some
      { s.bare.setProd p (.owns i) with frames := setRef s.bare.frames i 1 } := by
    have hp' : s.bare.prod p = .scan i := hp
    simp [Mpsc.step, hp', hbare0]
  have hsame : Shared.bare { s with
      pool := { s.pool.setProd p (.owns i) with frames := setRef s.pool.frames i 1 } } =
      { s.bare.setProd p (.owns i) with frames := setRef s.bare.frames i 1 } := by
    rw [Shared.bare, Shared.bare_setRef hrefs]
    rfl
  refine hi.frame hstep hsame rfl ?_ (fun j hj => ?_) (fun _ => hrefs)
    (fun _ => hrefs.le.trans (Nat.zero_le 1))
  · intro j
    rw [acquired_ready hbare0]
    exact hi.queued j
  · simp only [setRef_of_ne _ hj]

theorem Shared.Inv.fill (hi : s.Inv) (hp : s.pool.prod p = .owns i) (x : β) :
    Shared.Inv { s with pool := { s.pool with frames := setBody s.pool.frames i x } } := by
  have hsame : Shared.bare { s with
      pool := { s.pool with frames := setBody s.pool.frames i x } } =
      { s.bare with frames := setBody s.bare.frames i x } := by
    rw [Shared.bare, less_setBody]
    rfl
  have hstep : Mpsc.step s.bare (.fill p x) =
      some { s.bare with frames := setBody s.bare.frames i x } := by
    have hp' : s.bare.prod p = .owns i := hp
    simp [Mpsc.step, hp']
  refine hi.congr (hsame ▸ step_minv hi.bare hstep)
    (hsame ▸ step_owned hi.bare.ref hi.owned hstep) ?_ rfl rfl rfl
  intro j
  rw [hsame]
  simp

theorem Shared.Inv.mark (hi : s.Inv) (hp : s.pool.prod p = .owns i) :
    Shared.Inv { s with
      pool := s.pool.marked p i
      queued := Function.update s.queued i true } := by
  have hp' : s.bare.prod p = .owns i := hp
  have hsame : Shared.bare { s with
      pool := s.pool.marked p i
      queued := Function.update s.queued i true } = s.bare.marked p i := by
    have hframes : less (addRef s.pool.frames i) s.refs = addRef s.bare.frames i := less_addRef _
    simp only [Shared.bare, marked, hframes]
    rfl
  have hstep : Mpsc.step s.bare (.mark p) = some (s.bare.marked p i) := by
    simp [Mpsc.step, hp', marked]
  have hrefs := hi.filled i (hi.bare.ref.owns p i hp')
  refine hi.frame hstep hsame rfl ?_ (fun j hj => ?_) (fun _ => hrefs)
    (fun _ => hrefs.le.trans (Nat.zero_le 1))
  · intro j
    by_cases hj : j = i
    · subst hj
      simp [marked_ready_self hi.bare.ref hp']
    · rw [marked_ready_of_ne hj]
      simpa [hj] using hi.queued j
  · simp only [marked, addRef, setRef_of_ne _ hj]

theorem Shared.Inv.found (hi : s.Inv) (hpc : s.pool.cons = .scan i)
    (htwo : 2 ≤ (s.pool.frames i).refcount) :
    Shared.Inv { s with
      pool := s.pool.takenOut i
      queued := Function.update s.queued i false } := by
  have hnone : s.bare.cons.taken = none := by
    show s.pool.cons.taken = none
    rw [hpc, taken_scan]
  have hready : s.bare.Ready i := hi.ready_iff.mp ⟨htwo, by rw [hpc]; simp⟩
  have hstep : Mpsc.step s.bare .deqLoadRef = some (s.bare.takenOut i) := by
    have hpc' : s.bare.cons = .scan i := hpc
    simp [Mpsc.step, hpc', hready.1, takenOut]
  refine ⟨step_minv hi.bare hstep, step_owned hi.bare.ref hi.owned hstep, ?_, hi.filled, hi.spare⟩
  intro j
  have htaken : Shared.bare { s with
      pool := s.pool.takenOut i
      queued := Function.update s.queued i false } = s.bare.takenOut i := rfl
  rw [htaken, takenOut_ready hnone]
  by_cases hj : j = i
  · subst hj
    simp
  · simpa [hj] using hi.queued j

/-- The slot at hand is not ready: the scan of `bb_pool_mp_dequeue` goes on. -/
theorem Shared.Inv.next (hi : s.Inv) (hpc : s.pool.cons = .scan i)
    (hlow : ¬ 2 ≤ (s.pool.frames i).refcount) :
    Shared.Inv { s with pool := { s.pool with cons := .scan (i + 1) } } := by
  have hcount := s.refcount_eq i
  have hstep : Mpsc.step s.bare .deqLoadRef = some { s.bare with cons := .scan (i + 1) } := by
    have hpc' : s.bare.cons = .scan i := hpc
    have hlow' : ¬ 2 ≤ (s.bare.frames i).refcount := by omega
    simp [Mpsc.step, hpc', hlow']
  refine hi.congr (step_minv hi.bare hstep) (step_owned hi.bare.ref hi.owned hstep)
    (fun _ => rfl) ?_ rfl rfl
  rw [hpc, taken_scan, taken_scan]

theorem Shared.Inv.release (hi : s.Inv) (hpc : s.pool.cons = .holds i) (hrefs : s.refs i = 0) :
    Shared.Inv { s with
      pool := { s.pool with cons := .idle, frames := setRef s.pool.frames i 0 } } := by
  have hpc' : s.bare.cons = .holds i := hpc
  have hsame : Shared.bare { s with
      pool := { s.pool with cons := .idle, frames := setRef s.pool.frames i 0 } } =
      { s.bare with cons := .idle, frames := setRef s.bare.frames i 0 } := by
    rw [Shared.bare, Shared.bare_setRef hrefs]
    rfl
  have hstep : Mpsc.step s.bare .release =
      some { s.bare with cons := .idle, frames := setRef s.bare.frames i 0 } := by
    simp [Mpsc.step, hpc']
  refine hi.frame hstep hsame rfl ?_ (fun j hj => ?_) (fun _ => hrefs)
    (fun _ => hrefs.le.trans (Nat.zero_le 1))
  · intro j
    rw [released_ready hpc']
    exact hi.queued j
  · simp only [setRef_of_ne _ hj]

theorem Shared.inv_pool (hi : s.Inv) {a : MpLabel ι β} (hc : s.Careful (.pool a))
    (h : Mpsc.step s.pool a = some pool) :
    Shared.Inv { s with pool := pool, queued := note s.pool pool s.queued a } := by
  cases a with
  | acquire p | lock p | post p | signal p | unlock p => exact hi.quiet h trivial
  | deqLock | deqLoadPending | deqWake | deqSub | deqUnlock => exact hi.quiet h trivial
  | acqCas p =>
    simp only [Mpsc.step] at h
    split at h
    · rename_i k hpc
      split at h
      · split at h <;> cases h
        · exact hi.acquire hpc ‹_›
        · exact hi.scan hpc (.inl rfl)
      · cases h
        exact hi.scan hpc (.inr rfl)
    · cases h
  | fill p x =>
    simp only [Mpsc.step] at h
    split at h <;> cases h
    exact hi.fill ‹_› x
  | mark p =>
    simp only [Mpsc.step] at h
    split at h <;> cases h
    rename_i i hpc
    simp only [note, hpc]
    exact hi.mark hpc
  | deqLoadRef =>
    simp only [Mpsc.step] at h
    split at h
    · rename_i k hpc
      split at h
      · rename_i hk
        have hpc' : s.pool.cons = .scan (⟨k, hk⟩ : Fin N) := hpc
        split at h <;> cases h
        · exact hi.found hpc' ‹_›
        · exact hi.next hpc' ‹_›
      · exact absurd (hi.scan_lt hpc) ‹_›
    · cases h
  | release =>
    simp only [Mpsc.step] at h
    split at h <;> cases h
    rename_i i hpc
    exact hi.release hpc (hc i hpc)

theorem Shared.inv_step {a : SharedLabel (MpLabel ι β) (Fin N)} (hi : s.Inv) (hc : s.Careful a)
    (h : s.step a = some s') : s'.Inv := by
  cases a with
  | pool a =>
    simp only [Shared.step, Option.map_eq_some_iff] at h
    obtain ⟨pool, hstep, rfl⟩ := h
    exact Shared.inv_pool hi hc hstep
  | ref i =>
    simp only [Shared.step, Option.some.injEq] at h
    subst h
    have hcount := s.refcount_eq i
    have hone : (s.pool.frames i).refcount ≠ 1 := hc
    refine hi.recount (n := s.refs i + 1) ?_ (fun h1 => ?_) (fun h0 => ?_)
    · rw [addRef]
      congr 1
      push_cast
      omega
    · have hfilled := hi.filled i h1
      omega
    · have hspare := hi.spare i h0
      omega
  | unref i =>
    simp only [Shared.step] at h
    split_ifs at h with h0
    cases h
    refine hi.recount (n := s.refs i - 1) ?_ (fun h1 => ?_) (fun h0 => ?_)
    · rw [subRef]
      congr 1
      omega
    · have hfilled := hi.filled i h1
      omega
    · have hspare := hi.spare i h0
      omega

/-- A release with a reference left makes the frame free although somebody has it, a reference at a
count of 1 makes it ready although nobody enqueued it. -/
theorem Shared.careful_of_sound {a : SharedLabel (MpLabel ι β) (Fin N)} (hi : s.Inv)
    (h : s.step a = some s') (hs : s'.Sound) : s.Careful a := by
  cases a with
  | unref i => trivial
  | ref i =>
    intro hone
    simp only [Shared.step, Option.some.injEq] at h
    subst h
    have hcount := s.refcount_eq i
    have hlow : ¬ s.bare.Ready i := fun hready => by
      have htwo := hready.1
      omega
    refine hlow ((hi.queued i).mp (hs.ordered i ⟨?_, ?_⟩))
    · simp [addRef, hone]
    · intro htaken
      have htwo := hi.bare.ref.taken i htaken
      omega
  | pool a =>
    simp only [Shared.step, Option.map_eq_some_iff] at h
    obtain ⟨pool, hstep, rfl⟩ := h
    cases a with
    | release =>
      intro i hpc
      simp only [Mpsc.step, hpc, Option.some.injEq] at hstep
      subst hstep
      exact (hs.exclusive i (setRef_refcount_self _)).1
    | _ => trivial

/-- The law of one step: what it leaves is sound. -/
def Shared.Law (s : Shared ι β N) (a : SharedLabel (MpLabel ι β) (Fin N)) : Prop :=
  ∀ s', s.step a = some s' → s'.Sound

theorem Shared.law_iff_careful {a : SharedLabel (MpLabel ι β) (Fin N)} (hi : s.Inv)
    (h : s.step a = some s') : s.Law a ↔ s.Careful a :=
  ⟨fun hl => Shared.careful_of_sound hi h (hl s' h),
    fun hc _ h' => (Shared.inv_step hi hc h').sound⟩

end Steps

end Inv

end Mpsc

/-! ## Both pools -/

open Lib

/-- Through every run of either pool, with references taken and dropped in any order, each step
keeps the counts right exactly when each step is careful. -/
theorem shared_iff {ι β : Type*} [DecidableEq ι] [Fintype ι] {count N : Nat}
    (hcount : count < 2 ^ 31) :
    (∀ (body : Int → β) as s', run (Spsc.Shared.step count) (Spsc.Shared.init body) as = some s' →
      (Meets (Spsc.Shared.step count) (Spsc.Shared.Law count) (Spsc.Shared.init body) as ↔
        Meets (Spsc.Shared.step count) Spsc.Shared.Careful (Spsc.Shared.init body) as)) ∧
    (∀ (body : Fin N → β) as (s' : Mpsc.Shared ι β N),
      run Mpsc.Shared.step (Mpsc.Shared.init body) as = some s' →
      (Meets Mpsc.Shared.step Mpsc.Shared.Law (Mpsc.Shared.init body : Mpsc.Shared ι β N) as ↔
        Meets Mpsc.Shared.step Mpsc.Shared.Careful (Mpsc.Shared.init body) as)) := by
  constructor
  · intro body as s' hr
    exact meets_iff_of_invariant (P := Spsc.Shared.Law count) (Q := Spsc.Shared.Careful)
      (I := Spsc.Shared.Inv count) (fun _ _ _ hi h => Spsc.Shared.law_iff_careful hcount hi h)
      (fun _ _ _ hi hc h => Spsc.Shared.inv_step hcount hi hc h) (Spsc.Shared.inv_init body) hr
  · intro body as s' hr
    exact meets_iff_of_invariant (P := Mpsc.Shared.Law) (Q := Mpsc.Shared.Careful)
      (I := Mpsc.Shared.Inv) (fun _ _ _ hi h => Mpsc.Shared.law_iff_careful hi h)
      (fun _ _ _ hi hc h => Mpsc.Shared.inv_step hi hc h) (Mpsc.Shared.inv_init body) hr

/-- The one frame of a pool is put in, taken out and referenced. -/
def lent : List (SharedLabel (SpLabel Unit) Int) :=
  [.pool .acqLoadWrite, .pool .acqLoadRead, .pool .acqCas, .pool .commit, .pool .deqLoadWrite,
    .pool .deqLoadRead, .pool .deqLoadRef, .pool .deqAdvance, .ref 0]

theorem shared_lent :
    ∃ s, run (Spsc.Shared.step 1) (Spsc.Shared.init fun _ => ())
        (lent ++ [.unref 0, .pool (.release 0)]) = some s ∧
      Meets (Spsc.Shared.step 1) (Spsc.Shared.Law 1) (Spsc.Shared.init fun _ => ())
        (lent ++ [.unref 0, .pool (.release 0)]) := by
  obtain ⟨s, hs⟩ : ∃ s, run (Spsc.Shared.step 1) (Spsc.Shared.init fun _ => ())
      (lent ++ [.unref 0, .pool (.release 0)]) = some s := ⟨_, rfl⟩
  exact ⟨s, hs, ((shared_iff (ι := Unit) (N := 1) (β := Unit) (by decide)).1 _ _ s hs).mpr
    (by decide)⟩

/-- The consumer releases the frame before the holder drops its reference: the next acquire hands
the frame out. -/
theorem lent_handed_out :
    (∃ s, run (Spsc.Shared.step 1) (Spsc.Shared.init fun _ => ())
        (lent ++ [.pool (.release 0), .pool .acqLoadWrite, .pool .acqLoadRead, .pool .acqCas]) =
          some s ∧ s.pool.prod = .owns 0 ∧ s.refs 0 = 1) ∧
      ¬ Meets (Spsc.Shared.step 1) (Spsc.Shared.Law 1) (Spsc.Shared.init fun _ => ())
        (lent ++ [.pool (.release 0), .pool .acqLoadWrite, .pool .acqLoadRead, .pool .acqCas]) := by
  refine ⟨⟨_, rfl, rfl, rfl⟩, fun hm => ?_⟩
  have hsound := hm.of_run rfl _ rfl
  have hfree := (hsound.exclusive 0 rfl).1
  exact absurd hfree (by decide)

end Pool
end BuildingBlocks
