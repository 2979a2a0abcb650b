import BuildingBlocks.Pool.Ownership

/-!
# BuildingBlocks.Pool.Calls

The functions of `bb_pool.h` as a thread runs them: `acquireOp`, `dequeueOp` and `enqueueOp` give
the operation a thread inside the function performs next, `acquireCall`, `dequeueCall` and
`enqueueCall` whether it has returned after that operation, and with what. `acquire_cases`,
`dequeue_cases` and `enqueue_cases` say what such an operation does, `acquire_enabled`,
`dequeue_enabled` and `enqueue_enabled` when there is one.
-/

namespace BuildingBlocks
namespace Pool

/-- How far a call has come. -/
inductive Call (γ : Type*) where
  | inside
  | returned (result : γ)
  deriving DecidableEq

namespace Spsc

variable {β : Type*}

/-- In `bb_pool_sp_acquire`. -/
def acquireOp : ProdPc → SpLabel β
  | .idle => .acqLoadWrite
  | .acqWrite _ => .acqLoadRead
  | .acqSlot _ | .owns _ => .acqCas

def acquireCall : ProdPc → Call (Option Int)
  | .idle => .returned none
  | .owns idx => .returned (some idx)
  | _ => .inside

/-- In `bb_pool_sp_dequeue`. -/
def dequeueOp : ConsPc → SpLabel β
  | .idle => .deqLoadWrite
  | .deqWrite _ _ => .deqLoadRead
  | .deqSlot _ _ => .deqLoadRef
  | .deqTake _ => .deqAdvance

def dequeueCall (before after : ConsPc) : Call (Option Int) :=
  match before, after with
  | .deqTake idx, _ => .returned (some idx)
  | _, .idle => .returned none
  | _, _ => .inside

variable {count : Nat} {s s' : Spsc β}

theorem acquire_cases (h : step count s (acquireOp s.prod) = some s') :
    (s.prod = .idle ∧ s' = { s with prod := .acqWrite s.writeIdx }) ∨
    (∃ w, s.prod = .acqWrite w ∧ s' = { s with prod := .idle }) ∨
    (∃ w, s.prod = .acqWrite w ∧ s' = { s with prod := .acqSlot (slot count w) }) ∨
    (∃ idx, s.prod = .acqSlot idx ∧ (s.frames idx).refcount = 0 ∧
      s' = { s with frames := setRef s.frames idx 1, prod := .owns idx }) ∨
    ∃ idx, s.prod = .acqSlot idx ∧ s' = { s with prod := .idle } := by
  cases hpc : s.prod with
  | idle =>
    simp only [acquireOp, hpc, step, Option.some.injEq] at h
    exact .inl ⟨rfl, h.symm⟩
  | acqWrite w =>
    simp only [acquireOp, hpc, step] at h
    split at h <;> cases h
    · exact .inr (.inl ⟨w, rfl, rfl⟩)
    · exact .inr (.inr (.inl ⟨w, rfl, rfl⟩))
  | acqSlot idx =>
    simp only [acquireOp, hpc, step] at h
    split at h <;> cases h
    · exact .inr (.inr (.inr (.inl ⟨idx, rfl, ‹_›, rfl⟩)))
    · exact .inr (.inr (.inr (.inr ⟨idx, rfl, rfl⟩)))
  | owns idx =>
    simp only [acquireOp, hpc, step, reduceCtorEq] at h

theorem dequeue_cases (h : step count s (dequeueOp s.cons) = some s') :
    (s.cons = .idle ∧ s' =
      { s with cons := .deqWrite s.writeIdx (s.committed.length - s.delivered.length) }) ∨
    (∃ w n, s.cons = .deqWrite w n ∧ w ≤ s.readIdx ∧
      s' = { s with cons := .idle, nulls := s.nulls ++ [n] }) ∨
    (∃ w n, s.cons = .deqWrite w n ∧ s.readIdx < w ∧
      s' = { s with cons := .deqSlot (slot count s.readIdx) n }) ∨
    (∃ idx n, s.cons = .deqSlot idx n ∧ (s.frames idx).refcount < 1 ∧
      s' = { s with cons := .idle, nulls := s.nulls ++ [n] }) ∨
    (∃ idx n, s.cons = .deqSlot idx n ∧ s' = { s with cons := .deqTake idx }) ∨
    ∃ idx, s.cons = .deqTake idx ∧ s' =
      { s with
        readIdx := int32 (s.readIdx + 1)
        cons := .idle
        held := s.held ++ [idx]
        delivered := s.delivered ++ [(idx, (s.frames idx).body)] } := by
  cases hpc : s.cons with
  | idle =>
    simp only [dequeueOp, hpc, step, Option.some.injEq] at h
    exact .inl ⟨rfl, h.symm⟩
  | deqWrite w n =>
    simp only [dequeueOp, hpc, step] at h
    split at h <;> cases h <;> rename_i hempty
    · exact .inr (.inl ⟨w, n, rfl, hempty, rfl⟩)
    · exact .inr (.inr (.inl ⟨w, n, rfl, not_le.mp hempty, rfl⟩))
  | deqSlot idx n =>
    simp only [dequeueOp, hpc, step] at h
    split at h <;> cases h
    · exact .inr (.inr (.inr (.inl ⟨idx, n, rfl, ‹_›, rfl⟩)))
    · exact .inr (.inr (.inr (.inr (.inl ⟨idx, n, rfl, rfl⟩))))
  | deqTake idx =>
    simp only [dequeueOp, hpc, step, Option.some.injEq] at h
    exact .inr (.inr (.inr (.inr (.inr ⟨idx, rfl, h.symm⟩))))

theorem acquire_enabled (n : Nat) (h : ∀ idx, s.prod ≠ .owns idx) :
    ∃ s', step n s (acquireOp s.prod) = some s' := by
  cases hpc : s.prod with
  | idle =>
    simp only [acquireOp, step, hpc]
    exact ⟨_, rfl⟩
  | acqWrite w =>
    simp only [acquireOp, step, hpc]
    split <;> exact ⟨_, rfl⟩
  | acqSlot idx =>
    simp only [acquireOp, step, hpc]
    split <;> exact ⟨_, rfl⟩
  | owns idx => exact absurd hpc (h idx)

theorem dequeue_enabled (n : Nat) (s : Spsc β) : ∃ s', step n s (dequeueOp s.cons) = some s' := by
  cases hpc : s.cons with
  | idle | deqTake =>
    simp only [dequeueOp, step, hpc]
    exact ⟨_, rfl⟩
  | deqWrite | deqSlot =>
    simp only [dequeueOp, step, hpc]
    split <;> exact ⟨_, rfl⟩

theorem fill_eq_some {x : β} (h : step count s (.fill x) = some s') :
    ∃ idx, s.prod = .owns idx ∧ s' = { s with frames := setBody s.frames idx x } := by
  simp only [step] at h
  split at h
  · cases h
    exact ⟨_, ‹_›, rfl⟩
  · cases h

theorem commit_eq_some (h : step count s .commit = some s') :
    ∃ idx, s.prod = .owns idx ∧ s' =
      { s with
        writeIdx := int32 (s.writeIdx + 1)
        prod := .idle
        committed := s.committed ++ [(idx, (s.frames idx).body)] } := by
  simp only [step] at h
  split at h
  · cases h
    exact ⟨_, ‹_›, rfl⟩
  · cases h

theorem abandon_eq_some (h : step count s .abandon = some s') :
    ∃ idx, s.prod = .owns idx ∧
      s' = { s with frames := setRef s.frames idx 0, prod := .idle } := by
  simp only [step] at h
  split at h
  · cases h
    exact ⟨_, ‹_›, rfl⟩
  · cases h

theorem release_eq_some {idx : Int} (h : step count s (.release idx) = some s') :
    s.cons = .idle ∧ idx ∈ s.held ∧
      s' = { s with frames := setRef s.frames idx 0, held := s.held.erase idx } := by
  simp only [step] at h
  split at h
  · split at h <;> cases h
    exact ⟨‹_›, ‹_›, rfl⟩
  · cases h

end Spsc

namespace Mpsc

variable {ι β : Type*} {N : Nat}

/-- In `bb_pool_mp_acquire`. -/
def acquireOp (p : ι) : MpProdPc N → MpLabel ι β
  | .idle => .acquire p
  | _ => .acqCas p

def acquireCall : MpProdPc N → Call (Option (Fin N))
  | .idle => .returned none
  | .owns i => .returned (some i)
  | _ => .inside

/-- In `bb_pool_mp_enqueue`. -/
def enqueueOp (p : ι) : MpProdPc N → MpLabel ι β
  | .owns _ => .mark p
  | .marked => .lock p
  | .locked => .post p
  | .posted => .signal p
  | _ => .unlock p

def enqueueCall : MpProdPc N → Call Unit
  | .idle => .returned ()
  | _ => .inside

/-- In `bb_pool_mp_dequeue`. -/
def dequeueOp : MpConsPc N → MpLabel ι β
  | .idle => .deqLock
  | .check => .deqLoadPending
  | .waiting => .deqWake
  | .scan _ => .deqLoadRef
  | .found _ | .missed => .deqSub
  | _ => .deqUnlock

def dequeueCall : MpConsPc N → Call (Option (Fin N))
  | .idle => .returned none
  | .holds i => .returned (some i)
  | _ => .inside

section Cases

variable {s s' : Mpsc ι β N} [DecidableEq ι] {p : ι}

theorem acquire_cases (h : step s (acquireOp p (s.prod p)) = some s') :
    (s.prod p = .idle ∧ s' = s.setProd p (.scan 0)) ∨
    (∃ i, s.prod p = .scan i ∧ N ≤ i ∧ s' = s.setProd p .idle) ∨
    (∃ i : Fin N, s.prod p = .scan i ∧ (s.frames i).refcount ≠ 0 ∧
      s' = s.setProd p (.scan (i + 1))) ∨
    ∃ i : Fin N, s.prod p = .scan i ∧ (s.frames i).refcount = 0 ∧
      s' = { s.setProd p (.owns i) with frames := setRef s.frames i 1 } := by
  cases hpc : s.prod p with
  | idle =>
    simp only [acquireOp, hpc, step, Option.some.injEq] at h
    exact .inl ⟨rfl, h.symm⟩
  | scan i =>
    simp only [acquireOp, hpc, step] at h
    split at h
    · rename_i hi
      split at h <;> cases h
      · exact .inr (.inr (.inr ⟨⟨i, hi⟩, rfl, ‹_›, rfl⟩))
      · exact .inr (.inr (.inl ⟨⟨i, hi⟩, rfl, ‹_›, rfl⟩))
    · cases h
      exact .inr (.inl ⟨i, rfl, not_lt.mp ‹_›, rfl⟩)
  | owns i | marked | locked | posted | signalled =>
    simp only [acquireOp, hpc, step, reduceCtorEq] at h

theorem acquire_enabled (h : s.prod p = .idle ∨ ∃ i, s.prod p = .scan i) :
    ∃ s', step s (acquireOp p (s.prod p)) = some s' := by
  rcases h with hpc | ⟨i, hpc⟩
  · simp only [acquireOp, step, hpc]
    exact ⟨_, rfl⟩
  · simp only [acquireOp, step, hpc]
    split
    · split <;> exact ⟨_, rfl⟩
    · exact ⟨_, rfl⟩

theorem enqueue_enabled (h : s.prod p ≠ .idle ∧ ∀ i, s.prod p ≠ .scan i)
    (hfree : s.prod p = .marked → s.mutex = none) :
    ∃ s', step s (enqueueOp p (s.prod p)) = some s' := by
  cases hpc : s.prod p with
  | idle => exact absurd hpc h.1
  | scan i => exact absurd hpc (h.2 i)
  | marked =>
    simp only [enqueueOp, step, hpc, hfree hpc]
    exact ⟨_, rfl⟩
  | owns | locked | posted | signalled =>
    simp only [enqueueOp, step, hpc]
    exact ⟨_, rfl⟩

theorem dequeue_enabled (h : ∀ i, s.cons ≠ .holds i)
    (hfree : s.cons.locked = false → s.mutex = none) :
    ∃ s', step s (dequeueOp s.cons) = some s' := by
  cases hpc : s.cons with
  | idle | waiting =>
    have hm := hfree (by rw [hpc]; rfl)
    simp only [dequeueOp, step, hpc, hm]
    exact ⟨_, rfl⟩
  | check =>
    simp only [dequeueOp, step, hpc]
    split <;> exact ⟨_, rfl⟩
  | scan i =>
    simp only [dequeueOp, step, hpc]
    split
    · split <;> exact ⟨_, rfl⟩
    · exact ⟨_, rfl⟩
  | found | missed | leave | missedLeave =>
    simp only [dequeueOp, step, hpc]
    exact ⟨_, rfl⟩
  | holds i => exact absurd hpc (h i)

theorem fill_eq_some {x : β} (h : step s (.fill p x) = some s') :
    ∃ i, s.prod p = .owns i ∧ s' = { s with frames := setBody s.frames i x } := by
  simp only [step] at h
  split at h
  · cases h
    exact ⟨_, ‹_›, rfl⟩
  · cases h

theorem enqueue_cases (h : step s (enqueueOp p (s.prod p)) = some s') :
    (∃ i, s.prod p = .owns i ∧ s' = s.marked p i) ∨
    (s.prod p = .marked ∧ s.mutex = none ∧
      s' = { s.setProd p .locked with mutex := some (.prod p) }) ∨
    (s.prod p = .locked ∧ s' = { s.setProd p .posted with pending := s.pending + 1 }) ∨
    (s.prod p = .posted ∧ s' = s.setProd p .signalled) ∨
    (s.prod p = .signalled ∧ s' = { s.setProd p .idle with mutex := none }) := by
  cases hpc : s.prod p with
  | owns i =>
    simp only [enqueueOp, hpc, step, Option.some.injEq] at h
    exact .inl ⟨i, rfl, h.symm⟩
  | marked =>
    simp only [enqueueOp, hpc, step] at h
    split at h <;> cases h
    exact .inr (.inl ⟨rfl, ‹_›, rfl⟩)
  | locked =>
    simp only [enqueueOp, hpc, step, Option.some.injEq] at h
    exact .inr (.inr (.inl ⟨rfl, h.symm⟩))
  | posted =>
    simp only [enqueueOp, hpc, step, Option.some.injEq] at h
    exact .inr (.inr (.inr (.inl ⟨rfl, h.symm⟩)))
  | signalled =>
    simp only [enqueueOp, hpc, step, Option.some.injEq] at h
    exact .inr (.inr (.inr (.inr ⟨rfl, h.symm⟩)))
  | idle | scan i =>
    simp only [enqueueOp, hpc, step, reduceCtorEq] at h

/-- While the invariant holds no call of `bb_pool_mp_dequeue` misses. -/
theorem dequeue_cases [Fintype ι] (hi : MInv s) (h : step s (dequeueOp s.cons) = some s') :
    (s.cons = .idle ∧ s.mutex = none ∧ s' = { s with cons := .check, mutex := some .cons }) ∨
    (s.cons = .check ∧ s.pending = 0 ∧ s' = { s with cons := .waiting, mutex := none }) ∨
    (s.cons = .check ∧ s.pending ≠ 0 ∧ s' = { s with cons := .scan 0 }) ∨
    (s.cons = .waiting ∧ s.mutex = none ∧ s' = { s with cons := .check, mutex := some .cons }) ∨
    (∃ i : Fin N, s.cons = .scan i ∧ 2 ≤ (s.frames i).refcount ∧ s' = s.takenOut i) ∨
    (∃ i : Fin N, s.cons = .scan i ∧ ¬ 2 ≤ (s.frames i).refcount ∧
      s' = { s with cons := .scan (i + 1) }) ∨
    (∃ i, s.cons = .found i ∧ s' = { s with cons := .leave i, pending := s.pending - 1 }) ∨
    ∃ i, s.cons = .leave i ∧ s' = { s with cons := .holds i, mutex := none } := by
  have hc := hi.cons
  cases hpc : s.cons with
  | idle =>
    simp only [dequeueOp, hpc, step] at h
    split at h <;> cases h
    exact .inl ⟨rfl, ‹_›, rfl⟩
  | check =>
    simp only [dequeueOp, hpc, step] at h
    split at h <;> cases h
    · exact .inr (.inl ⟨rfl, ‹_›, rfl⟩)
    · exact .inr (.inr (.inl ⟨rfl, ‹_›, rfl⟩))
  | waiting =>
    simp only [dequeueOp, hpc, step] at h
    split at h <;> cases h
    exact .inr (.inr (.inr (.inl ⟨rfl, ‹_›, rfl⟩)))
  | scan i =>
    rw [ConsOk, hpc] at hc
    obtain ⟨-, j, hij, -⟩ := hc
    simp only [dequeueOp, hpc, step, dif_pos (hij.trans_lt j.isLt)] at h
    split at h <;> cases h
    · exact .inr (.inr (.inr (.inr (.inl ⟨⟨i, hij.trans_lt j.isLt⟩, rfl, ‹_›, rfl⟩))))
    · exact .inr (.inr (.inr (.inr (.inr (.inl ⟨⟨i, hij.trans_lt j.isLt⟩, rfl, ‹_›, rfl⟩)))))
  | found i =>
    simp only [dequeueOp, hpc, step, Option.some.injEq] at h
    exact .inr (.inr (.inr (.inr (.inr (.inr (.inl ⟨i, rfl, h.symm⟩))))))
  | leave i =>
    simp only [dequeueOp, hpc, step, Option.some.injEq] at h
    exact .inr (.inr (.inr (.inr (.inr (.inr (.inr ⟨i, rfl, h.symm⟩))))))
  | missed | missedLeave =>
    rw [ConsOk, hpc] at hc
    exact hc.elim
  | holds i =>
    simp only [dequeueOp, hpc, step, reduceCtorEq] at h

theorem release_eq_some (h : step s .release = some s') :
    ∃ i, s.cons = .holds i ∧ s' = { s with cons := .idle, frames := setRef s.frames i 0 } := by
  simp only [step] at h
  split at h
  · cases h
    exact ⟨_, ‹_›, rfl⟩
  · cases h

end Cases

end Mpsc

end Pool
end BuildingBlocks
