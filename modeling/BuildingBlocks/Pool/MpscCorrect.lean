import BuildingBlocks.Pool.MpscStep

/-!
# BuildingBlocks.Pool.MpscCorrect

What the mutex-protected pool guarantees in every state of every run, for any number of producers:
frames have one owner, every enqueued frame is ready or delivered and never both or twice, and
`bb_pool_mp_dequeue` never returns `NULL`.
-/

namespace BuildingBlocks
namespace Pool
namespace Mpsc

open Lib

variable {ι β : Type*} {N : Nat}

/-- No frame is in two of: a producer's hands, the ready frames, the consumer's hands. -/
structure MpExclusive (s : Mpsc ι β N) : Prop where
  producers : ∀ p q i, s.prod p = .owns i → s.prod q = .owns i → p = q
  producer_ready : ∀ p i, s.prod p = .owns i → ¬ s.Ready i
  producer_consumer : ∀ p i, s.prod p = .owns i → s.cons.taken ≠ some i
  ready_consumer : ∀ i, s.Ready i → s.cons.taken ≠ some i

theorem RefOk.exclusive {s : Mpsc ι β N} (h : RefOk s) : MpExclusive s where
  producers := h.ownsOne
  producer_ready _ _ hp := h.not_ready_of_owns hp
  producer_consumer _ _ hp := h.not_taken_of_owns hp
  ready_consumer _ hr := hr.2

/-- Slot `i` is nobody's: no producer holds it, it is not ready, the consumer does not hold it. -/
def Free (s : Mpsc ι β N) (i : Fin N) : Prop :=
  (∀ p, s.prod p ≠ .owns i) ∧ ¬ s.Ready i ∧ s.cons.taken ≠ some i

theorem RefOk.free {s : Mpsc ι β N} (h : RefOk s) {i : Fin N} (h0 : (s.frames i).refcount = 0) :
    Free s i := by
  refine ⟨?_, ?_, ?_⟩
  · intro p hp
    have h1 := h.owns p i hp
    omega
  · intro hr
    have h2 := hr.1
    omega
  · intro ht
    have h2 := h.taken i ht
    omega

variable [DecidableEq ι]

/-- `bb_pool_mp_acquire` succeeds only on a frame whose reference count is 0. -/
theorem acquired_refcount {s s' : Mpsc ι β N} {p : ι} {i : Fin N} (h : step s (.acqCas p) = some s')
    (ho : s'.prod p = .owns i) : (s.frames i).refcount = 0 := by
  simp only [step] at h
  split at h
  · split at h
    · split at h <;> cases h
      · obtain rfl : _ = i := by simpa [setProd] using ho
        assumption
      · simp [setProd] at ho
    · cases h
      simp [setProd] at ho
  · cases h

/-- **No loss and no duplication.** In every state that any interleaving reaches: whatever the next
`bb_pool_mp_acquire` returns is nobody's, frames have one owner, every delivery is of an enqueued
frame with its content and of no frame twice, the enqueued frames are the delivered and the ready
ones, and the final path of `bb_pool_mp_dequeue` is never taken. -/
theorem mp_handover [Fintype ι] {s : Mpsc ι β N} {body : Fin N → β} {as : List (MpLabel ι β)}
    (hr : run step (init body) as = some s) :
    (∀ p i s', step s (.acqCas p) = some s' → s'.prod p = .owns i → Free s i) ∧
      MpExclusive s ∧
      ((s.delivered.map Prod.fst).Nodup ∧
        ∀ t x, (t, x) ∈ s.delivered → ∃ p, s.enqueued[t]? = some (p, x)) ∧
      s.enqueued.length = s.delivered.length + tally s.Ready ∧
      s.cons ≠ .missed ∧ s.cons ≠ .missedLeave := by
  have hi := run_minv hr
  refine ⟨fun p i s' h ho => hi.ref.free (acquired_refcount h ho), hi.ref.exclusive,
    ⟨hi.tok.once, hi.tok.known⟩, hi.count.enqueued, fun hc => ?_, fun hc => ?_⟩ <;>
  · have h := hi.cons
    rw [ConsOk, hc] at h
    exact h

/-- Producer 0 hands content `x` over in a pool of one frame, one thread after the other. -/
def handOver (x : Nat) : List (MpLabel (Fin 2) Nat) :=
  [.acquire 0, .acqCas 0, .fill 0 x, .mark 0, .lock 0, .post 0, .signal 0, .unlock 0,
    .deqLock, .deqLoadPending, .deqLoadRef, .deqSub, .deqUnlock, .release]

theorem mp_handover_once :
    ∃ s : Mpsc (Fin 2) Nat 1, run step (init fun _ => 0) (handOver 7) = some s ∧
      s.delivered = [(0, 7)] ∧ MpExclusive s ∧ s.enqueued.length = 1 + tally s.Ready := by
  obtain ⟨s, hs, hd⟩ : ∃ s : Mpsc (Fin 2) Nat 1,
      run step (init fun _ => 0) (handOver 7) = some s ∧ s.delivered = [(0, 7)] := ⟨_, rfl, rfl⟩
  have h := mp_handover hs
  exact ⟨s, hs, hd, h.2.1, by simpa [hd] using h.2.2.2.1⟩

end Mpsc
end Pool
end BuildingBlocks
