import BuildingBlocks.Pool.SpscInv

/-!
# BuildingBlocks.Pool.SpscCorrect

What the lock-free pool is for: it is a bounded first-in first-out queue of frames.

* `refines_fifo`: every run is a run of `Lib.Fifo` with capacity `count`. A commit is a `put`, the
  advance of `read_idx` a `get`, every other operation is invisible.
* `sp_handover`: the contract of the pool in every state of every run — index bounds, exclusive
  ownership, exactly-once delivery in commit order with the content at commit, and an exact `NULL`.
-/

namespace BuildingBlocks
namespace Pool
namespace Spsc

open Lib

variable {β : Type*} {count : Nat}

/-- The queue a pool state stands for. -/
def fifo (s : Spsc β) : Fifo (Int × β) where
  queue := s.committed.drop s.delivered.length
  ins := s.committed
  outs := s.delivered

theorem commit_put {s : Spsc β} (hi : Inv count s) {idx : Int} (hp : s.prod = .owns idx)
    {x : Int × β} :
    Fifo.step count (fifo s) (.put x) =
      some ⟨(s.committed ++ [x]).drop s.delivered.length, s.committed ++ [x], s.delivered⟩ := by
  have hroom : s.committed.length < s.delivered.length + count := by
    have h := hi.prod
    rw [ProdOk, hp] at h
    exact h.1.2
  have hle := hi.le
  have hlen : (fifo s).queue.length < count := by
    simp only [fifo, List.length_drop]
    omega
  simp only [Fifo.step, if_pos hlen]
  simp [fifo, List.drop_append_of_le_length hle]

theorem advance_get {s : Spsc β} (hi : Inv count s) {idx : Int} (hc : s.cons = .deqTake idx) :
    Fifo.step count (fifo s) .get =
      some ⟨s.committed.drop (s.delivered.length + 1), s.committed,
        s.delivered ++ [(idx, (s.frames idx).body)]⟩ := by
  have h := hi.cons
  rw [ConsOk, hc] at h
  obtain ⟨rfl, hin⟩ := h
  obtain ⟨hcom, -⟩ := hi.queue _ hin
  have hdrop : (fifo s).queue = (slot count s.delivered.length,
      (s.frames (slot count s.delivered.length)).body) ::
        s.committed.drop (s.delivered.length + 1) := by
    rw [fifo, List.drop_eq_getElem_cons hin.2]
    rw [List.getElem?_eq_getElem hin.2] at hcom
    rw [Option.some.inj hcom]
  simp only [Fifo.step, hdrop]
  rfl

/-- One operation of a thread is at most one operation of the queue. -/
theorem step_refines {s s' : Spsc β} {a : SpLabel β} (hi : Inv count s)
    (h : step count s a = some s') :
    ∃ os, run (Fifo.step count) (fifo s) os = some (fifo s') := by
  by_cases hcom : s'.committed = s.committed ∧ s'.delivered = s.delivered
  · exact ⟨[], by simp [fifo, hcom.1, hcom.2]⟩
  cases a with
  | commit =>
    simp only [step] at h
    split at h
    · cases h
      exact ⟨[.put _], run_cons_eq_some.mpr ⟨_, commit_put hi ‹_›, rfl⟩⟩
    · cases h
  | deqAdvance =>
    simp only [step] at h
    split at h
    · cases h
      exact ⟨[.get], run_cons_eq_some.mpr ⟨_, advance_get hi ‹_›, by simp [fifo]⟩⟩
    · cases h
  | _ =>
    simp only [step] at h
    split at h <;> (try split at h) <;> cases h <;> exact absurd ⟨rfl, rfl⟩ hcom

theorem refines_fifo {s : Spsc β} {body : Int → β} {as : List (SpLabel β)}
    (hr : run (step count) (init body) as = some s) (hlt : s.committed.length < 2 ^ 31) :
    ∃ os, run (Fifo.step count) Fifo.empty os = some (fifo s) := by
  have hsim : ∀ (s : Spsc β) a s' (q : Fifo (Int × β)), Inv count s ∧ q = fifo s →
      Bounded count s a → step count s a = some s' →
      ∃ os q', run (Fifo.step count) q os = some q' ∧ Inv count s' ∧ q' = fifo s' := by
    rintro s a s' q ⟨hi, rfl⟩ hb h
    obtain ⟨os, ho⟩ := step_refines hi h
    exact ⟨os, _, ho, step_inv hi (hb _ h) h, rfl⟩
  obtain ⟨os, q, hq, -, rfl⟩ := run_simulation_of_meets hsim
    (t := Fifo.empty) ⟨inv_init body, rfl⟩ (run_bounded hr hlt) hr
  exact ⟨os, hq⟩

/-! ## Ownership -/

def ProducerOwns (s : Spsc β) (i : Int) : Prop := s.prod = .owns i

/-- The committed queue owns the slots between the indices. -/
def QueueOwns (count : Nat) (s : Spsc β) (i : Int) : Prop :=
  ∃ k : Int, s.readIdx ≤ k ∧ k < s.writeIdx ∧ slot count k = i

def ConsumerOwns (s : Spsc β) (i : Int) : Prop := i ∈ s.held

theorem Inv.queueOwns_iff {s : Spsc β} (hi : Inv count s) {i : Int} :
    QueueOwns count s i ↔ ∃ k : Nat, InQueue s k ∧ slot count k = i := by
  rw [QueueOwns, hi.read, hi.write]
  constructor
  · rintro ⟨k, h1, h2, h3⟩
    obtain ⟨n, rfl⟩ := Int.eq_ofNat_of_zero_le (by omega : 0 ≤ k)
    exact ⟨n, ⟨by omega, by omega⟩, h3⟩
  · rintro ⟨k, ⟨h1, h2⟩, h3⟩
    exact ⟨k, by omega, by omega, h3⟩

/-- No frame has two owners, and the queue and the consumer own no frame twice. -/
structure Exclusive (count : Nat) (s : Spsc β) : Prop where
  producer_queue : ∀ i, ¬ (ProducerOwns s i ∧ QueueOwns count s i)
  producer_consumer : ∀ i, ¬ (ProducerOwns s i ∧ ConsumerOwns s i)
  queue_consumer : ∀ i, ¬ (QueueOwns count s i ∧ ConsumerOwns s i)
  queue_once : ∀ k k' : Int, s.readIdx ≤ k → k < k' → k' < s.writeIdx →
    slot count k ≠ slot count k'
  consumer_once : s.held.Nodup

theorem Inv.exclusive {s : Spsc β} (hi : Inv count s) : Exclusive count s where
  producer_queue i := by
    rintro ⟨hp, hq⟩
    obtain ⟨k, hk, rfl⟩ := hi.queueOwns_iff.mp hq
    have h := hi.prod
    rw [ProdOk, hp] at h
    exact h.1.ne hk rfl
  producer_consumer i := by
    rintro ⟨hp, hm⟩
    have h := hi.prod
    rw [ProdOk, hp] at h
    exact h.2.2 hm
  queue_consumer i := by
    rintro ⟨hq, hm⟩
    obtain ⟨k, hk, rfl⟩ := hi.queueOwns_iff.mp hq
    exact (hi.held _ hm).2.2 k hk rfl
  queue_once k k' h1 h2 h3 := by
    rw [hi.read] at h1
    rw [hi.write] at h3
    obtain ⟨n, rfl⟩ := Int.eq_ofNat_of_zero_le (by omega : 0 ≤ k)
    obtain ⟨n', rfl⟩ := Int.eq_ofNat_of_zero_le (by omega : 0 ≤ k')
    have hcap := hi.cap
    exact slot_ne (r := s.delivered.length) (by omega) (by omega) (by omega)
  consumer_once := hi.heldNodup

/-- **The hand-over is exactly once and in order.** In every state that any interleaving of the
producer and the consumer reaches with fewer than `2 ^ 31` commits. -/
theorem sp_handover {s : Spsc β} {body : Int → β} {as : List (SpLabel β)}
    (hr : run (step count) (init body) as = some s) (hlt : s.committed.length < 2 ^ 31) :
    (s.readIdx ≤ s.writeIdx ∧ s.writeIdx ≤ s.readIdx + count) ∧
      Exclusive count s ∧
      (s.writeIdx = s.committed.length ∧ s.readIdx = s.delivered.length ∧
        s.delivered <+: s.committed) ∧
      (∀ i ∈ s.held, (i, (s.frames i).body) ∈ s.delivered) ∧
      ∀ n ∈ s.nulls, n = 0 := by
  have hi := run_inv hr hlt
  obtain ⟨os, hos⟩ := refines_fifo hr hlt
  have hlaw : s.delivered ++ s.committed.drop s.delivered.length = s.committed :=
    Fifo.run_history hos
  refine ⟨⟨?_, ?_⟩, hi.exclusive, ⟨hi.write, hi.read, ⟨_, hlaw⟩⟩, fun i hm => (hi.held i hm).2.1,
    hi.nulls⟩
  · rw [hi.read, hi.write]
    exact_mod_cast hi.le
  · rw [hi.read, hi.write]
    exact_mod_cast hi.cap

/-- The theorem at a run of a one-frame pool: a frame with content 7 is handed over and released. -/
theorem sp_handover_once :
    ∃ s : Spsc Nat, run (step 1) (init fun _ => 0)
        [.acqLoadWrite, .acqLoadRead, .acqCas, .fill 7, .commit, .deqLoadWrite, .deqLoadRead,
          .deqLoadRef, .deqAdvance, .release 0] = some s ∧
      s.committed = [(0, 7)] ∧ Exclusive 1 s ∧ s.delivered <+: s.committed := by
  obtain ⟨s, hs, hc⟩ : ∃ s : Spsc Nat, run (step 1) (init fun _ => 0)
      [.acqLoadWrite, .acqLoadRead, .acqCas, .fill 7, .commit, .deqLoadWrite, .deqLoadRead,
        .deqLoadRef, .deqAdvance, .release 0] = some s ∧ s.committed = [(0, 7)] := ⟨_, rfl, rfl⟩
  have h := sp_handover hs (by simp [hc])
  exact ⟨s, hs, hc, h.2.1, h.2.2.1.2.2⟩

end Spsc
end Pool
end BuildingBlocks
