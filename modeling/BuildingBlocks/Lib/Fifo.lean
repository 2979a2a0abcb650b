import BuildingBlocks.Lib.Run

/-!
# BuildingBlocks.Lib.Fifo

A bounded first-in first-out queue with the history of what went in and what came out. It says
what a ring buffer between two threads is for; `run_history` is its law: over every run, what came
out followed by what is still queued is exactly what went in, in order.

`slot_inj` is the one fact about rings that an implementation needs: indices less than one lap
apart lie in different slots.
-/

namespace BuildingBlocks
namespace Lib

structure Fifo (γ : Type*) where
  queue : List γ
  ins : List γ
  outs : List γ

namespace Fifo

variable {γ : Type*}

inductive Op (γ : Type*) where
  | put (x : γ)
  | get

def empty : Fifo γ := ⟨[], [], []⟩

/-- `put` needs a free place, `get` a queued element. -/
def step (cap : Nat) (q : Fifo γ) : Op γ → Option (Fifo γ)
  | .put x =>
    if q.queue.length < cap then some { q with queue := q.queue ++ [x], ins := q.ins ++ [x] }
    else none
  | .get =>
    match q.queue with
    | [] => none
    | x :: rest => some { q with queue := rest, outs := q.outs ++ [x] }

/-- What holds of every queue that `step` can build from `empty`. -/
structure Ok (cap : Nat) (q : Fifo γ) : Prop where
  order : q.outs ++ q.queue = q.ins
  bound : q.queue.length ≤ cap

theorem ok_empty (cap : Nat) : Ok cap (empty : Fifo γ) := ⟨rfl, Nat.zero_le _⟩

theorem step_ok {cap : Nat} {q q' : Fifo γ} {o : Op γ} (hq : Ok cap q)
    (h : step cap q o = some q') : Ok cap q' := by
  cases o with
  | put x =>
    simp only [step] at h
    split at h
    · cases h
      exact ⟨by simp [← hq.order], by simpa using Nat.succ_le_of_lt ‹_›⟩
    · cases h
  | get =>
    simp only [step] at h
    split at h
    · cases h
    · rename_i x rest hx
      cases h
      have hb := hq.bound
      rw [hx, List.length_cons] at hb
      exact ⟨by simpa [hx] using hq.order, by simpa using Nat.le_of_succ_le hb⟩

theorem run_ok {cap : Nat} {q q' : Fifo γ} {os : List (Op γ)} (hq : Ok cap q)
    (h : run (step cap) q os = some q') : Ok cap q' :=
  run_invariant (I := Ok cap) (fun _ _ _ => step_ok) hq h

/-- The law of the queue: nothing is lost, duplicated or reordered. -/
theorem run_history {cap : Nat} {q : Fifo γ} {os : List (Op γ)}
    (h : run (step cap) empty os = some q) : q.outs ++ q.queue = q.ins :=
  (run_ok (ok_empty cap) h).order

end Fifo

/-- Indices of one lap lie in different slots of a ring with `n` slots. -/
theorem slot_inj {n r k k' : Nat} (hk : r ≤ k) (hk' : r ≤ k') (hkn : k < r + n)
    (hkn' : k' < r + n) (h : k % n = k' % n) : k = k' :=
  Nat.mod_injOn_Ico r n (by simp [hk, hkn]) (by simp [hk', hkn']) h

end Lib
end BuildingBlocks
