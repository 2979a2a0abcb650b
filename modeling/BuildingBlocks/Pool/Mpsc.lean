import BuildingBlocks.Pool.Frame
import BuildingBlocks.Lib.Tally

/-!
# BuildingBlocks.Pool.Mpsc

The mutex-protected pool between many producers and one consumer: `bb_pool_mp_acquire`,
`bb_pool_mp_enqueue`, `bb_pool_mp_dequeue` and `bb_pool_mp_release`, one label for each atomic
operation, lock and unlock. Each producer runs acquire, fill, enqueue, over and over; the consumer
releases each frame before its next dequeue.

`pthread_cond_wait` gives up the mutex and may return at any time (POSIX allows spurious wake-ups),
so a waiting consumer may try to take the mutex again whenever it is free.

`enqueued`, `delivered` and `tok` are history: entry `t` of `enqueued` is the producer and the
content of the `t`-th frame marked ready, `tok i` is the entry of the frame in slot `i`, and
`delivered` lists the entries in the order in which `bb_pool_mp_dequeue` took them.
-/

namespace BuildingBlocks
namespace Pool

inductive MpProdPc (N : Nat) where
  | idle
  /-- in `bb_pool_mp_acquire`, before the CAS on slot `i` -/
  | scan (i : Nat)
  /-- `bb_pool_mp_acquire` returned this frame -/
  | owns (i : Fin N)
  /-- in `bb_pool_mp_enqueue`, the frame is ready: before the lock -/
  | marked
  /-- in `bb_pool_mp_enqueue`, mutex held: before `mp_pending` is incremented -/
  | locked
  /-- in `bb_pool_mp_enqueue`, before `pthread_cond_signal` -/
  | posted
  /-- in `bb_pool_mp_enqueue`, before the unlock -/
  | signalled
  deriving DecidableEq

inductive MpConsPc (N : Nat) where
  | idle
  /-- mutex held, before the load of `mp_pending` -/
  | check
  /-- in `pthread_cond_wait` -/
  | waiting
  /-- mutex held, before the load of slot `i`'s reference count -/
  | scan (i : Nat)
  /-- slot `i` is ready, before `mp_pending` is decremented -/
  | found (i : Fin N)
  /-- before the unlock, `bb_pool_mp_dequeue` is about to return this frame -/
  | leave (i : Fin N)
  /-- no slot is ready, before `mp_pending` is decremented -/
  | missed
  /-- no slot is ready, before the unlock, about to return `NULL` -/
  | missedLeave
  /-- `bb_pool_mp_dequeue` returned this frame -/
  | holds (i : Fin N)
  deriving DecidableEq

inductive MpOwner (ι : Type*) where
  | prod (p : ι)
  | cons
  deriving DecidableEq

structure Mpsc (ι β : Type*) (N : Nat) where
  frames : Fin N → Frame β
  pending : Int
  mutex : Option (MpOwner ι)
  prod : ι → MpProdPc N
  cons : MpConsPc N
  tok : Fin N → Nat
  enqueued : List (ι × β)
  delivered : List (Nat × β)

inductive MpLabel (ι β : Type*) where
  | acquire (p : ι)
  | acqCas (p : ι)
  | fill (p : ι) (x : β)
  | mark (p : ι)
  | lock (p : ι)
  | post (p : ι)
  | signal (p : ι)
  | unlock (p : ι)
  | deqLock
  | deqLoadPending
  | deqWake
  | deqLoadRef
  | deqSub
  | deqUnlock
  | release

/-- The frame the consumer has taken out of the ready ones and not yet released. -/
def MpConsPc.taken {N : Nat} : MpConsPc N → Option (Fin N)
  | .found i | .leave i | .holds i => some i
  | _ => none

section Taken

variable {N : Nat} (i : Fin N)

@[simp] theorem taken_idle : (MpConsPc.idle : MpConsPc N).taken = none := rfl
@[simp] theorem taken_scan (k : Nat) : (MpConsPc.scan k : MpConsPc N).taken = none := rfl
@[simp] theorem taken_found : (MpConsPc.found i).taken = some i := rfl
@[simp] theorem taken_leave : (MpConsPc.leave i).taken = some i := rfl
@[simp] theorem taken_holds : (MpConsPc.holds i).taken = some i := rfl

end Taken

namespace Mpsc

variable {ι β : Type*} [DecidableEq ι] {N : Nat}

/-- After `bb_pool_init`. -/
def init (body : Fin N → β) : Mpsc ι β N where
  frames i := ⟨0, body i⟩
  pending := 0
  mutex := none
  prod _ := .idle
  cons := .idle
  tok _ := 0
  enqueued := []
  delivered := []

def setProd (s : Mpsc ι β N) (p : ι) (pc : MpProdPc N) : Mpsc ι β N :=
  { s with prod := Function.update s.prod p pc }

def step (s : Mpsc ι β N) : MpLabel ι β → Option (Mpsc ι β N)
  | .acquire p =>
    match s.prod p with
    | .idle => some (s.setProd p (.scan 0))
    | _ => none
  | .acqCas p =>
    match s.prod p with
    | .scan i =>
      if h : i < N then
        if (s.frames ⟨i, h⟩).refcount = 0 then
          some { s.setProd p (.owns ⟨i, h⟩) with frames := setRef s.frames ⟨i, h⟩ 1 }
        else some (s.setProd p (.scan (i + 1)))
      -- pool full: `bb_pool_mp_acquire` returns `NULL`
      else some (s.setProd p .idle)
    | _ => none
  | .fill p x =>
    match s.prod p with
    | .owns i => some { s with frames := setBody s.frames i x }
    | _ => none
  | .mark p =>
    match s.prod p with
    | .owns i =>
      some { s.setProd p .marked with
        frames := addRef s.frames i
        tok := Function.update s.tok i s.enqueued.length
        enqueued := s.enqueued ++ [(p, (s.frames i).body)] }
    | _ => none
  | .lock p =>
    match s.prod p, s.mutex with
    | .marked, none => some { s.setProd p .locked with mutex := some (.prod p) }
    | _, _ => none
  | .post p =>
    match s.prod p with
    | .locked => some { s.setProd p .posted with pending := s.pending + 1 }
    | _ => none
  | .signal p =>
    match s.prod p with
    | .posted => some (s.setProd p .signalled)
    | _ => none
  | .unlock p =>
    match s.prod p with
    | .signalled => some { s.setProd p .idle with mutex := none }
    | _ => none
  | .deqLock =>
    match s.cons, s.mutex with
    | .idle, none => some { s with cons := .check, mutex := some .cons }
    | _, _ => none
  | .deqLoadPending =>
    match s.cons with
    | .check =>
      if s.pending = 0 then some { s with cons := .waiting, mutex := none }
      else some { s with cons := .scan 0 }
    | _ => none
  | .deqWake =>
    match s.cons, s.mutex with
    | .waiting, none => some { s with cons := .check, mutex := some .cons }
    | _, _ => none
  | .deqLoadRef =>
    match s.cons with
    | .scan i =>
      if h : i < N then
        if (s.frames ⟨i, h⟩).refcount ≥ 2 then
          some { s with
            cons := .found ⟨i, h⟩
            delivered := s.delivered ++ [(s.tok ⟨i, h⟩, (s.frames ⟨i, h⟩).body)] }
        else some { s with cons := .scan (i + 1) }
      else some { s with cons := .missed }
    | _ => none
  | .deqSub =>
    match s.cons with
    | .found i => some { s with cons := .leave i, pending := s.pending - 1 }
    | .missed => some { s with cons := .missedLeave, pending := s.pending - 1 }
    | _ => none
  | .deqUnlock =>
    match s.cons with
    | .leave i => some { s with cons := .holds i, mutex := none }
    | .missedLeave => some { s with cons := .idle, mutex := none }
    | _ => none
  | .release =>
    match s.cons with
    | .holds i => some { s with cons := .idle, frames := setRef s.frames i 0 }
    | _ => none

/-- Slot `i` holds a ready frame that the consumer has not taken. -/
def Ready (s : Mpsc ι β N) (i : Fin N) : Prop := 2 ≤ (s.frames i).refcount ∧ s.cons.taken ≠ some i

instance (s : Mpsc ι β N) : DecidablePred s.Ready :=
  fun _ => inferInstanceAs (Decidable (_ ≤ _ ∧ _ ≠ _))

/-- Producer `p` has marked its frame ready and not yet counted it in `mp_pending`. -/
def InFlight (s : Mpsc ι β N) (p : ι) : Prop := s.prod p = .marked ∨ s.prod p = .locked

instance (s : Mpsc ι β N) : DecidablePred s.InFlight :=
  fun _ => inferInstanceAs (Decidable (_ = _ ∨ _ = _))

end Mpsc

end Pool
end BuildingBlocks
