import BuildingBlocks.Pool.Frame

/-!
# BuildingBlocks.Pool.Spsc

The lock-free pool between one producer and one consumer: `bb_pool_sp_acquire`, `bb_pool_sp_commit`,
`bb_pool_sp_dequeue` and `bb_pool_sp_release`, one label for each atomic operation. A thread that is
inside one of the functions is described by a program counter that holds the locals it still needs;
the tests on locals belong to the operation before them.

The producer acquires a frame, fills it, and then commits it or releases it (read error). The
consumer dequeues frames and releases the ones it holds in any order.

`committed`, `delivered` and `nulls` are history: no operation reads them. `nulls` records for every
`NULL` that `bb_pool_sp_dequeue` returned how many committed frames were undelivered when it loaded
`write_idx`.
-/

namespace BuildingBlocks
namespace Pool

inductive ProdPc where
  | idle
  /-- in `bb_pool_sp_acquire`, `write_idx` loaded -/
  | acqWrite (w : Int)
  /-- in `bb_pool_sp_acquire`, both indices loaded and the pool not full: before the CAS -/
  | acqSlot (idx : Int)
  /-- `bb_pool_sp_acquire` returned this frame -/
  | owns (idx : Int)
  deriving DecidableEq

/-- Where the consumer stands. `undelivered` is history. -/
inductive ConsPc where
  | idle
  /-- in `bb_pool_sp_dequeue`, `write_idx` loaded -/
  | deqWrite (w : Int) (undelivered : Nat)
  /-- in `bb_pool_sp_dequeue`, both indices loaded and `r < w`: before the load of `refcount` -/
  | deqSlot (idx : Int) (undelivered : Nat)
  /-- in `bb_pool_sp_dequeue`, the frame is committed: before `read_idx` is advanced -/
  | deqTake (idx : Int)
  deriving DecidableEq

structure Spsc (β : Type*) where
  frames : Int → Frame β
  writeIdx : Int
  readIdx : Int
  prod : ProdPc
  cons : ConsPc
  /-- frames dequeued and not yet released -/
  held : List Int
  committed : List (Int × β)
  delivered : List (Int × β)
  nulls : List Nat

inductive SpLabel (β : Type*) where
  | acqLoadWrite
  | acqLoadRead
  | acqCas
  | fill (x : β)
  | commit
  | abandon
  | deqLoadWrite
  | deqLoadRead
  | deqLoadRef
  | deqAdvance
  | release (idx : Int)

namespace Spsc

variable {β : Type*}

/-- `w - r >= p->count`. -/
def full (count : Nat) (w r : Int) : Prop := int32 (w - r) ≥ count

/-- `r >= w`. -/
def empty (w r : Int) : Prop := r ≥ w

instance (count : Nat) (w r : Int) : Decidable (full count w r) := by unfold full; infer_instance

instance (w r : Int) : Decidable (empty w r) := by unfold empty; infer_instance

/-- `w % p->count`, the remainder of C. -/
def slot (count : Nat) (w : Int) : Int := w.tmod count

/-- After `bb_pool_init`: every frame free, both indices zero. -/
def init (body : Int → β) : Spsc β where
  frames i := ⟨0, body i⟩
  writeIdx := 0
  readIdx := 0
  prod := .idle
  cons := .idle
  held := []
  committed := []
  delivered := []
  nulls := []

def step (count : Nat) (s : Spsc β) : SpLabel β → Option (Spsc β)
  | .acqLoadWrite =>
    match s.prod with
    | .idle => some { s with prod := .acqWrite s.writeIdx }
    | _ => none
  | .acqLoadRead =>
    match s.prod with
    | .acqWrite w =>
      if full count w s.readIdx then some { s with prod := .idle }
      else some { s with prod := .acqSlot (slot count w) }
    | _ => none
  | .acqCas =>
    match s.prod with
    | .acqSlot idx =>
      if (s.frames idx).refcount = 0 then
        some { s with frames := setRef s.frames idx 1, prod := .owns idx }
      else some { s with prod := .idle }
    | _ => none
  | .fill x =>
    match s.prod with
    | .owns idx => some { s with frames := setBody s.frames idx x }
    | _ => none
  | .commit =>
    match s.prod with
    | .owns idx =>
      some { s with
        writeIdx := int32 (s.writeIdx + 1)
        prod := .idle
        committed := s.committed ++ [(idx, (s.frames idx).body)] }
    | _ => none
  -- `bb_pool_sp_release` by the producer, after a read error
  | .abandon =>
    match s.prod with
    | .owns idx => some { s with frames := setRef s.frames idx 0, prod := .idle }
    | _ => none
  | .deqLoadWrite =>
    match s.cons with
    | .idle =>
      some { s with cons := .deqWrite s.writeIdx (s.committed.length - s.delivered.length) }
    | _ => none
  | .deqLoadRead =>
    match s.cons with
    | .deqWrite w n =>
      if empty w s.readIdx then some { s with cons := .idle, nulls := s.nulls ++ [n] }
      else some { s with cons := .deqSlot (slot count s.readIdx) n }
    | _ => none
  | .deqLoadRef =>
    match s.cons with
    | .deqSlot idx n =>
      if (s.frames idx).refcount < 1 then some { s with cons := .idle, nulls := s.nulls ++ [n] }
      else some { s with cons := .deqTake idx }
    | _ => none
  | .deqAdvance =>
    match s.cons with
    | .deqTake idx =>
      some { s with
        readIdx := int32 (s.readIdx + 1)
        cons := .idle
        held := s.held ++ [idx]
        delivered := s.delivered ++ [(idx, (s.frames idx).body)] }
    | _ => none
  | .release idx =>
    match s.cons with
    | .idle =>
      if idx ∈ s.held then
        some { s with frames := setRef s.frames idx 0, held := s.held.erase idx }
      else none
    | _ => none

end Spsc

end Pool
end BuildingBlocks
