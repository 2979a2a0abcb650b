import BuildingBlocks.Hal.Display
import Mathlib.Data.List.Perm.Basic

/-!
# BuildingBlocks.Pool.Memory

The memory of a frame pool: what `bb_pool_init` allocates and `bb_pool_destroy` gives back.

* `poolInit` allocates the array and a buffer for each frame, from the heap or, for DMA-BUF, by
  `mmap`; `importFds` is the caller that sets the descriptors of frames.
* `poolDestroy` unmaps the buffers of frames with a descriptor and frees all others.
* `pool_destroy_iff` — so a pool is given back as it was allocated exactly when the descriptors are
  those of a DMA-BUF pool, all of them.
-/

namespace BuildingBlocks
namespace Pool

open Hal Lib

/-! ## The code -/

/-- The fields of `bb_frame_t` that say where its buffer is. -/
structure Buf where
  data : UInt64
  fd : Int
deriving DecidableEq, Repr

/-- The caller sets the descriptor of a frame, or leaves it. -/
def Buf.setFd (b : Buf) : Option Nat → Buf
  | none => b
  | some n => { b with fd := n }

/-- `frames` and the frames behind it. -/
structure PoolMem where
  frames : UInt64
  bufs : List Buf
deriving DecidableEq, Repr

def PoolMem.zero : PoolMem := { frames := 0, bufs := [] }

/-- What `mmap` or `malloc` gives with the result `a`. -/
def allocated (useDmabuf : Bool) (a : UInt64) : List Res :=
  if useDmabuf then (if a = mapFailed then [] else [.map a]) else [.heap a]

/-- The loop of `bb_pool_init`, with the result of each allocation, up to the first one that gives
`NULL`: the frames, whether all were allocated, and what was. -/
def fillBufs (useDmabuf : Bool) : List UInt64 → List Buf × Bool × List Res
  | [] => ([], true, [])
  | a :: as =>
    if a = 0 then ({ data := 0, fd := -1 } :: as.map fun _ => { data := 0, fd := 0 }, false, [])
    else
      let (bufs, ok, rs) := fillBufs useDmabuf as
      ({ data := a, fd := -1 } :: bufs, ok, allocated useDmabuf a ++ rs)

/-- What `bb_pool_destroy` gives back for a frame: the mapping and the descriptor, or the block. -/
def Buf.freed (b : Buf) : List Res :=
  if b.data = 0 then []
  else if 0 ≤ b.fd then [.map b.data, .fd b.fd.toNat] else [.heap b.data]

def PoolMem.freed (p : PoolMem) : List Res :=
  if p.frames = 0 then [] else p.bufs.flatMap Buf.freed ++ [.heap p.frames]

/-- `bb_pool_destroy`. -/
def poolDestroy (p : PoolMem) : PoolMem × List (Act Res) :=
  if p.frames = 0 then (p, []) else (.zero, p.freed.map .release)

/-- `bb_pool_init`: the pool, the return value and the system calls; `frames` is the result of
`calloc`. -/
def poolInit (useDmabuf : Bool) (frames : UInt64) (data : List UInt64) :
    PoolMem × Int × List (Act Res) :=
  if frames = 0 then (.zero, -1, [])
  else
    let (bufs, ok, rs) := fillBufs useDmabuf data
    let p := { frames := frames, bufs := bufs }
    let acts := (.heap frames :: rs).map .acquire
    if ok then (p, 0, acts) else ((poolDestroy p).1, -1, acts ++ (poolDestroy p).2)

/-- The caller opens descriptors and sets them. -/
def PoolMem.importFds (p : PoolMem) (fds : List (Option Nat)) : PoolMem :=
  { p with bufs := List.zipWith Buf.setFd p.bufs fds }

/-- The descriptor of a frame. -/
def imported (fd : Option Nat) : List Res := (fd.map Res.fd).toList

/-! ## The loop -/

section Fill

variable {useDmabuf : Bool} {data : List UInt64}

theorem fillBufs_ok : (fillBufs useDmabuf data).2.1 = true ↔ ∀ a ∈ data, a ≠ 0 := by
  induction data with
  | nil => simp [fillBufs]
  | cons a as ih =>
    by_cases ha : a = 0
    · simp [fillBufs, ha]
    · simp [fillBufs, ha, ih]

theorem fillBufs_eq (h : ∀ a ∈ data, a ≠ 0) :
    fillBufs useDmabuf data =
      (data.map fun a => { data := a, fd := -1 }, true, data.flatMap (allocated useDmabuf)) := by
  induction data with
  | nil => rfl
  | cons a as ih =>
    rw [List.forall_mem_cons] at h
    rw [fillBufs, if_neg h.1, ih h.2]
    rfl

/-- What was allocated from the heap is what will be freed. -/
theorem freed_fillBufs : (fillBufs false data).1.flatMap Buf.freed = (fillBufs false data).2.2 := by
  have hrest : ∀ as : List UInt64,
      (as.map fun _ => ({ data := 0, fd := 0 } : Buf)).flatMap Buf.freed = [] := by
    intro as
    simp [Buf.freed]
  induction data with
  | nil => rfl
  | cons a as ih =>
    by_cases ha : a = 0
    · rw [fillBufs, if_pos ha]
      exact hrest as
    · rw [fillBufs, if_neg ha]
      dsimp only
      rw [List.flatMap_cons, ih]
      simp [Buf.freed, ha, allocated]

end Fill

/-! ## Init and destroy -/

/-- Whether it succeeds or not, the fields of a heap pool name what it holds. -/
theorem poolInit_heap {frames : UInt64} {data : List UInt64} {p : PoolMem} {ret : Int}
    {acts : List (Act Res)} (h : poolInit false frames data = (p, ret, acts)) :
    (ret = 0 ∧ p.frames ≠ 0 ∨ ret = -1 ∧ p = .zero) ∧ Leaves acts p.freed := by
  unfold poolInit at h
  split_ifs at h with hframes
  · cases h
    exact ⟨Or.inr ⟨rfl, rfl⟩, leaves_nil⟩
  · have hfreed : ({ frames := frames, bufs := (fillBufs false data).1 } : PoolMem).freed =
        (fillBufs false data).2.2 ++ [.heap frames] := by
      rw [PoolMem.freed, if_neg hframes, freed_fillBufs]
    have hacquired : Leaves ((.heap frames :: (fillBufs false data).2.2).map .acquire)
        ((fillBufs false data).2.2 ++ [.heap frames]) := by
      refine ⟨(Res.heap frames :: (fillBufs false data).2.2).reverse, ?_,
        (List.reverse_perm _).trans (List.perm_append_singleton _ _).symm⟩
      have hrun := run_within_acquire (Res.heap frames :: (fillBufs false data).2.2) [] []
      rwa [List.append_nil, List.append_nil] at hrun
    dsimp only at h
    split_ifs at h
    · cases h
      refine ⟨Or.inl ⟨rfl, hframes⟩, ?_⟩
      rwa [hfreed]
    · cases h
      have hzero : PoolMem.zero.freed = [] := rfl
      rw [poolDestroy, if_neg hframes, hfreed]
      refine ⟨Or.inr ⟨rfl, rfl⟩, ?_⟩
      dsimp only
      rw [hzero]
      exact hacquired.release (by rw [List.append_nil])

/-- `bb_pool_destroy` releases what the fields name. -/
theorem poolDestroy_acts (p : PoolMem) : (poolDestroy p).2 = p.freed.map .release := by
  unfold poolDestroy
  split_ifs with h
  · rw [PoolMem.freed, if_pos h]
    rfl
  · rfl

section Import

variable {useDmabuf : Bool} {frames : UInt64} {bufs : List (UInt64 × Option Nat)}

/-- The frame with the buffer and the descriptor. -/
def frameBuf (b : UInt64 × Option Nat) : Buf := Buf.setFd { data := b.1, fd := -1 } b.2

theorem importFds_bufs :
    List.zipWith Buf.setFd ((bufs.map Prod.fst).map fun a => { data := a, fd := -1 })
      (bufs.map Prod.snd) = bufs.map frameBuf := by
  induction bufs with
  | nil => rfl
  | cons b bufs ih =>
    simp only [List.map_cons, List.zipWith_cons_cons, ih, frameBuf]

theorem freed_frameBuf {b : UInt64 × Option Nat} (h : b.1 ≠ 0) :
    (frameBuf b).freed = match b.2 with
      | none => [.heap b.1]
      | some n => [.map b.1, .fd n] := by
  obtain ⟨a, fd⟩ := b
  cases fd with
  | none => simp [frameBuf, Buf.setFd, Buf.freed, show a ≠ 0 from h]
  | some n => simp [frameBuf, Buf.setFd, Buf.freed, show a ≠ 0 from h]

/-- A frame whose buffer is given back the way it was allocated. -/
def Matches (useDmabuf : Bool) (b : UInt64 × Option Nat) : Prop :=
  if useDmabuf then b.2.isSome ∧ b.1 ≠ mapFailed else b.2 = none

/-- What a frame holds. -/
def Acquired (useDmabuf : Bool) (b : UInt64 × Option Nat) : List Res :=
  allocated useDmabuf b.1 ++ imported b.2

def isHeap : Res → Bool
  | .heap _ => true
  | .fd _ => false
  | .thread _ => false
  | .handle _ _ => false
  | .fb _ _ => false
  | .map _ => false

def isMap : Res → Bool
  | .map _ => true
  | .fd _ => false
  | .heap _ => false
  | .thread _ => false
  | .handle _ _ => false
  | .fb _ _ => false

theorem acquired_of_matches {b : UInt64 × Option Nat} (hb : b.1 ≠ 0) (h : Matches useDmabuf b) :
    Acquired useDmabuf b = (frameBuf b).freed := by
  obtain ⟨a, fd⟩ := b
  rw [freed_frameBuf hb]
  cases useDmabuf with
  | false =>
    obtain rfl : fd = none := h
    rfl
  | true =>
    obtain ⟨hfd, ha⟩ : fd.isSome ∧ a ≠ mapFailed := h
    obtain ⟨n, rfl⟩ := Option.isSome_iff_exists.mp hfd
    simp [Acquired, allocated, imported, ha]

/-- Frame by frame one thing of a kind or none. -/
theorem countP_flatMap_eq {β : Type*} {p : Res → Bool} {q : β → Bool} {f : β → List Res}
    {l : List β} (h : ∀ b ∈ l, (f b).countP p = if q b then 1 else 0) :
    (l.flatMap f).countP p = l.countP q := by
  induction l with
  | nil => rfl
  | cons b l ih =>
    rw [List.forall_mem_cons] at h
    rw [List.flatMap_cons, List.countP_append, List.countP_cons, ih h.2, h.1, Nat.add_comm]

theorem perm_iff_matches (h : ∀ b ∈ bufs, b.1 ≠ 0) :
    (bufs.flatMap (Acquired useDmabuf)).Perm (bufs.flatMap fun b => (frameBuf b).freed) ↔
      ∀ b ∈ bufs, Matches useDmabuf b := by
  constructor
  · intro hperm
    -- the blocks freed, and the mappings unmapped
    have hheaps := hperm.countP_eq isHeap
    have hmaps := hperm.countP_eq isMap
    have hfreed : (bufs.flatMap fun b => (frameBuf b).freed).countP isHeap =
        bufs.countP fun b => b.2.isNone := by
      refine countP_flatMap_eq (fun b hb => ?_)
      rw [freed_frameBuf (h b hb)]
      cases b.2 <;> rfl
    have hunmapped : (bufs.flatMap fun b => (frameBuf b).freed).countP isMap =
        bufs.countP fun b => b.2.isSome := by
      refine countP_flatMap_eq (fun b hb => ?_)
      rw [freed_frameBuf (h b hb)]
      cases b.2 <;> rfl
    cases useDmabuf with
    | false =>
      have hblocks : (bufs.flatMap (Acquired false)).countP isHeap =
          bufs.countP fun _ => true := by
        refine countP_flatMap_eq (fun b _ => ?_)
        obtain ⟨a, fd⟩ := b
        cases fd <;> rfl
      rw [hblocks, hfreed, List.countP_true, eq_comm, List.countP_eq_length] at hheaps
      intro b hb
      exact Option.isNone_iff_eq_none.mp (hheaps b hb)
    | true =>
      have hblocks : (bufs.flatMap (Acquired true)).countP isHeap =
          bufs.countP fun _ => false := by
        refine countP_flatMap_eq (fun b _ => ?_)
        obtain ⟨a, fd⟩ := b
        by_cases ha : a = mapFailed
        · cases fd <;> simp [Acquired, allocated, imported, ha, isHeap]
        · cases fd <;> simp [Acquired, allocated, imported, ha, isHeap]
      have hmapped : (bufs.flatMap (Acquired true)).countP isMap =
          bufs.countP fun b => decide (b.1 ≠ mapFailed) := by
        refine countP_flatMap_eq (fun b _ => ?_)
        obtain ⟨a, fd⟩ := b
        by_cases ha : a = mapFailed
        · cases fd <;> simp [Acquired, allocated, imported, ha, isMap]
        · cases fd <;> simp [Acquired, allocated, imported, ha, isMap, List.countP_cons]
      rw [hblocks, hfreed, List.countP_false] at hheaps
      have hheaps := List.countP_eq_zero.mp hheaps.symm
      have hsome : ∀ b ∈ bufs, b.2.isSome = true := by
        intro b hb
        exact Option.isSome_iff_ne_none.mpr (by simpa using hheaps b hb)
      rw [hmapped, hunmapped, List.countP_eq_length.mpr hsome, List.countP_eq_length] at hmaps
      intro b hb
      exact ⟨hsome b hb, of_decide_eq_true (hmaps b hb)⟩
  · intro hall
    refine List.Perm.flatMap_left bufs (fun b hb => ?_)
    rw [acquired_of_matches (h b hb) (hall b hb)]

end Import

/-- **A pool is given back as it was allocated.** After every successful `bb_pool_init`, with any
number of frames and whatever descriptors the caller sets: `bb_pool_destroy` releases all that the
pool holds and nothing else if and only if no frame of a heap pool got a descriptor, or every frame
of a DMA-BUF pool got one and was mapped. -/
theorem pool_destroy_iff (useDmabuf : Bool) (frames : UInt64) (bufs : List (UInt64 × Option Nat))
    (p : PoolMem) (acts : List (Act Res))
    (hinit : poolInit useDmabuf frames (bufs.map Prod.fst) = (p, 0, acts)) :
    run Act.within [] (acts ++ (bufs.flatMap fun b => imported b.2).map .acquire ++
        (poolDestroy (p.importFds (bufs.map Prod.snd))).2) = some [] ↔
      ∀ b ∈ bufs, Matches useDmabuf b := by
  unfold poolInit at hinit
  split_ifs at hinit with hframes
  · cases hinit
  · dsimp only at hinit
    split_ifs at hinit with hok
    · have hdata := fillBufs_ok.mp hok
      have hne : ∀ b ∈ bufs, b.1 ≠ 0 := fun b hb => hdata _ (List.mem_map_of_mem hb)
      rw [fillBufs_eq hdata] at hinit
      cases hinit
      have hdestroy : (poolDestroy (PoolMem.importFds
          { frames := frames, bufs := (bufs.map Prod.fst).map fun a => { data := a, fd := -1 } }
          (bufs.map Prod.snd))).2 =
            ((bufs.flatMap fun b => (frameBuf b).freed) ++ [Res.heap frames]).map .release := by
        rw [PoolMem.importFds, importFds_bufs, poolDestroy, if_neg hframes]
        simp only [PoolMem.freed, if_neg hframes, List.flatMap_map]
      rw [hdestroy, ← List.map_append, run_within_acquire, List.append_nil,
        run_within_release_iff, List.flatMap_map, ← perm_iff_matches hne]
      have hacquired : (Res.heap frames :: (bufs.flatMap fun b => allocated useDmabuf b.1) ++
          bufs.flatMap fun b => imported b.2).reverse.Perm
            (Res.heap frames :: bufs.flatMap (Acquired useDmabuf)) :=
        (List.reverse_perm _).trans (List.Perm.cons _ (List.flatMap_append_perm bufs _ _))
      have hreleased := List.perm_append_singleton (Res.heap frames)
        (bufs.flatMap fun b => (frameBuf b).freed)
      constructor
      · intro hperm
        exact (List.perm_cons _).mp (hacquired.symm.trans (hperm.trans hreleased))
      · intro hperm
        exact hacquired.trans ((hperm.cons _).trans hreleased.symm)
    · cases hinit

/-- Two frames of a DMA-BUF pool, both with a descriptor. -/
theorem pool_destroy_iff_two :
    ∃ p acts, poolInit true 64 [4096, 8192] = (p, 0, acts) ∧
      run Act.within [] (acts ++ [.acquire (.fd 5), .acquire (.fd 6)] ++
        (poolDestroy (p.importFds [some 5, some 6])).2) = some [] :=
  ⟨_, _, rfl, (pool_destroy_iff true 64 [(4096, some 5), (8192, some 6)] _ _ rfl).mpr
    (by simp [Matches, mapFailed])⟩

end Pool
end BuildingBlocks
