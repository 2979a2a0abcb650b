import BuildingBlocks.Lib.Fifo

/-!
# BuildingBlocks.Pool.Frame

The frame of `bb_pool.h` and the atomic operations both pools perform on it. A pool is a family of
frames `ι → Frame β`; `refcount` is the atomic reference count (0 free, 1 acquired or committed,
2 ready), `body` stands for everything the producer fills in (`data`, `size`, `pts`, `frame_num`,
`fourcc`) and is left abstract.
-/

namespace BuildingBlocks
namespace Pool

structure Frame (β : Type*) where
  refcount : Int
  body : β

/-- The value of a 32-bit two's-complement `int` after wrap-around. -/
def int32 (x : Int) : Int := x.bmod (2 ^ 32)

theorem int32_eq {x : Int} (hlo : -2 ^ 31 ≤ x) (hhi : x < 2 ^ 31) : int32 x = x :=
  Int.bmod_eq_of_le (by simpa using hlo) (by simpa using hhi)

section Atomics

variable {ι β : Type*} [DecidableEq ι]

/-- `atomic_store(&f->refcount, n)`. -/
def setRef (fs : ι → Frame β) (i : ι) (n : Int) : ι → Frame β :=
  Function.update fs i { fs i with refcount := n }

/-- `atomic_fetch_add(&f->refcount, 1)`. -/
def addRef (fs : ι → Frame β) (i : ι) : ι → Frame β := setRef fs i ((fs i).refcount + 1)

def setBody (fs : ι → Frame β) (i : ι) (x : β) : ι → Frame β :=
  Function.update fs i { fs i with body := x }

variable (fs : ι → Frame β) {i j : ι} {n : Int} {x : β}

@[simp] theorem setRef_refcount_self : (setRef fs i n i).refcount = n := by simp [setRef]

theorem setRef_of_ne (h : j ≠ i) : setRef fs i n j = fs j := by simp [setRef, h]

@[simp] theorem setRef_body : (setRef fs i n j).body = (fs j).body := by
  by_cases h : j = i
  · subst h; simp [setRef]
  · rw [setRef_of_ne fs h]

@[simp] theorem setBody_refcount : (setBody fs i x j).refcount = (fs j).refcount := by
  by_cases h : j = i
  · subst h; simp [setBody]
  · simp [setBody, h]

theorem setBody_of_ne (h : j ≠ i) : setBody fs i x j = fs j := by simp [setBody, h]

end Atomics

end Pool
end BuildingBlocks
