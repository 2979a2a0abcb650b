import BuildingBlocks.Pool.SpscInv
import BuildingBlocks.Pool.MpscStep

/-!
# BuildingBlocks.Pool.Ownership

Who has a frame whose reference count is not 0, and who has the mutex.

* `Spsc.Accounted`: such a frame of the lock-free pool is queued, held by the consumer or owned by
  the producer.
* `Mpsc.Owned`: a count of 1 in the mutex-protected pool is some producer's.
* `Mpsc.MutexOk`: the mutex is with whoever is between its lock and its unlock.
* `Spsc.Range`: the indices are values of `int`, however often they wrap around.
-/

namespace BuildingBlocks
namespace Pool

/-! ## The lock-free pool -/

namespace Spsc

variable {β : Type*} {count : Nat} {s s' : Spsc β}

def Accounted (count : Nat) (s : Spsc β) : Prop :=
  ∀ i, (s.frames i).refcount = 0 ∨ (∃ k, InQueue s k ∧ slot count k = i) ∨ i ∈ s.held ∨
    s.prod = .owns i

theorem accounted_init (body : Int → β) : Accounted count (init body) := fun _ => .inl rfl

/-- Frames, queue and owners as before. -/
theorem Accounted.congr (h : Accounted count s) (hf : s'.frames = s.frames)
    (hc : s'.committed = s.committed) (hd : s'.delivered = s.delivered) (hh : s'.held = s.held)
    (hp : ∀ i, s.prod = .owns i → s'.prod = .owns i) : Accounted count s' := by
  intro i
  rw [hf, hh]
  rcases h i with h0 | ⟨k, hk, hi⟩ | hheld | hown
  · exact .inl h0
  · exact .inr (.inl ⟨k, by simpa [InQueue, hc, hd] using hk, hi⟩)
  · exact .inr (.inr (.inl hheld))
  · exact .inr (.inr (.inr (hp i hown)))

theorem step_accounted {a : SpLabel β} (hi : Inv count s) (ha : Accounted count s)
    (h : step count s a = some s') : Accounted count s' := by
  cases a with
  | acqLoadWrite =>
    simp only [step] at h
    split at h <;> cases h
    rename_i hpc
    exact ha.congr rfl rfl rfl rfl (by simp [hpc])
  | acqLoadRead =>
    simp only [step] at h
    split at h
    · rename_i w hpc
      split at h <;> cases h <;> exact ha.congr rfl rfl rfl rfl (by simp [hpc])
    · cases h
  | acqCas =>
    simp only [step] at h
    split at h
    · rename_i idx hpc
      split at h <;> cases h
      · intro i
        by_cases hidx : i = idx
        · subst hidx
          exact .inr (.inr (.inr rfl))
        · rcases ha i with h0 | hq | hheld | hown
          · exact .inl (by simpa only [setRef_of_ne _ hidx] using h0)
          · exact .inr (.inl hq)
          · exact .inr (.inr (.inl hheld))
          · rw [hpc] at hown
            cases hown
      · exact ha.congr rfl rfl rfl rfl (by simp [hpc])
    · cases h
  | fill x =>
    simp only [step] at h
    split at h <;> cases h
    intro i
    simp only [setBody_refcount]
    exact ha i
  | commit =>
    simp only [step] at h
    split at h <;> cases h
    rename_i idx hpc
    have hp := hi.prod
    rw [ProdOk, hpc] at hp
    intro i
    rcases ha i with h0 | ⟨k, hk, hki⟩ | hheld | hown
    · exact .inl h0
    · refine .inr (.inl ⟨k, ⟨hk.1, ?_⟩, hki⟩)
      simpa using Nat.lt_succ_of_lt hk.2
    · exact .inr (.inr (.inl hheld))
    · -- the frame the producer owned is the last of the queue
      obtain rfl : idx = i := by simpa [hpc] using hown
      refine .inr (.inl ⟨s.committed.length, ⟨hi.le, ?_⟩, hp.1.1.symm⟩)
      simp
  | abandon =>
    simp only [step] at h
    split at h <;> cases h
    rename_i idx hpc
    intro i
    by_cases hidx : i = idx
    · subst hidx
      exact .inl (setRef_refcount_self _)
    · rcases ha i with h0 | hq | hheld | hown
      · exact .inl (by simpa only [setRef_of_ne _ hidx] using h0)
      · exact .inr (.inl hq)
      · exact .inr (.inr (.inl hheld))
      · rw [hpc] at hown
        exact absurd (ProdPc.owns.inj hown).symm hidx
  | deqLoadWrite =>
    simp only [step] at h
    split at h <;> cases h
    exact ha.congr rfl rfl rfl rfl (fun _ h => h)
  | deqLoadRead | deqLoadRef =>
    simp only [step] at h
    split at h
    · split at h <;> cases h <;> exact ha.congr rfl rfl rfl rfl (fun _ h => h)
    · cases h
  | deqAdvance =>
    simp only [step] at h
    split at h <;> cases h
    rename_i idx hpc
    have hc := hi.cons
    rw [ConsOk, hpc] at hc
    intro i
    rcases ha i with h0 | ⟨k, hk, hki⟩ | hheld | hown
    · exact .inl h0
    · by_cases hfirst : k = s.delivered.length
      · subst hfirst
        refine .inr (.inr (.inl ?_))
        rw [← hki, ← hc.1]
        simp
      · refine .inr (.inl ⟨k, ⟨?_, hk.2⟩, hki⟩)
        have hle := hk.1
        simp only [List.length_append, List.length_singleton]
        omega
    · exact .inr (.inr (.inl (List.mem_append_left _ hheld)))
    · exact .inr (.inr (.inr hown))
  | release idx =>
    simp only [step] at h
    split at h
    · split at h <;> cases h
      intro i
      by_cases hidx : i = idx
      · subst hidx
        exact .inl (setRef_refcount_self _)
      · rcases ha i with h0 | hq | hheld | hown
        · exact .inl (by simpa only [setRef_of_ne _ hidx] using h0)
        · exact .inr (.inl hq)
        · exact .inr (.inr (.inl ((List.mem_erase_of_ne hidx).mpr hheld)))
        · exact .inr (.inr (.inr hown))
    · cases h

/-- What the consumer has read is a value of `int`, and it advances only from below another. -/
structure Range (s : Spsc β) : Prop where
  write : s.writeIdx < 2 ^ 31
  read : s.readIdx < 2 ^ 31
  cons : match s.cons with
    | .deqWrite w _ => w < 2 ^ 31
    | .deqSlot _ _ | .deqTake _ => s.readIdx + 1 < 2 ^ 31
    | .idle => True
  low : -2 ^ 31 ≤ s.readIdx

theorem int32_lt (x : Int) : int32 x < 2 ^ 31 := by
  have h := Int.bmod_lt (m := 2 ^ 32) (x := x) (by decide)
  unfold int32
  omega

theorem le_int32 (x : Int) : -2 ^ 31 ≤ int32 x := by
  have h := Int.le_bmod (m := 2 ^ 32) (x := x) (by decide)
  unfold int32
  omega

theorem range_init (body : Int → β) : Range (init body) where
  write := by simp [init]
  read := by simp [init]
  cons := trivial
  low := by simp [init]

theorem step_range {a : SpLabel β} (hi : Range s) (h : step count s a = some s') : Range s' := by
  obtain ⟨hwrite, hread, hcons, hlow⟩ := hi
  cases a with
  | commit =>
    simp only [step] at h
    split at h <;> cases h
    exact ⟨int32_lt _, hread, hcons, hlow⟩
  | deqLoadWrite =>
    simp only [step] at h
    split at h <;> cases h
    exact ⟨hwrite, hread, hwrite, hlow⟩
  | deqLoadRead =>
    simp only [step] at h
    split at h
    · rename_i w n hpc
      simp only [hpc] at hcons
      split at h <;> cases h <;> rename_i hempty
      · exact ⟨hwrite, hread, trivial, hlow⟩
      · have hlt : s.readIdx < w := not_le.mp hempty
        exact ⟨hwrite, hread, by simp only; omega, hlow⟩
    · cases h
  | deqLoadRef =>
    simp only [step] at h
    split at h
    · rename_i idx n hpc
      simp only [hpc] at hcons
      split at h <;> cases h
      · exact ⟨hwrite, hread, trivial, hlow⟩
      · exact ⟨hwrite, hread, hcons, hlow⟩
    · cases h
  | deqAdvance =>
    simp only [step] at h
    split at h <;> cases h
    exact ⟨hwrite, int32_lt _, trivial, le_int32 _⟩
  | release idx =>
    simp only [step] at h
    split at h
    · split at h <;> cases h
      exact ⟨hwrite, hread, hcons, hlow⟩
    · cases h
  | acqLoadRead | acqCas =>
    simp only [step] at h
    split at h
    · split at h <;> cases h <;> exact ⟨hwrite, hread, hcons, hlow⟩
    · cases h
  | acqLoadWrite | fill | abandon =>
    simp only [step] at h
    split at h <;> cases h
    exact ⟨hwrite, hread, hcons, hlow⟩

end Spsc

/-! ## The mutex-protected pool -/

/-- The consumer has the mutex. -/
def MpConsPc.locked {N : Nat} : MpConsPc N → Bool
  | .check | .scan _ | .found _ | .leave _ | .missed | .missedLeave => true
  | .idle | .waiting | .holds _ => false

/-- The producer has the mutex. -/
def MpProdPc.hasLock {N : Nat} : MpProdPc N → Bool
  | .locked | .posted | .signalled => true
  | .idle | .scan _ | .owns _ | .marked => false

namespace Mpsc

variable {ι β : Type*} {N : Nat} {s s' : Mpsc ι β N}

def Owned (s : Mpsc ι β N) : Prop := ∀ i, (s.frames i).refcount = 1 → ∃ p, s.prod p = .owns i

structure MutexOk (s : Mpsc ι β N) : Prop where
  cons : s.mutex = some .cons ↔ s.cons.locked = true
  prod : ∀ p, s.mutex = some (.prod p) ↔ (s.prod p).hasLock = true

theorem owned_init (body : Fin N → β) : Owned (init body : Mpsc ι β N) := by
  intro i h
  simp [init] at h

theorem mutexOk_init (body : Fin N → β) : MutexOk (init body : Mpsc ι β N) :=
  ⟨by simp [init, MpConsPc.locked], by simp [init, MpProdPc.hasLock]⟩

theorem MutexOk.congr (hi : MutexOk s) (hm : s'.mutex = s.mutex) (hp : s'.prod = s.prod)
    (hc : s'.cons.locked = s.cons.locked) : MutexOk s' where
  cons := by rw [hm, hc]; exact hi.cons
  prod p := by rw [hm, hp]; exact hi.prod p

/-- Nobody is between its lock and its unlock when the mutex is free. -/
theorem MutexOk.free (hi : MutexOk s) (hm : s.mutex = none) :
    s.cons.locked = false ∧ ∀ p, (s.prod p).hasLock = false := by
  have hcons := hi.cons
  have hprod := hi.prod
  simp only [hm, reduceCtorEq, false_iff, Bool.not_eq_true] at hcons hprod
  exact ⟨hcons, hprod⟩

theorem MutexOk.free_of (hi : MutexOk s) (hcons : s.cons.locked = false)
    (hprod : ∀ p, (s.prod p).hasLock = false) : s.mutex = none := by
  cases hm : s.mutex with
  | none => rfl
  | some owner =>
    cases owner with
    | prod p =>
      have hlocked := (hi.prod p).mp hm
      rw [hprod p] at hlocked
      cases hlocked
    | cons =>
      have hlocked := hi.cons.mp hm
      rw [hcons] at hlocked
      cases hlocked

/-- The consumer gives the mutex up. -/
theorem MutexOk.cons_unlock (hi : MutexOk s) (hl : s.cons.locked = true) (hm : s'.mutex = none)
    (hp : s'.prod = s.prod) (hc : s'.cons.locked = false) : MutexOk s' := by
  have hmine := hi.cons.mpr hl
  have hprod := hi.prod
  simp only [hmine, Option.some.injEq, reduceCtorEq, false_iff, Bool.not_eq_true] at hprod
  refine ⟨by simp [hm, hc], ?_⟩
  intro p
  simp [hm, hp, hprod p]

/-- The consumer takes the free mutex. -/
theorem MutexOk.cons_lock (hi : MutexOk s) (hfree : s.mutex = none) (hm : s'.mutex = some .cons)
    (hp : s'.prod = s.prod) (hc : s'.cons.locked = true) : MutexOk s' := by
  obtain ⟨-, hprod⟩ := hi.free hfree
  refine ⟨by simp [hm, hc], ?_⟩
  intro p
  simp [hm, hp, hprod p]

theorem Owned.congr (hi : Owned s) (hf : s'.frames = s.frames) (hp : s'.prod = s.prod) :
    Owned s' := by
  intro i
  rw [hf, hp]
  exact hi i

variable [DecidableEq ι]

theorem Owned.setProd (hi : Owned s) {p : ι} {pc : MpProdPc N} (hpc : ∀ i, s.prod p ≠ .owns i) :
    Owned (s.setProd p pc) := by
  intro i h
  obtain ⟨q, hq⟩ := hi i h
  have hne : q ≠ p := by
    rintro rfl
    exact hpc i hq
  exact ⟨q, by simpa [Mpsc.setProd, hne] using hq⟩

theorem step_owned {a : MpLabel ι β} (hr : RefOk s) (hi : Owned s) (h : step s a = some s') :
    Owned s' := by
  cases a with
  | acquire p | lock p | post p | signal p | unlock p =>
    simp only [step] at h
    split at h <;> cases h
    exact hi.setProd (by simp [*])
  | acqCas p =>
    simp only [step] at h
    split at h
    · rename_i k hpc
      split at h
      · rename_i hk
        split at h <;> cases h
        · intro i href
          by_cases hik : i = ⟨k, hk⟩
          · subst hik
            exact ⟨p, by simp [Mpsc.setProd]⟩
          · simp only [setRef_of_ne _ hik] at href
            exact hi.setProd (by simp [hpc]) i href
        · exact hi.setProd (by simp [hpc])
      · cases h
        exact hi.setProd (by simp [hpc])
    · cases h
  | fill p x =>
    simp only [step] at h
    split at h <;> cases h
    intro i href
    simp only [setBody_refcount] at href
    exact hi i href
  | mark p =>
    simp only [step] at h
    split at h <;> cases h
    rename_i k hpc
    intro i href
    by_cases hik : i = k
    · subst hik
      have hone := hr.owns p i hpc
      simp [addRef, hone] at href
    · simp only [addRef, setRef_of_ne _ hik] at href
      obtain ⟨q, hq⟩ := hi i href
      have hne : q ≠ p := by
        rintro rfl
        rw [hpc] at hq
        exact hik (MpProdPc.owns.inj hq).symm
      exact ⟨q, by simpa [Mpsc.setProd, hne] using hq⟩
  | deqLock | deqLoadPending | deqWake | deqSub | deqUnlock =>
    simp only [step] at h
    split at h <;> (try split at h) <;> cases h <;> exact hi.congr rfl rfl
  | deqLoadRef =>
    simp only [step] at h
    split at h
    · split at h
      · split at h <;> cases h <;> exact hi.congr rfl rfl
      · cases h
        exact hi.congr rfl rfl
    · cases h
  | release =>
    simp only [step] at h
    split at h <;> cases h
    rename_i k hpc
    intro i href
    have hik : i ≠ k := by
      rintro rfl
      simp at href
    simp only [setRef_of_ne _ hik] at href
    exact hi i href

/-- A producer that neither takes nor gives the mutex. -/
theorem MutexOk.setProd (hi : MutexOk s) {p : ι} {pc : MpProdPc N}
    (hpc : pc.hasLock = (s.prod p).hasLock) : MutexOk (s.setProd p pc) where
  cons := hi.cons
  prod q := by
    by_cases hq : q = p
    · subst hq
      simpa [Mpsc.setProd, hpc] using hi.prod q
    · simpa [Mpsc.setProd, hq] using hi.prod q

theorem step_mutexOk {a : MpLabel ι β} (hi : MutexOk s) (h : step s a = some s') :
    MutexOk s' := by
  cases a with
  | acquire p | signal p =>
    simp only [step] at h
    split at h <;> cases h
    exact hi.setProd (by simp [MpProdPc.hasLock, *])
  | post p =>
    simp only [step] at h
    split at h <;> cases h
    have hset : MutexOk (s.setProd p .posted) := hi.setProd (by simp [MpProdPc.hasLock, *])
    exact hset.congr rfl rfl rfl
  | acqCas p =>
    simp only [step] at h
    split at h
    · rename_i k hpc
      split at h
      · split at h <;> cases h
        · have hset : MutexOk (s.setProd p (.owns ⟨k, ‹_›⟩)) :=
            hi.setProd (by simp [MpProdPc.hasLock, hpc])
          exact hset.congr rfl rfl rfl
        · exact hi.setProd (by simp [MpProdPc.hasLock, hpc])
      · cases h
        exact hi.setProd (by simp [MpProdPc.hasLock, hpc])
    · cases h
  | fill p x =>
    simp only [step] at h
    split at h <;> cases h
    exact hi.congr rfl rfl rfl
  | mark p =>
    simp only [step] at h
    split at h <;> cases h
    rename_i k hpc
    have hset : MutexOk (s.setProd p .marked) := hi.setProd (by simp [MpProdPc.hasLock, hpc])
    exact hset.congr rfl rfl rfl
  | lock p =>
    simp only [step] at h
    split at h <;> cases h
    rename_i hpc hfree
    obtain ⟨hcons, hprod⟩ := hi.free hfree
    refine ⟨by simp [Mpsc.setProd, hcons], ?_⟩
    intro q
    by_cases hq : q = p
    · subst hq
      simp [Mpsc.setProd, MpProdPc.hasLock]
    · simp [Mpsc.setProd, hq, hprod q, Ne.symm hq]
  | unlock p =>
    simp only [step] at h
    split at h <;> cases h
    rename_i hpc
    have hmine := (hi.prod p).mpr (by rw [hpc]; rfl)
    have hcons := hi.cons
    have hprod := hi.prod
    simp only [hmine, Option.some.injEq, reduceCtorEq, false_iff, Bool.not_eq_true] at hcons
    refine ⟨by simp [Mpsc.setProd, hcons], ?_⟩
    intro q
    by_cases hq : q = p
    · subst hq
      simp [Mpsc.setProd, MpProdPc.hasLock]
    · have hother : (s.prod q).hasLock = false := by
        have hq' := hprod q
        rw [hmine] at hq'
        simpa [Ne.symm hq] using hq'
      simp [Mpsc.setProd, hq, hother]
  | deqLock | deqWake =>
    simp only [step] at h
    split at h <;> cases h
    exact hi.cons_lock ‹_› rfl rfl rfl
  | deqLoadPending =>
    simp only [step] at h
    split at h
    · rename_i hpc
      split at h <;> cases h
      · exact hi.cons_unlock (by rw [hpc]; rfl) rfl rfl rfl
      · exact hi.congr rfl rfl (by rw [hpc]; rfl)
    · cases h
  | deqLoadRef =>
    simp only [step] at h
    split at h
    · rename_i k hpc
      split at h
      · split at h <;> cases h <;> exact hi.congr rfl rfl (by rw [hpc]; rfl)
      · cases h
        exact hi.congr rfl rfl (by rw [hpc]; rfl)
    · cases h
  | deqSub =>
    simp only [step] at h
    split at h <;> cases h <;> rename_i hpc <;> exact hi.congr rfl rfl (by rw [hpc]; rfl)
  | deqUnlock =>
    simp only [step] at h
    split at h <;> cases h <;> rename_i hpc <;>
      exact hi.cons_unlock (by rw [hpc]; rfl) rfl rfl rfl
  | release =>
    simp only [step] at h
    split at h <;> cases h
    rename_i k hpc
    exact hi.congr rfl rfl (by rw [hpc]; rfl)

end Mpsc

end Pool
end BuildingBlocks
