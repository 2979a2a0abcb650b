import BuildingBlocks.Pool.MpscInv

/-!
# BuildingBlocks.Pool.MpscStep

The consumer's half of the invariant of `MpscInv`, the step lemma `step_minv` over all labels, and
the run lemma `run_minv`.
-/

namespace BuildingBlocks
namespace Pool
namespace Mpsc

open Lib

variable {ι β : Type*} {N : Nat} {s s' : Mpsc ι β N}

/-! ## The consumer's steps -/

theorem minv_cons [Fintype ι] (hi : MInv s) {pc : MpConsPc N} {m : Option (MpOwner ι)}
    (ht : pc.taken = s.cons.taken) (hl : lead { s with cons := pc, mutex := m } = s.lead)
    (hc : ConsOk { s with cons := pc, mutex := m }) : MInv { s with cons := pc, mutex := m } where
  ref := hi.ref.congr rfl (fun _ _ h => h) ht
  tok := hi.tok.congr (ready_congr rfl ht) (fun _ _ => rfl) rfl rfl rfl
  count := hi.count.congr (ready_congr rfl ht) (fun _ => Iff.rfl) rfl hl rfl rfl
  pending := hi.pending
  cons := hc

/-- Where `mp_pending` is positive and the consumer holds nothing, some slot is ready. -/
theorem exists_ready [Fintype ι] (hi : MInv s) (hl : s.lead = 0) (hp : s.pending ≠ 0) :
    1 ≤ s.pending ∧ ∃ j, s.Ready j := by
  have h0 := hi.pending
  have hpd := hi.count.pending
  rw [hl] at hpd
  exact ⟨by omega, exists_of_tally_pos (by omega)⟩

/-- The state after the scan of `bb_pool_mp_dequeue` found slot `i` ready. -/
def takenOut (s : Mpsc ι β N) (i : Fin N) : Mpsc ι β N :=
  { s with cons := .found i, delivered := s.delivered ++ [(s.tok i, (s.frames i).body)] }

theorem takenOut_ready {i j : Fin N} (hn : s.cons.taken = none) :
    (s.takenOut i).Ready j ↔ s.Ready j ∧ j ≠ i := by
  simp only [Ready, takenOut, taken_found, hn, ne_eq, Option.some.injEq]
  constructor
  · rintro ⟨h1, h2⟩; exact ⟨⟨h1, by simp⟩, fun e => h2 e.symm⟩
  · rintro ⟨⟨h1, -⟩, h2⟩; exact ⟨h1, fun e => h2 e.symm⟩

theorem tokOk_takenOut (ht : TokOk s) {i : Fin N} (hn : s.cons.taken = none) (hr : s.Ready i) :
    TokOk (s.takenOut i) := by
  have hready := fun j => takenOut_ready (s := s) (i := i) (j := j) hn
  obtain ⟨p, hp⟩ := ht.ready i hr
  refine ⟨fun j hj => ht.ready j ((hready j).mp hj).1, ?_,
    fun j k hj hk => ht.one j k ((hready j).mp hj).1 ((hready k).mp hk).1, ?_, ?_, ?_⟩
  · intro j hj
    obtain ⟨hj, hji⟩ := (hready j).mp hj
    rw [takenOut, List.map_append, List.mem_append]
    rintro (h | h)
    · exact ht.fresh j hj h
    · exact hji (ht.one j i hj hr (by simpa using h))
  · rw [takenOut, List.map_append, List.nodup_append]
    refine ⟨ht.once, List.nodup_singleton _, ?_⟩
    intro a ha b hb hab
    obtain rfl : b = s.tok i := by simpa using hb
    exact ht.fresh i hr (hab ▸ ha)
  · intro t x h
    rcases List.mem_append.mp h with h | h
    · exact ht.known t x h
    · obtain ⟨rfl, rfl⟩ : t = s.tok i ∧ x = (s.frames i).body := by simpa using h
      exact ⟨p, hp⟩
  · intro t h
    rcases ht.all t h with h | ⟨j, hj, hjt⟩
    · exact .inl (by rw [takenOut, List.map_append]; exact List.mem_append_left _ h)
    · by_cases hji : j = i
      · subst hji
        exact .inl (by simp [takenOut, hjt])
      · exact .inr ⟨j, (hready j).mpr ⟨hj, hji⟩, hjt⟩

theorem minv_found [Fintype ι] (hi : MInv s) {i : Fin N} (hn : s.cons.taken = none)
    (hl : s.lead = 0) (hp : 1 ≤ s.pending) (h2 : 2 ≤ (s.frames i).refcount) :
    MInv (s.takenOut i) := by
  have hr : s.Ready i := ⟨h2, by simp [hn]⟩
  have hready := fun j => takenOut_ready (s := s) (i := i) (j := j) hn
  have htally : tally s.Ready = tally (s.takenOut i).Ready + 1 :=
    tally_insert (fun h => ((hready i).mp h).2 rfl) hr fun j hj => by simp [hready j, hj]
  have he := hi.count.enqueued
  have hpd := hi.count.pending
  have hlead : (s.takenOut i).lead = 1 := rfl
  have hflight : tally (s.takenOut i).InFlight = tally s.InFlight := tally_congr fun _ => Iff.rfl
  refine ⟨⟨hi.ref.range, hi.ref.owns, hi.ref.ownsOne, ?_⟩,
    tokOk_takenOut hi.tok hn hr, ⟨?_, ?_⟩, hi.pending, hp⟩
  · intro j hj
    obtain rfl : i = j := by simpa [takenOut] using hj
    have hrange := hi.ref.range i
    simp only [takenOut]
    omega
  · simp only [takenOut, List.length_append, List.length_singleton] at htally ⊢
    omega
  · rw [hlead, hflight]
    have hpend : (s.takenOut i).pending = s.pending := rfl
    rw [hpend]
    push_cast
    omega

theorem minv_next [Fintype ι] (hi : MInv s) {i : Nat} (h : i < N) (hc : s.cons = .scan i)
    (hlow : ¬ 2 ≤ (s.frames ⟨i, h⟩).refcount) : MInv { s with cons := .scan (i + 1) } := by
  have hcons := hi.cons
  rw [ConsOk, hc] at hcons
  obtain ⟨hp, j, hij, hj⟩ := hcons
  have hne : i ≠ j := by
    intro e
    have hslot : (⟨i, h⟩ : Fin N) = j := Fin.ext e
    rw [hslot] at hlow
    exact hlow hj.1
  exact minv_cons hi (by rw [hc]; rfl) (by rw [lead, lead, hc])
    ⟨hp, j, by omega, hj.1, by simp⟩

theorem minv_sub [Fintype ι] (hi : MInv s) {i : Fin N} (hc : s.cons = .found i) :
    MInv { s with cons := .leave i, pending := s.pending - 1 } := by
  have ht : (MpConsPc.leave i : MpConsPc N).taken = s.cons.taken := by rw [hc]; rfl
  have hr : ∀ j, (Ready { s with cons := .leave i, pending := s.pending - 1 } j) ↔ s.Ready j :=
    ready_congr rfl ht
  have hp : 1 ≤ s.pending := by have h := hi.cons; rwa [ConsOk, hc] at h
  have hpd := hi.count.pending
  have hlead : s.lead = 1 := by rw [lead, hc]
  refine ⟨hi.ref.congr rfl (fun _ _ h => h) ht,
    hi.tok.congr hr (fun _ _ => rfl) rfl rfl rfl, ⟨?_, ?_⟩, ?_, trivial⟩
  · rw [tally_congr hr]
    exact hi.count.enqueued
  · rw [tally_congr hr]
    have hflight : tally (InFlight { s with cons := .leave i, pending := s.pending - 1 }) =
      tally s.InFlight := tally_congr fun _ => Iff.rfl
    rw [hflight]
    simp only [lead]
    omega
  · simp only
    omega

theorem released_ready {i : Fin N} (hc : s.cons = .holds i) (j : Fin N) :
    Ready { s with cons := .idle, frames := setRef s.frames i 0 } j ↔ s.Ready j := by
  have htk : s.cons.taken = some i := by rw [hc]; rfl
  by_cases hj : j = i
  · subst hj
    simp [Ready, htk]
  · simp [Ready, setRef_of_ne _ hj, htk, Ne.symm hj]

theorem minv_release [Fintype ι] (hi : MInv s) {i : Fin N} (hc : s.cons = .holds i) :
    MInv { s with cons := .idle, frames := setRef s.frames i 0 } := by
  have htk : s.cons.taken = some i := by rw [hc]; rfl
  have hr := released_ready hc
  have h2 := hi.ref.taken i htk
  refine ⟨⟨?_, ?_, hi.ref.ownsOne, fun j hj => by cases hj⟩,
    hi.tok.congr hr (fun _ _ => setRef_body _) rfl rfl rfl,
    hi.count.congr hr (fun _ => Iff.rfl) rfl ?_ rfl rfl, hi.pending, trivial⟩
  · intro j
    by_cases hj : j = i
    · subst hj; exact .inl (setRef_refcount_self _)
    · simpa only [setRef_of_ne _ hj] using hi.ref.range j
  · intro q j hq
    have h1 := hi.ref.owns q j hq
    have hne : j ≠ i := by rintro rfl; omega
    simpa only [setRef_of_ne _ hne] using h1
  · rw [lead, lead, hc]

/-! ## All labels -/

theorem step_minv [DecidableEq ι] [Fintype ι] {a : MpLabel ι β} (hi : MInv s)
    (h : step s a = some s') : MInv s' := by
  cases a with
  | acquire p | lock p | signal p | unlock p =>
    simp only [step] at h
    split at h
    · cases h
      exact minv_setProd hi (fun _ => by simp) (by simp [InFlight, *])
    · cases h
  | acqCas p =>
    simp only [step] at h
    split at h
    · rename_i i heq
      have hfl : ¬ s.InFlight p := by simp [InFlight, heq]
      split at h
      · split at h <;> cases h
        · exact minv_acquired hi hfl ‹_›
        · exact minv_setProd hi (fun _ => by simp) (by simpa using hfl)
      · cases h
        exact minv_setProd hi (fun _ => by simp) (by simpa using hfl)
    · cases h
  | fill p x =>
    simp only [step] at h
    split at h
    · cases h
      exact minv_fill hi ‹_›
    · cases h
  | mark p =>
    simp only [step] at h
    split at h
    · cases h
      exact minv_mark hi ‹_›
    · cases h
  | post p =>
    simp only [step] at h
    split at h
    · cases h
      exact minv_post hi ‹_›
    · cases h
  | deqLock | deqWake =>
    simp only [step] at h
    split at h
    · rename_i heq _
      cases h
      exact minv_cons hi (by rw [heq]; rfl) (by rw [lead, lead, heq]) trivial
    · cases h
  | deqLoadPending =>
    simp only [step] at h
    split at h
    · rename_i heq
      split at h <;> cases h
      · exact minv_cons hi (by rw [heq]; rfl) (by rw [lead, lead, heq]) trivial
      · obtain ⟨hp, j, hj⟩ := exists_ready hi (by rw [lead, heq]) ‹_›
        exact minv_cons hi (by rw [heq]; rfl) (by rw [lead, lead, heq])
          ⟨hp, j, Nat.zero_le _, hj.1, by simp⟩
    · cases h
  | deqLoadRef =>
    simp only [step] at h
    split at h
    · rename_i i heq
      have hc := hi.cons
      rw [ConsOk, heq] at hc
      split at h
      · split at h <;> cases h
        · exact minv_found hi (by rw [heq]; rfl) (by rw [lead, heq]) hc.1 ‹_›
        · exact minv_next hi ‹_› heq ‹_›
      · -- the loop is over: the slot that is ready cannot lie beyond it
        obtain ⟨-, j, hij, -⟩ := hc
        exact absurd (hij.trans_lt j.isLt) ‹_›
    · cases h
  | deqSub =>
    simp only [step] at h
    split at h
    · cases h
      exact minv_sub hi ‹_›
    · rename_i heq
      have hc := hi.cons
      rw [ConsOk, heq] at hc
      exact hc.elim
    · cases h
  | deqUnlock =>
    simp only [step] at h
    split at h
    · rename_i i heq
      cases h
      exact minv_cons hi (by rw [heq]; rfl) (by rw [lead, lead, heq]) trivial
    · rename_i heq
      have hc := hi.cons
      rw [ConsOk, heq] at hc
      exact hc.elim
    · cases h
  | release =>
    simp only [step] at h
    split at h
    · cases h
      exact minv_release hi ‹_›
    · cases h

theorem run_minv [DecidableEq ι] [Fintype ι] {body : Fin N → β} {as : List (MpLabel ι β)}
    (hr : run step (init body) as = some s) : MInv s :=
  run_invariant (fun _ _ _ => step_minv) (minv_init body) hr

end Mpsc
end Pool
end BuildingBlocks
