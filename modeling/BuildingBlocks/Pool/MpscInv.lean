import BuildingBlocks.Pool.Mpsc

/-!
# BuildingBlocks.Pool.MpscInv

The invariant of the mutex-protected pool, over every interleaving of any number of producers and
the consumer.

* `RefOk`: the reference count says who has the frame. 1 is one producer's, 2 is ready or taken.
* `TokOk`: the ready frames and the delivered ones are together exactly what was enqueued.
* `CountOk`: `mp_pending` counts the ready frames whose enqueue has been posted. A consumer can take
  a frame whose enqueue is still in flight, so `mp_pending` trails by the enqueues in flight and
  leads by the frame between its scan and its decrement.
* `ConsOk`: while the consumer scans, some slot it has not passed is ready. Nobody but the consumer
  takes ready frames away, so the scan always ends on one.
-/

namespace BuildingBlocks
namespace Pool
namespace Mpsc

open Lib

variable {ι β : Type*} {N : Nat} {s s' : Mpsc ι β N}

structure RefOk (s : Mpsc ι β N) : Prop where
  range : ∀ i, (s.frames i).refcount = 0 ∨ (s.frames i).refcount = 1 ∨ (s.frames i).refcount = 2
  owns : ∀ p i, s.prod p = .owns i → (s.frames i).refcount = 1
  ownsOne : ∀ p q i, s.prod p = .owns i → s.prod q = .owns i → p = q
  taken : ∀ i, s.cons.taken = some i → (s.frames i).refcount = 2

structure TokOk (s : Mpsc ι β N) : Prop where
  ready : ∀ i, s.Ready i → ∃ p, s.enqueued[s.tok i]? = some (p, (s.frames i).body)
  fresh : ∀ i, s.Ready i → s.tok i ∉ s.delivered.map Prod.fst
  one : ∀ i j, s.Ready i → s.Ready j → s.tok i = s.tok j → i = j
  once : (s.delivered.map Prod.fst).Nodup
  known : ∀ t x, (t, x) ∈ s.delivered → ∃ p, s.enqueued[t]? = some (p, x)
  all : ∀ t, t < s.enqueued.length →
    t ∈ s.delivered.map Prod.fst ∨ ∃ i, s.Ready i ∧ s.tok i = t

/-- The consumer has taken a frame that `mp_pending` still counts. -/
def lead (s : Mpsc ι β N) : Nat :=
  match s.cons with
  | .found _ => 1
  | _ => 0

theorem TokOk.ready_lt (h : TokOk s) {i : Fin N} (hi : s.Ready i) :
    s.tok i < s.enqueued.length := by
  obtain ⟨p, hp⟩ := h.ready i hi
  exact (List.getElem?_eq_some_iff.mp hp).1

theorem TokOk.delivered_lt (h : TokOk s) {t : Nat} (ht : t ∈ s.delivered.map Prod.fst) :
    t < s.enqueued.length := by
  obtain ⟨⟨t, x⟩, hm, rfl⟩ := List.mem_map.mp ht
  obtain ⟨p, hp⟩ := h.known t x hm
  exact (List.getElem?_eq_some_iff.mp hp).1

structure CountOk [Fintype ι] (s : Mpsc ι β N) : Prop where
  enqueued : s.enqueued.length = s.delivered.length + tally s.Ready
  pending : s.pending + tally s.InFlight = tally s.Ready + s.lead

def ConsOk (s : Mpsc ι β N) : Prop :=
  match s.cons with
  | .scan i => 1 ≤ s.pending ∧ ∃ j : Fin N, i ≤ j ∧ s.Ready j
  | .found _ => 1 ≤ s.pending
  | .missed | .missedLeave => False
  | _ => True

structure MInv [Fintype ι] (s : Mpsc ι β N) : Prop where
  ref : RefOk s
  tok : TokOk s
  count : CountOk s
  pending : 0 ≤ s.pending
  cons : ConsOk s

theorem minv_init [Fintype ι] (body : Fin N → β) : MInv (init body : Mpsc ι β N) := by
  have hr : ∀ i, ¬ (init body : Mpsc ι β N).Ready i := by
    intro i h
    simp [Ready, init] at h
  have hf : ∀ p, ¬ (init body : Mpsc ι β N).InFlight p := by
    intro p h
    simp [InFlight, init] at h
  refine ⟨⟨fun i => .inl rfl, ?_, ?_, ?_⟩, ⟨?_, ?_, ?_, List.nodup_nil, ?_, ?_⟩, ⟨?_, ?_⟩, le_rfl,
    trivial⟩
  · intro p i h; cases h
  · intro p q i h; cases h
  · intro i h; cases h
  · intro i h; exact absurd h (hr i)
  · intro i h; exact absurd h (hr i)
  · intro i j h; exact absurd h (hr i)
  · intro t x h; cases h
  · intro t h; cases h
  · rw [tally_eq_zero hr]; rfl
  · rw [tally_eq_zero hr, tally_eq_zero hf]; rfl

/-! ## What a step may leave alone -/

theorem ready_congr (hf : s'.frames = s.frames) (ht : s'.cons.taken = s.cons.taken) (i : Fin N) :
    s'.Ready i ↔ s.Ready i := by rw [Ready, Ready, hf, ht]

theorem RefOk.congr (h : RefOk s) (hf : s'.frames = s.frames)
    (ho : ∀ p i, s'.prod p = .owns i → s.prod p = .owns i) (ht : s'.cons.taken = s.cons.taken) :
    RefOk s' where
  range i := by rw [hf]; exact h.range i
  owns p i hp := by rw [hf]; exact h.owns p i (ho p i hp)
  ownsOne p q i hp hq := h.ownsOne p q i (ho p i hp) (ho q i hq)
  taken i hi := by rw [hf]; exact h.taken i (ht ▸ hi)

theorem TokOk.congr (h : TokOk s) (hr : ∀ i, s'.Ready i ↔ s.Ready i)
    (hb : ∀ i, s.Ready i → (s'.frames i).body = (s.frames i).body) (ht : s'.tok = s.tok)
    (he : s'.enqueued = s.enqueued) (hd : s'.delivered = s.delivered) : TokOk s' where
  ready i hi := by rw [ht, he, hb i ((hr i).mp hi)]; exact h.ready i ((hr i).mp hi)
  fresh i hi := by rw [ht, hd]; exact h.fresh i ((hr i).mp hi)
  one i j hi hj hij := h.one i j ((hr i).mp hi) ((hr j).mp hj) (by rwa [ht] at hij)
  once := by rw [hd]; exact h.once
  known t x hx := by rw [he]; exact h.known t x (hd ▸ hx)
  all t htl := by
    rw [he] at htl
    rw [hd, ht]
    exact (h.all t htl).imp_right fun ⟨i, hi, hit⟩ => ⟨i, (hr i).mpr hi, hit⟩

theorem CountOk.congr [Fintype ι] (h : CountOk s) (hr : ∀ i, s'.Ready i ↔ s.Ready i)
    (hi : ∀ p, s'.InFlight p ↔ s.InFlight p) (hp : s'.pending = s.pending) (hl : s'.lead = s.lead)
    (he : s'.enqueued = s.enqueued) (hd : s'.delivered = s.delivered) : CountOk s' where
  enqueued := by rw [he, hd, tally_congr hr]; exact h.enqueued
  pending := by rw [hp, hl, tally_congr hr, tally_congr hi]; exact h.pending

/-- The consumer's knowledge survives a producer's step: ready frames stay ready and `mp_pending`
does not fall. -/
theorem ConsOk.transfer (h : ConsOk s) (hc : s'.cons = s.cons) (hp : s.pending ≤ s'.pending)
    (hr : ∀ i, s.Ready i → s'.Ready i) : ConsOk s' := by
  unfold ConsOk at h ⊢
  rw [hc]
  cases heq : s.cons with
  | scan i =>
    rw [heq] at h
    obtain ⟨h1, j, hj, hjr⟩ := h
    exact ⟨h1.trans hp, j, hj, hr j hjr⟩
  | found i => rw [heq] at h; exact le_trans h hp
  | missed => rw [heq] at h; exact h
  | missedLeave => rw [heq] at h; exact h
  | _ => trivial

/-- Whoever owns a frame owns it alone: it is neither ready nor taken. -/
theorem RefOk.not_ready_of_owns (h : RefOk s) {p : ι} {i : Fin N} (hp : s.prod p = .owns i) :
    ¬ s.Ready i := by
  intro hr
  have h1 := h.owns p i hp
  have h2 := hr.1
  omega

theorem RefOk.not_taken_of_owns (h : RefOk s) {p : ι} {i : Fin N} (hp : s.prod p = .owns i) :
    s.cons.taken ≠ some i := by
  intro ht
  have h1 := h.owns p i hp
  have h2 := h.taken i ht
  omega

/-! ## The producers' steps -/

theorem minv_fill [Fintype ι] (hi : MInv s) {p : ι} {i : Fin N} (hp : s.prod p = .owns i) {x : β} :
    MInv { s with frames := setBody s.frames i x } := by
  have hr : ∀ j, (Ready { s with frames := setBody s.frames i x } j) ↔ s.Ready j := by
    intro j
    simp [Ready]
  refine ⟨⟨fun j => by simpa using hi.ref.range j, fun q j h => by simpa using hi.ref.owns q j h,
    hi.ref.ownsOne, fun j h => by simpa using hi.ref.taken j h⟩,
    hi.tok.congr hr (fun j hj => ?_) rfl rfl rfl,
    hi.count.congr hr (fun _ => Iff.rfl) rfl rfl rfl rfl, hi.pending,
    hi.cons.transfer rfl le_rfl fun j h => (hr j).mpr h⟩
  have hne : j ≠ i := by rintro rfl; exact hi.ref.not_ready_of_owns hp hj
  simp only [setBody_of_ne _ hne]

variable [DecidableEq ι] {p : ι} {i : Fin N}

theorem setProd_owns {q : ι} {pc : MpProdPc N} (hpc : ∀ i, pc ≠ .owns i)
    (h : (s.setProd p pc).prod q = .owns i) : s.prod q = .owns i := by
  by_cases hq : q = p
  · subst hq
    simp only [setProd, Function.update_self] at h
    exact absurd h (hpc i)
  · simpa [setProd, hq] using h

theorem setProd_inFlight {pc : MpProdPc N}
    (h : (pc = .marked ∨ pc = .locked) ↔ s.InFlight p) (q : ι) :
    (s.setProd p pc).InFlight q ↔ s.InFlight q := by
  by_cases hq : q = p
  · subst hq
    simpa [InFlight, setProd] using h
  · simp [InFlight, setProd, hq]

theorem setProd_inFlight_of_ne {q : ι} {pc : MpProdPc N} (hq : q ≠ p) :
    (s.setProd p pc).InFlight q ↔ s.InFlight q := by simp [InFlight, setProd, hq]

theorem acquired_ready (h0 : (s.frames i).refcount = 0) (j : Fin N) :
    Ready { s.setProd p (.owns i) with frames := setRef s.frames i 1 } j ↔ s.Ready j := by
  by_cases hj : j = i
  · subst hj
    simp [Ready, h0]
  · simp only [Ready, setRef_of_ne _ hj]
    rfl

/-- The state after `atomic_fetch_add(&f->refcount, 1)` in `bb_pool_mp_enqueue`. -/
def marked (s : Mpsc ι β N) (p : ι) (i : Fin N) : Mpsc ι β N :=
  { s.setProd p .marked with
    frames := addRef s.frames i
    tok := Function.update s.tok i s.enqueued.length
    enqueued := s.enqueued ++ [(p, (s.frames i).body)] }

theorem marked_ready_self (hi : RefOk s) (hp : s.prod p = .owns i) : (s.marked p i).Ready i := by
  have h1 := hi.owns p i hp
  exact ⟨by simp [marked, addRef, h1], hi.not_taken_of_owns hp⟩

theorem marked_ready_of_ne {j : Fin N} (hj : j ≠ i) : (s.marked p i).Ready j ↔ s.Ready j := by
  simp only [Ready, marked, addRef, setRef_of_ne _ hj]; rfl

theorem refOk_marked (hi : RefOk s) (hp : s.prod p = .owns i) : RefOk (s.marked p i) := by
  have h1 := hi.owns p i hp
  have hown : ∀ q j, (s.marked p i).prod q = .owns j → j ≠ i ∧ s.prod q = .owns j := by
    intro q j hq
    have hq' : s.prod q = .owns j := setProd_owns (fun _ => by simp) hq
    refine ⟨?_, hq'⟩
    rintro rfl
    obtain rfl := hi.ownsOne q p j hq' hp
    simp [marked, setProd] at hq
  refine ⟨?_, ?_, ?_, ?_⟩
  · intro j
    by_cases hj : j = i
    · subst hj; exact .inr (.inr (by simp [marked, addRef, h1]))
    · simpa only [marked, addRef, setRef_of_ne _ hj] using hi.range j
  · intro q j hq
    obtain ⟨hj, hq⟩ := hown q j hq
    simpa only [marked, addRef, setRef_of_ne _ hj] using hi.owns q j hq
  · intro q q' j hq hq'
    exact hi.ownsOne q q' j (hown q j hq).2 (hown q' j hq').2
  · intro j hj
    have hne : j ≠ i := by rintro rfl; exact hi.not_taken_of_owns hp hj
    simpa only [marked, addRef, setRef_of_ne _ hne] using hi.taken j hj

theorem tokOk_marked (hi : RefOk s) (ht : TokOk s) (hp : s.prod p = .owns i) :
    TokOk (s.marked p i) := by
  -- entries of delivered and of ready frames lie below the new entry
  have hlt := fun j (hj : s.Ready j) => ht.ready_lt hj
  have hself : (s.marked p i).tok i = s.enqueued.length := by simp [marked]
  have hother : ∀ j, j ≠ i → (s.marked p i).tok j = s.tok j := by
    intro j hj
    simp [marked, hj]
  have hr := fun j (hj : j ≠ i) => marked_ready_of_ne (s := s) (p := p) hj
  refine ⟨?_, ?_, ?_, ht.once, ?_, ?_⟩
  · intro j hj
    by_cases hji : j = i
    · subst hji
      exact ⟨p, by simp [marked, addRef]⟩
    · obtain ⟨q, hq⟩ := ht.ready j ((hr j hji).mp hj)
      refine ⟨q, ?_⟩
      rw [hother j hji]
      simpa [marked, addRef, List.getElem?_append_left (hlt j ((hr j hji).mp hj))] using hq
  · intro j hj
    by_cases hji : j = i
    · subst hji
      rw [hself]
      intro h
      exact absurd (ht.delivered_lt h) (lt_irrefl _)
    · rw [hother j hji]
      exact ht.fresh j ((hr j hji).mp hj)
  · intro j k hj hk hjk
    by_cases hji : j = i <;> by_cases hki : k = i
    · rw [hji, hki]
    · subst hji
      rw [hself, hother k hki] at hjk
      have := hlt k ((hr k hki).mp hk)
      omega
    · subst hki
      rw [hself, hother j hji] at hjk
      have := hlt j ((hr j hji).mp hj)
      omega
    · rw [hother j hji, hother k hki] at hjk
      exact ht.one j k ((hr j hji).mp hj) ((hr k hki).mp hk) hjk
  · intro t x h
    obtain ⟨q, hq⟩ := ht.known t x h
    have hlen := (List.getElem?_eq_some_iff.mp hq).1
    exact ⟨q, by simpa [marked, List.getElem?_append_left hlen] using hq⟩
  · intro t h
    have hle : t < s.enqueued.length + 1 := by simpa [marked] using h
    rcases Nat.lt_succ_iff_lt_or_eq.mp hle with h | rfl
    · refine (ht.all t h).imp_right fun ⟨j, hj, hjt⟩ => ?_
      have hji : j ≠ i := by rintro rfl; exact hi.not_ready_of_owns hp hj
      exact ⟨j, (hr j hji).mpr hj, by rw [hother j hji]; exact hjt⟩
    · exact .inr ⟨i, marked_ready_self hi hp, hself⟩

variable [Fintype ι]

theorem minv_setProd (hi : MInv s) {pc : MpProdPc N} (hpc : ∀ i, pc ≠ .owns i)
    (hfl : (pc = .marked ∨ pc = .locked) ↔ s.InFlight p) {m : Option (MpOwner ι)} :
    MInv { s.setProd p pc with mutex := m } where
  ref := hi.ref.congr rfl (fun _ _ h => setProd_owns hpc h) rfl
  tok := hi.tok.congr (fun _ => Iff.rfl) (fun _ _ => rfl) rfl rfl rfl
  count := hi.count.congr (fun _ => Iff.rfl) (setProd_inFlight hfl) rfl rfl rfl rfl
  pending := hi.pending
  cons := hi.cons.transfer rfl le_rfl fun _ h => h

/-- The CAS of `bb_pool_mp_acquire` succeeds on a free frame. -/
theorem minv_acquired (hi : MInv s) (hfl : ¬ s.InFlight p)
    (h0 : (s.frames i).refcount = 0) :
    MInv { s.setProd p (.owns i) with frames := setRef s.frames i 1 } := by
  have hr := acquired_ready (p := p) h0
  have hown : ∀ q j, (s.setProd p (.owns i)).prod q = .owns j →
      q = p ∧ j = i ∨ q ≠ p ∧ j ≠ i ∧ s.prod q = .owns j := by
    intro q j hq
    by_cases hqp : q = p
    · subst hqp
      simp only [setProd, Function.update_self, MpProdPc.owns.injEq] at hq
      exact .inl ⟨rfl, hq.symm⟩
    · have hq' : s.prod q = .owns j := by simpa [setProd, hqp] using hq
      refine .inr ⟨hqp, ?_, hq'⟩
      rintro rfl
      have := hi.ref.owns q j hq'
      omega
  refine ⟨⟨?_, ?_, ?_, ?_⟩, hi.tok.congr hr (fun _ _ => setRef_body _) rfl rfl rfl,
    hi.count.congr hr (setProd_inFlight (by simpa using hfl)) rfl rfl rfl rfl, hi.pending,
    hi.cons.transfer rfl le_rfl fun j h => (hr j).mpr h⟩
  · intro j
    by_cases hj : j = i
    · subst hj; exact .inr (.inl (setRef_refcount_self _))
    · simpa only [setRef_of_ne _ hj] using hi.ref.range j
  · intro q j hq
    rcases hown q j hq with ⟨-, rfl⟩ | ⟨-, hj, hq⟩
    · exact setRef_refcount_self _
    · simpa only [setRef_of_ne _ hj] using hi.ref.owns q j hq
  · intro q q' j hq hq'
    rcases hown q j hq with ⟨rfl, rfl⟩ | ⟨-, hj, hq⟩ <;>
      rcases hown q' _ hq' with ⟨rfl, h⟩ | ⟨-, hj', hq'⟩
    · rfl
    · exact absurd rfl hj'
    · exact absurd h hj
    · exact hi.ref.ownsOne q q' j hq hq'
  · intro j hj
    have ht := hi.ref.taken j hj
    have hne : j ≠ i := by rintro rfl; omega
    simpa only [setRef_of_ne _ hne] using ht

theorem minv_mark (hi : MInv s) (hp : s.prod p = .owns i) : MInv (s.marked p i) := by
  have hready : tally (s.marked p i).Ready = tally s.Ready + 1 :=
    tally_insert (hi.ref.not_ready_of_owns hp) (marked_ready_self hi.ref hp)
      fun j hj => marked_ready_of_ne hj
  have hflight : tally (s.marked p i).InFlight = tally s.InFlight + 1 :=
    tally_insert (i := p) (by simp [InFlight, hp]) (.inl (by simp [marked, setProd]))
      fun q hq => show (s.setProd p .marked).InFlight q ↔ _ from setProd_inFlight_of_ne hq
  have he := hi.count.enqueued
  have hpd := hi.count.pending
  refine ⟨refOk_marked hi.ref hp, tokOk_marked hi.ref hi.tok hp, ⟨?_, ?_⟩, hi.pending,
    hi.cons.transfer rfl le_rfl fun j h => ?_⟩
  · rw [hready]
    have hdel : (s.marked p i).delivered = s.delivered := rfl
    rw [hdel]
    simp only [marked, List.length_append, List.length_singleton]
    omega
  · rw [hready, hflight]
    have hlead : (s.marked p i).lead = s.lead := rfl
    have hpend : (s.marked p i).pending = s.pending := rfl
    rw [hlead, hpend]
    push_cast
    omega
  · by_cases hj : j = i
    · subst hj; exact marked_ready_self hi.ref hp
    · exact (marked_ready_of_ne hj).mpr h

theorem minv_post (hi : MInv s) (hp : s.prod p = .locked) :
    MInv { s.setProd p .posted with pending := s.pending + 1 } := by
  have hflight : tally s.InFlight = tally (s.setProd p .posted).InFlight + 1 :=
    tally_insert (i := p) (by simp [InFlight, setProd]) (.inr hp)
      fun q hq => (setProd_inFlight_of_ne hq).symm
  have hpd := hi.count.pending
  refine ⟨hi.ref.congr rfl (fun _ _ h => setProd_owns (fun _ => by simp) h) rfl,
    hi.tok.congr (fun _ => Iff.rfl) (fun _ _ => rfl) rfl rfl rfl, ⟨hi.count.enqueued, ?_⟩,
    by have := hi.pending; simp only; omega, hi.cons.transfer rfl (by simp) fun _ h => h⟩
  rw [hflight] at hpd
  push_cast at hpd
  have hI : tally (Mpsc.InFlight { s.setProd p .posted with pending := s.pending + 1 }) =
    tally (s.setProd p .posted).InFlight := rfl
  have hR : tally (Mpsc.Ready { s.setProd p .posted with pending := s.pending + 1 }) =
    tally s.Ready := rfl
  have hL : lead { s.setProd p .posted with pending := s.pending + 1 } = s.lead := rfl
  rw [hI, hR, hL]
  simp only
  omega

end Mpsc
end Pool
end BuildingBlocks
