import BuildingBlocks.Pool.MpscStep

/-!
# BuildingBlocks.Pool.MpscOrder

The order of deliveries. `bb_pool_mp_dequeue` takes the first ready slot its scan meets, whatever
was enqueued first, so slots are reused out of order: `order_lost` is a run of one producer and a
pool of two frames in which the third frame overtakes the second.

The order is kept in every run in which slots happen to agree with it (`KeepsOrder`): whenever a
producer marks a frame ready, its frames that are still ready lie in lower slots, and the scan that
is under way has not passed one of them without having passed the new one.
-/

namespace BuildingBlocks
namespace Pool
namespace Mpsc

open Lib

variable {ι β : Type*} {N : Nat} {s s' : Mpsc ι β N}

/-- Entry `t` of the history was enqueued by `p`. -/
def By (s : Mpsc ι β N) (p : ι) (t : Nat) : Prop := (s.enqueued[t]?).map Prod.fst = some p

instance [DecidableEq ι] (s : Mpsc ι β N) (p : ι) (t : Nat) : Decidable (s.By p t) :=
  inferInstanceAs (Decidable (_ = _))

theorem By.lt {p : ι} {t : Nat} (h : s.By p t) : t < s.enqueued.length := by
  obtain ⟨x, hx, -⟩ := Option.map_eq_some_iff.mp h
  exact (List.getElem?_eq_some_iff.mp hx).1

/-- Frames of one producer are delivered in the order in which it enqueued them: no later frame
comes out before an earlier one, and none comes out while an earlier one is still waiting. -/
structure Ordered (s : Mpsc ι β N) : Prop where
  sorted : s.delivered.Pairwise fun d d' => ∀ p, s.By p d.1 → s.By p d'.1 → d.1 < d'.1
  noGap : ∀ p t t', t < t' → s.By p t → s.By p t' → t' ∈ s.delivered.map Prod.fst →
    t ∈ s.delivered.map Prod.fst

/-- The scan of `bb_pool_mp_dequeue` that is under way has passed slot `i`. -/
def Passed (s : Mpsc ι β N) (i : Fin N) : Prop :=
  match s.cons with
  | .scan k => i < k
  | _ => False

instance (s : Mpsc ι β N) : DecidablePred s.Passed := by
  intro i
  unfold Passed
  split <;> infer_instance

/-- A frame in slot `i` comes out before a frame in slot `j`, as the scan now stands. -/
def Ahead (s : Mpsc ι β N) (i j : Fin N) : Prop := i < j ∧ (s.Passed i → s.Passed j)

/-- The condition on a step: a frame is marked ready only behind its producer's ready frames. -/
def KeepsOrder (s : Mpsc ι β N) : MpLabel ι β → Prop
  | .mark p => ∀ j, s.prod p = .owns j → ∀ i, s.Ready i → s.By p (s.tok i) → s.Ahead i j
  | _ => True

instance (s : Mpsc ι β N) (i j : Fin N) : Decidable (s.Ahead i j) :=
  inferInstanceAs (Decidable (_ ∧ (_ → _)))

instance [DecidableEq ι] (s : Mpsc ι β N) : ∀ a : MpLabel ι β, Decidable (s.KeepsOrder a)
  | .mark p => inferInstanceAs (Decidable (∀ j, s.prod p = .owns j → ∀ i, s.Ready i →
      s.By p (s.tok i) → s.Ahead i j))
  | .acquire _ | .acqCas _ | .fill _ _ | .lock _ | .post _ | .signal _ | .unlock _ | .deqLock
  | .deqLoadPending | .deqWake | .deqLoadRef | .deqSub | .deqUnlock | .release => .isTrue trivial

/-- The ready frames of one producer stand in slot order. -/
structure OrderInv (s : Mpsc ι β N) : Prop where
  slots : ∀ p i j, s.Ready i → s.Ready j → s.By p (s.tok i) → s.By p (s.tok j) →
    s.tok i < s.tok j → s.Ahead i j
  ordered : Ordered s

theorem orderInv_init (body : Fin N → β) : OrderInv (init body : Mpsc ι β N) where
  slots _ i _ hi := by simp [Ready, init] at hi
  ordered := ⟨List.Pairwise.nil, fun _ _ _ _ _ _ h => by simp [init] at h⟩

theorem Ordered.congr (h : Ordered s) (he : s'.enqueued = s.enqueued)
    (hd : s'.delivered = s.delivered) : Ordered s' := by
  have hby : ∀ p t, s'.By p t ↔ s.By p t := fun p t => by rw [By, By, he]
  refine ⟨?_, ?_⟩
  · rw [hd]
    exact h.sorted.imp fun hlt p h1 h2 => hlt p ((hby p _).mp h1) ((hby p _).mp h2)
  · intro p t t' hlt ht ht' hm
    rw [hd] at hm ⊢
    exact h.noGap p t t' hlt ((hby p t).mp ht) ((hby p t').mp ht') hm

/-- Nothing was enqueued, delivered or taken, and the scan only moves past slots that are not
ready. -/
theorem OrderInv.congr (h : OrderInv s) (hr : ∀ i, s'.Ready i ↔ s.Ready i) (ht : s'.tok = s.tok)
    (he : s'.enqueued = s.enqueued) (hd : s'.delivered = s.delivered)
    (hp : ∀ i j, s.Ready i → i < j → (s.Passed i → s.Passed j) → s'.Passed i → s'.Passed j) :
    OrderInv s' where
  slots p i j hi hj hpi hpj hlt := by
    rw [By, he, ht] at hpi hpj
    rw [ht] at hlt
    have ha := h.slots p i j ((hr i).mp hi) ((hr j).mp hj) hpi hpj hlt
    exact ⟨ha.1, hp i j ((hr i).mp hi) ha.1 ha.2⟩
  ordered := h.ordered.congr he hd

theorem passed_of_not_scan (hc : ∀ k, s.cons ≠ .scan k) (i : Fin N) : ¬ s.Passed i := by
  unfold Passed
  split
  · rename_i k heq; exact absurd heq (hc k)
  · exact not_false

theorem orderInv_found (h : OrderInv s) (ht : TokOk s) {i : Fin N} (hc : s.cons = .scan i)
    (h2 : 2 ≤ (s.frames i).refcount) : OrderInv (s.takenOut i) := by
  have hn : s.cons.taken = none := by rw [hc]; rfl
  have hri : s.Ready i := ⟨h2, by simp [hn]⟩
  have hready := fun j => takenOut_ready (s := s) (i := i) (j := j) hn
  have hnew : (s.takenOut i).delivered.map Prod.fst =
      s.delivered.map Prod.fst ++ [s.tok i] := by simp [takenOut]
  -- an older frame of the same producer cannot be ready: the scan would have met it first
  have holder : ∀ p t, t < s.tok i → s.By p t → s.By p (s.tok i) →
      t ∈ s.delivered.map Prod.fst := by
    intro p t hlt hpt hpi
    rcases ht.all t hpt.lt with hm | ⟨j, hj, rfl⟩
    · exact hm
    · obtain ⟨hji, hpass⟩ := h.slots p j i hj hri hpt hpi hlt
      simp only [Passed, hc] at hpass
      exact absurd (hpass hji) (lt_irrefl _)
  refine ⟨?_, ?_, ?_⟩
  · intro p j k hj hk hpj hpk hlt
    have ha := h.slots p j k ((hready j).mp hj).1 ((hready k).mp hk).1 hpj hpk hlt
    exact ⟨ha.1, fun hp => absurd hp (passed_of_not_scan (fun _ => by simp [takenOut]) j)⟩
  · rw [takenOut, List.pairwise_append]
    refine ⟨h.ordered.sorted, List.pairwise_singleton _ _, ?_⟩
    intro d hd e he p hpd hpe
    obtain rfl : e = (s.tok i, (s.frames i).body) := by simpa using he
    have hdm : d.1 ∈ s.delivered.map Prod.fst := List.mem_map_of_mem hd
    rcases lt_trichotomy d.1 (s.tok i) with hlt | heq | hgt
    · exact hlt
    · exact absurd (heq ▸ hdm) (ht.fresh i hri)
    · exact absurd (h.ordered.noGap p _ _ hgt hpe hpd hdm) (ht.fresh i hri)
  · intro p t t' hlt hpt hpt' hm
    rw [hnew, List.mem_append] at hm ⊢
    rcases hm with hm | hm
    · exact .inl (h.ordered.noGap p t t' hlt hpt hpt' hm)
    · obtain rfl : t' = s.tok i := by simpa using hm
      exact .inl (holder p t hlt hpt hpt')

variable [DecidableEq ι]

theorem orderInv_mark (h : OrderInv s) (ht : TokOk s) {p : ι} {i : Fin N}
    (hp : s.prod p = .owns i) (hk : s.KeepsOrder (.mark p)) : OrderInv (s.marked p i) := by
  have hself : (s.marked p i).tok i = s.enqueued.length := by simp [marked]
  have hother : ∀ j, j ≠ i → (s.marked p i).tok j = s.tok j := by
    intro j hj
    simp [marked, hj]
  have hr := fun j (hj : j ≠ i) => marked_ready_of_ne (s := s) (p := p) hj
  -- old entries keep their producer, the new one is `p`'s
  have hby : ∀ q t, t < s.enqueued.length → ((s.marked p i).By q t ↔ s.By q t) := by
    intro q t hlt
    simp [By, marked, List.getElem?_append_left hlt]
  have hbyNew : ∀ q, (s.marked p i).By q s.enqueued.length → q = p := by
    intro q hq
    simpa [By, marked, eq_comm] using hq
  have hlt := fun j (hj : s.Ready j) => ht.ready_lt hj
  refine ⟨?_, ?_, ?_⟩
  · intro q j k hj hk' hqj hqk hjk
    by_cases hji : j = i <;> by_cases hki : k = i
    · subst hji hki
      exact absurd hjk (lt_irrefl _)
    · -- the new entry is not below an old one
      subst hji
      rw [hself, hother k hki] at hjk
      exact absurd hjk (hlt k ((hr k hki).mp hk')).le.not_gt
    · subst hki
      have hjr := (hr j hji).mp hj
      rw [hself] at hqk
      rw [hother j hji, hby q _ (hlt j hjr)] at hqj
      obtain rfl := hbyNew q hqk
      exact hk k hp j hjr hqj
    · have hjr := (hr j hji).mp hj
      have hkr := (hr k hki).mp hk'
      rw [hother j hji, hby q _ (hlt j hjr)] at hqj
      rw [hother k hki, hby q _ (hlt k hkr)] at hqk
      rw [hother j hji, hother k hki] at hjk
      exact h.slots q j k hjr hkr hqj hqk hjk
  · refine h.ordered.sorted.imp_of_mem ?_
    intro d d' hd hd' hlt q h1 h2
    exact hlt q ((hby q _ (ht.delivered_lt (List.mem_map_of_mem hd))).mp h1)
      ((hby q _ (ht.delivered_lt (List.mem_map_of_mem hd'))).mp h2)
  · intro q t t' htt' hqt hqt' hm
    have hlt' := ht.delivered_lt hm
    exact h.ordered.noGap q t t' htt' ((hby q t (htt'.trans hlt')).mp hqt)
      ((hby q t' hlt').mp hqt') hm

/-- Every label but the mark and the end of a scan leaves the order alone. -/
theorem step_orderInv [Fintype ι] {a : MpLabel ι β} (hi : MInv s) (h : OrderInv s)
    (hk : s.KeepsOrder a) (hs : step s a = some s') : OrderInv s' := by
  cases a with
  | mark p =>
    simp only [step] at hs
    split at hs
    · cases hs
      exact orderInv_mark h hi.tok ‹_› hk
    · cases hs
  | acqCas p =>
    simp only [step] at hs
    split at hs
    · rename_i i heq
      split at hs
      · split at hs <;> cases hs
        · exact h.congr (acquired_ready ‹_›) rfl rfl rfl fun _ _ _ _ hp => hp
        · exact h.congr (fun _ => Iff.rfl) rfl rfl rfl fun _ _ _ _ hp => hp
      · cases hs
        exact h.congr (fun _ => Iff.rfl) rfl rfl rfl fun _ _ _ _ hp => hp
    · cases hs
  | fill p x =>
    simp only [step] at hs
    split at hs
    · cases hs
      exact h.congr (fun _ => by simp [Ready]) rfl rfl rfl fun _ _ _ _ hp => hp
    · cases hs
  | deqLoadRef =>
    simp only [step] at hs
    split at hs
    · rename_i i heq
      split at hs
      · rename_i hiN
        split at hs <;> cases hs
        · exact orderInv_found h hi.tok heq ‹_›
        · -- slot `i` is passed, and it was not ready
          rename_i hlow
          refine h.congr (ready_congr rfl (by rw [heq]; rfl)) rfl rfl rfl
            fun j k hj hjk hp hpass => ?_
          simp only [Passed, heq] at hp hpass ⊢
          rcases Nat.lt_succ_iff_lt_or_eq.mp hpass with hlt | hji
          · exact (hp hlt).trans (Nat.lt_succ_self i)
          · have hji' : j = ⟨i, hiN⟩ := Fin.ext hji
            subst hji'
            exact absurd hj.1 hlow
      · cases hs
        exact h.congr (ready_congr rfl (by rw [heq]; rfl)) rfl rfl rfl
          fun _ _ _ _ _ hp => absurd hp (passed_of_not_scan (fun _ => by simp) _)
    · cases hs
  | deqLoadPending =>
    simp only [step] at hs
    split at hs
    · rename_i heq
      split at hs <;> cases hs
      · exact h.congr (ready_congr rfl (by rw [heq]; rfl)) rfl rfl rfl
          fun _ _ _ _ _ hp => absurd hp (passed_of_not_scan (fun _ => by simp) _)
      · refine h.congr (ready_congr rfl (by rw [heq]; rfl)) rfl rfl rfl fun j _ _ _ _ hp => ?_
        simp only [Passed] at hp
        exact absurd hp (Nat.not_lt_zero _)
    · cases hs
  | release =>
    simp only [step] at hs
    split at hs
    · rename_i i heq
      cases hs
      exact h.congr (released_ready heq) rfl rfl rfl
        fun _ _ _ _ _ hp => absurd hp (passed_of_not_scan (fun _ => by simp) _)
    · cases hs
  | acquire p | lock p | post p | signal p | unlock p =>
    simp only [step] at hs
    split at hs
    · cases hs
      exact h.congr (fun _ => Iff.rfl) rfl rfl rfl fun _ _ _ _ hp => hp
    · cases hs
  | deqLock | deqWake =>
    simp only [step] at hs
    split at hs
    · rename_i heq _
      cases hs
      exact h.congr (ready_congr rfl (by rw [heq]; rfl)) rfl rfl rfl
        fun _ _ _ _ _ hp => absurd hp (passed_of_not_scan (fun _ => by simp) _)
    · cases hs
  | deqSub | deqUnlock =>
    simp only [step] at hs
    split at hs
    · rename_i heq
      cases hs
      exact h.congr (ready_congr rfl (by rw [heq]; rfl)) rfl rfl rfl
        fun _ _ _ _ _ hp => absurd hp (passed_of_not_scan (fun _ => by simp) _)
    · rename_i heq
      cases hs
      exact h.congr (ready_congr rfl (by rw [heq]; rfl)) rfl rfl rfl
        fun _ _ _ _ _ hp => absurd hp (passed_of_not_scan (fun _ => by simp) _)
    · cases hs

/-- **Order, where slots agree with it.** In every state of every run whose steps all meet
`KeepsOrder`, the frames of one producer have come out in the order in which it enqueued them. -/
theorem mp_ordered [Fintype ι] {body : Fin N → β} {as : List (MpLabel ι β)}
    (hm : Meets step KeepsOrder (init body) as) (hr : run step (init body) as = some s) :
    Ordered s :=
  (run_invariant_of_meets (I := fun t => MInv t ∧ OrderInv t)
    (fun _ _ _ hi hk hs => ⟨step_minv hi.1 hs, step_orderInv hi.1 hi.2 hk hs⟩)
    ⟨minv_init body, orderInv_init body⟩ hm hr).2.ordered

/-- Producer 0 acquires the first free slot, after `busy` slots that are not, and enqueues `x`. -/
def produce (busy : Nat) (x : Nat) : List (MpLabel (Fin 1) Nat) :=
  .acquire 0 :: List.replicate (busy + 1) (.acqCas 0) ++
    [.fill 0 x, .mark 0, .lock 0, .post 0, .signal 0, .unlock 0]

/-- The consumer takes the frame that its scan meets after `low` slots that are not ready. -/
def consume (low : Nat) : List (MpLabel (Fin 1) Nat) :=
  [.deqLock, .deqLoadPending] ++ List.replicate (low + 1) .deqLoadRef ++
    [.deqSub, .deqUnlock, .release]

theorem mp_ordered_two :
    ∃ s : Mpsc (Fin 1) Nat 2, run step (init fun _ => 0)
        (produce 0 10 ++ produce 1 11 ++ consume 0 ++ consume 1) = some s ∧
      s.delivered = [(0, 10), (1, 11)] ∧ Ordered s := by
  obtain ⟨s, hs, hd⟩ : ∃ s : Mpsc (Fin 1) Nat 2, run step (init fun _ => 0)
      (produce 0 10 ++ produce 1 11 ++ consume 0 ++ consume 1) = some s ∧
      s.delivered = [(0, 10), (1, 11)] := ⟨_, rfl, rfl⟩
  exact ⟨s, hs, hd, mp_ordered (by decide) hs⟩

/-- One producer, two slots: the third frame reuses slot 0 and is delivered before the second. -/
theorem order_lost :
    ∃ s : Mpsc (Fin 1) Nat 2, run step (init fun _ => 0)
        (produce 0 10 ++ produce 1 11 ++ consume 0 ++ produce 0 12 ++ consume 0 ++ consume 1) =
          some s ∧
      s.enqueued = [(0, 10), (0, 11), (0, 12)] ∧
      s.delivered = [(0, 10), (2, 12), (1, 11)] ∧ ¬ Ordered s := by
  obtain ⟨s, hs, he, hd⟩ : ∃ s : Mpsc (Fin 1) Nat 2, run step (init fun _ => 0)
      (produce 0 10 ++ produce 1 11 ++ consume 0 ++ produce 0 12 ++ consume 0 ++ consume 1) =
        some s ∧ s.enqueued = [(0, 10), (0, 11), (0, 12)] ∧
      s.delivered = [(0, 10), (2, 12), (1, 11)] := ⟨_, rfl, rfl, rfl⟩
  refine ⟨s, hs, he, hd, fun h => ?_⟩
  have hsorted := h.sorted
  rw [hd] at hsorted
  simp [By, he] at hsorted

end Mpsc
end Pool
end BuildingBlocks
