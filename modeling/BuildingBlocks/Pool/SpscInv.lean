import BuildingBlocks.Pool.Spsc

/-!
# BuildingBlocks.Pool.SpscInv

The invariant of the lock-free pool, over every interleaving with fewer than `2 ^ 31` commits.

* The indices count: `write_idx` commits and `read_idx` deliveries, so neither wraps.
* The frames between the indices (`InQueue`) hold what was committed, in order, with reference
  count 1; so do the frames the consumer holds, and neither set meets the other.
* The producer's locals are current: `write_idx` is written by nobody else, and the consumer only
  moves `read_idx` forward, so a full test that passed on a stale `read_idx` still holds.

`step_inv` is the step lemma, `run_inv` the run lemma.
-/

namespace BuildingBlocks
namespace Pool
namespace Spsc

open Lib

variable {β : Type*} {count : Nat}

theorem slot_natCast (k : Nat) : slot count (k : Int) = ((k % count : Nat) : Int) :=
  (Int.ofNat_tmod k count).symm

theorem slot_ne {r k k' : Nat} (hk : r ≤ k) (hkk' : k < k') (hk' : k' < r + count) :
    slot count (k : Int) ≠ slot count (k' : Int) := by
  intro h
  rw [slot_natCast, slot_natCast] at h
  have := slot_inj hk (by omega) (by omega) hk' (by exact_mod_cast h)
  omega

/-- Index `k` is committed and not yet delivered. -/
def InQueue (s : Spsc β) (k : Nat) : Prop := s.delivered.length ≤ k ∧ k < s.committed.length

/-- The slots of the queue hold what was committed. -/
def QueueOk (count : Nat) (s : Spsc β) : Prop :=
  ∀ k, InQueue s k →
    s.committed[k]? = some (slot count k, (s.frames (slot count k)).body) ∧
      (s.frames (slot count k)).refcount = 1

/-- A frame the consumer holds is not free, is not queued, and still has the content it was
delivered with. -/
def HeldOk (count : Nat) (s : Spsc β) : Prop :=
  ∀ i ∈ s.held, (s.frames i).refcount = 1 ∧ (i, (s.frames i).body) ∈ s.delivered ∧
    ∀ k, InQueue s k → slot count k ≠ i

/-- The producer's next slot, and that the ring has room for it. -/
def NextSlot (count : Nat) (s : Spsc β) (idx : Int) : Prop :=
  idx = slot count s.committed.length ∧ s.committed.length < s.delivered.length + count

def ProdOk (count : Nat) (s : Spsc β) : Prop :=
  match s.prod with
  | .idle => True
  | .acqWrite w => w = s.writeIdx
  | .acqSlot idx => NextSlot count s idx
  | .owns idx => NextSlot count s idx ∧ (s.frames idx).refcount = 1 ∧ idx ∉ s.held

/-- The consumer's locals: `read_idx` is its own, `write_idx` can only have grown. -/
def ConsOk (count : Nat) (s : Spsc β) : Prop :=
  match s.cons with
  | .idle => True
  | .deqWrite w n => w ≤ s.committed.length ∧ w = s.delivered.length + n
  | .deqSlot idx _ => idx = slot count s.delivered.length ∧ InQueue s s.delivered.length
  | .deqTake idx => idx = slot count s.delivered.length ∧ InQueue s s.delivered.length

structure Inv (count : Nat) (s : Spsc β) : Prop where
  write : s.writeIdx = s.committed.length
  read : s.readIdx = s.delivered.length
  le : s.delivered.length ≤ s.committed.length
  cap : s.committed.length ≤ s.delivered.length + count
  queue : QueueOk count s
  heldNodup : s.held.Nodup
  held : HeldOk count s
  prod : ProdOk count s
  cons : ConsOk count s
  nulls : ∀ n ∈ s.nulls, n = 0

theorem inv_init (body : Int → β) : Inv count (init body) where
  write := rfl
  read := rfl
  le := le_rfl
  cap := Nat.zero_le _
  queue k hk := absurd hk.2 (Nat.not_lt_zero k)
  heldNodup := List.nodup_nil
  held _ hi := absurd hi List.not_mem_nil
  prod := trivial
  cons := trivial
  nulls _ hn := absurd hn List.not_mem_nil

/-! ## Frames outside the queue may change -/

section Frames

variable {s s' : Spsc β}

theorem QueueOk.congr (h : QueueOk count s) (hc : s'.committed = s.committed)
    (hd : s'.delivered = s.delivered)
    (hf : ∀ k, InQueue s k → s'.frames (slot count k) = s.frames (slot count k)) :
    QueueOk count s' := by
  intro k hk
  have hk' : InQueue s k := by simpa [InQueue, hc, hd] using hk
  rw [hf k hk', hc]
  exact h k hk'

theorem HeldOk.congr (h : HeldOk count s) (hc : s'.committed = s.committed)
    (hd : s'.delivered = s.delivered) (hh : ∀ i ∈ s'.held, i ∈ s.held)
    (hf : ∀ i ∈ s'.held, s'.frames i = s.frames i) : HeldOk count s' := by
  intro i hi
  obtain ⟨h1, h2, h3⟩ := h i (hh i hi)
  rw [hf i hi, hd]
  exact ⟨h1, h2, fun k hk => h3 k (by simpa [InQueue, hc, hd] using hk)⟩

theorem NextSlot.ne {idx : Int} (h : NextSlot count s idx) {k : Nat} (hk : InQueue s k) :
    slot count k ≠ idx := by
  rw [h.1]
  exact slot_ne hk.1 hk.2 h.2

theorem Inv.not_held_of_free (hi : Inv count s) {i : Int} (h0 : (s.frames i).refcount = 0) :
    i ∉ s.held := by
  intro hm
  have := (hi.held i hm).1
  omega

theorem ProdOk.transfer (h : ProdOk count s) (hp : s'.prod = s.prod)
    (hw : s'.writeIdx = s.writeIdx) (hn : ∀ idx, NextSlot count s idx → NextSlot count s' idx)
    (ho : ∀ idx, NextSlot count s idx → (s.frames idx).refcount = 1 → idx ∉ s.held →
      (s'.frames idx).refcount = 1 ∧ idx ∉ s'.held) : ProdOk count s' := by
  unfold ProdOk at h ⊢
  rw [hp]
  cases heq : s.prod with
  | idle => trivial
  | acqWrite w => rw [heq] at h; simpa [hw] using h
  | acqSlot idx => rw [heq] at h; exact hn idx h
  | owns idx =>
    rw [heq] at h
    exact ⟨hn idx h.1, ho idx h.1 h.2.1 h.2.2⟩

theorem ConsOk.transfer (h : ConsOk count s) (hc : s'.cons = s.cons)
    (hd : s'.delivered = s.delivered) (hle : s.committed.length ≤ s'.committed.length) :
    ConsOk count s' := by
  have hin : InQueue s s.delivered.length → InQueue s' s.delivered.length := by
    intro hq
    exact ⟨by rw [hd], hq.2.trans_le hle⟩
  unfold ConsOk at h ⊢
  rw [hc, hd]
  cases heq : s.cons with
  | idle => trivial
  | deqWrite w n => rw [heq] at h; exact ⟨h.1.trans (by exact_mod_cast hle), h.2⟩
  | deqSlot idx n => rw [heq] at h; exact ⟨h.1, hin h.2⟩
  | deqTake idx => rw [heq] at h; exact ⟨h.1, hin h.2⟩

end Frames

/-! ## The step lemma -/

variable {s s' : Spsc β}

/-- The producer's steps on the frame it is about to own or owns leave the queue and the
consumer's frames alone. -/
theorem inv_prod_frame (hi : Inv count s) {idx : Int} (fs : Int → Frame β) (pc : ProdPc)
    (hn : NextSlot count s idx) (hh : idx ∉ s.held) (hf : ∀ j, j ≠ idx → fs j = s.frames j)
    (hp : ProdOk count { s with frames := fs, prod := pc }) :
    Inv count { s with frames := fs, prod := pc } :=
  { hi with
    queue := hi.queue.congr rfl rfl fun _ hk => hf _ (hn.ne hk)
    held := hi.held.congr rfl rfl (fun _ h => h) fun i h => hf i fun e => hh (e ▸ h)
    prod := hp
    cons := hi.cons }

theorem inv_commit (hi : Inv count s) (hlt : s.committed.length + 1 < 2 ^ 31) {idx : Int}
    (hp : s.prod = .owns idx) :
    Inv count { s with
      writeIdx := int32 (s.writeIdx + 1)
      prod := .idle
      committed := s.committed ++ [(idx, (s.frames idx).body)] } := by
  obtain ⟨⟨hidx, hroom⟩, href, hnh⟩ : NextSlot count s idx ∧ (s.frames idx).refcount = 1 ∧
      idx ∉ s.held := by simpa [ProdOk, hp] using hi.prod
  -- the queue grows by the frame at `committed.length`
  have hq : ∀ k, s.delivered.length ≤ k ∧ k < s.committed.length + 1 →
      InQueue s k ∨ k = s.committed.length := by
    intro k hk
    rcases Nat.lt_succ_iff_lt_or_eq.mp hk.2 with h | h
    · exact .inl ⟨hk.1, h⟩
    · exact .inr h
  refine { hi with
    write := ?_
    le := ?_
    cap := ?_
    queue := ?_
    held := ?_
    prod := trivial
    cons := ?_ }
  · rw [hi.write, int32_eq (by omega) (by omega)]
    simp
  · have := hi.le
    simp only [List.length_append, List.length_singleton]
    omega
  · simp only [List.length_append, List.length_singleton]
    omega
  · intro k hk
    rcases hq k (by simpa [InQueue] using hk) with h | rfl
    · have h2 := h.2
      simpa [List.getElem?_append_left h2] using hi.queue k h
    · simp [← hidx, href]
  · intro i hm
    obtain ⟨h1, h2, h3⟩ := hi.held i hm
    refine ⟨h1, h2, ?_⟩
    intro k hk
    rcases hq k (by simpa [InQueue] using hk) with h | rfl
    · exact h3 k h
    · rintro rfl
      exact hnh (hidx ▸ hm)
  · exact hi.cons.transfer rfl rfl (by simp)

theorem inv_advance (hi : Inv count s) (hlt : s.committed.length < 2 ^ 31) {idx : Int}
    (hc : s.cons = .deqTake idx) :
    Inv count { s with
      readIdx := int32 (s.readIdx + 1)
      cons := .idle
      held := s.held ++ [idx]
      delivered := s.delivered ++ [(idx, (s.frames idx).body)] } := by
  obtain ⟨hidx, hin⟩ : idx = slot count s.delivered.length ∧ InQueue s s.delivered.length := by
    simpa [ConsOk, hc] using hi.cons
  obtain ⟨hcom, href⟩ := hi.queue _ hin
  have hcap := hi.cap
  have hnh : idx ∉ s.held := by
    intro hm
    exact (hi.held idx hm).2.2 _ hin hidx.symm
  have hmono : ∀ k, s.delivered.length + 1 ≤ k ∧ k < s.committed.length →
      InQueue s k ∧ s.delivered.length < k := fun _ hk => ⟨⟨by omega, hk.2⟩, by omega⟩
  refine { hi with
    read := ?_
    le := ?_
    cap := ?_
    queue := ?_
    heldNodup := ?_
    held := ?_
    prod := ?_
    cons := trivial }
  · rw [hi.read, int32_eq (by omega) (by have := hin.2; omega)]
    simp
  · simpa using Nat.succ_le_of_lt hin.2
  · simp only [List.length_append, List.length_singleton]
    omega
  · intro k hk
    exact hi.queue k (hmono k (by simpa [InQueue] using hk)).1
  · rw [List.nodup_append]
    refine ⟨hi.heldNodup, List.nodup_singleton _, ?_⟩
    intro a ha b hb hab
    rw [List.mem_singleton] at hb
    exact hnh (hb ▸ hab ▸ ha)
  · intro i hm
    rcases List.mem_append.mp hm with hm | hm
    · obtain ⟨h1, h2, h3⟩ := hi.held i hm
      exact ⟨h1, List.mem_append_left _ h2, fun k hk =>
        h3 k (hmono k (by simpa [InQueue] using hk)).1⟩
    · rw [List.mem_singleton] at hm
      subst hm
      refine ⟨hidx ▸ href, by simp, ?_⟩
      intro k hk
      obtain ⟨hk', hlt'⟩ := hmono k (by simpa [InQueue] using hk)
      have hkc : k < s.delivered.length + count := by have := hk'.2; omega
      rw [hidx]
      exact (slot_ne le_rfl hlt' hkc).symm
  · refine hi.prod.transfer rfl rfl (fun i h => ⟨h.1, ?_⟩) fun i h href hnm => ⟨href, ?_⟩
    · have := h.2
      simp only [List.length_append, List.length_singleton]
      omega
    · rw [List.mem_append, List.mem_singleton]
      rintro (hm | rfl)
      · exact hnm hm
      · exact slot_ne le_rfl hin.2 h.2 (hidx.symm.trans h.1)

theorem inv_release (hi : Inv count s) {idx : Int} (hm : idx ∈ s.held) :
    Inv count { s with frames := setRef s.frames idx 0, held := s.held.erase idx } := by
  have hne : ∀ i, i ∈ s.held.erase idx → i ≠ idx := by
    rintro i h rfl
    exact hi.heldNodup.not_mem_erase h
  refine { hi with
    queue := ?_
    heldNodup := hi.heldNodup.erase _
    held := ?_
    prod := ?_
    cons := hi.cons }
  · exact hi.queue.congr rfl rfl fun k hk => setRef_of_ne _ ((hi.held idx hm).2.2 k hk)
  · exact hi.held.congr rfl rfl (fun i h => List.mem_of_mem_erase h)
      fun i h => setRef_of_ne _ (hne i h)
  · refine hi.prod.transfer rfl rfl (fun _ h => h) fun i _ href hnm => ⟨?_, fun h =>
      hnm (List.mem_of_mem_erase h)⟩
    have hne' : i ≠ idx := by rintro rfl; exact hnm hm
    simpa [setRef_of_ne _ hne'] using href

/-- The first load of `bb_pool_sp_dequeue` and its two `NULL` returns touch only the consumer's
program counter and the history of `NULL`s. -/
theorem inv_cons (hi : Inv count s) (pc : ConsPc) (ns : List Nat)
    (hc : ConsOk count { s with cons := pc, nulls := ns }) (hn : ∀ n ∈ ns, n = 0) :
    Inv count { s with cons := pc, nulls := ns } :=
  { hi with queue := hi.queue, held := hi.held, prod := hi.prod, cons := hc, nulls := hn }

theorem step_committed_le {a : SpLabel β} (h : step count s a = some s') :
    s.committed.length ≤ s'.committed.length := by
  cases a <;> simp only [step] at h <;> split at h <;> (try split at h) <;> cases h <;> simp

theorem step_inv {a : SpLabel β} (hi : Inv count s) (hlt : s'.committed.length < 2 ^ 31)
    (h : step count s a = some s') : Inv count s' := by
  have hp := hi.prod
  have hc := hi.cons
  have hle := (step_committed_le h).trans_lt hlt
  cases a with
  | acqLoadWrite =>
    simp only [step] at h
    split at h
    · cases h
      exact { hi with queue := hi.queue, held := hi.held, prod := rfl, cons := hi.cons }
    · cases h
  | acqLoadRead =>
    simp only [step] at h
    split at h
    · rename_i w heq
      rw [ProdOk, heq] at hp
      split at h <;> cases h
      · exact { hi with queue := hi.queue, held := hi.held, prod := trivial, cons := hi.cons }
      · rename_i hfull
        have hroom : s.committed.length < s.delivered.length + count := by
          have hle := hi.le
          rw [full, hp, hi.write, hi.read, int32_eq (by omega) (by omega)] at hfull
          omega
        exact { hi with
          queue := hi.queue
          held := hi.held
          prod := ⟨by rw [hp, hi.write], hroom⟩
          cons := hi.cons }
    · cases h
  | acqCas =>
    simp only [step] at h
    split at h
    · rename_i idx heq
      rw [ProdOk, heq] at hp
      split at h <;> cases h
      · have hnh := hi.not_held_of_free ‹_›
        exact inv_prod_frame hi _ _ hp hnh (fun j hj => setRef_of_ne _ hj)
          ⟨hp, setRef_refcount_self _, hnh⟩
      · exact { hi with queue := hi.queue, held := hi.held, prod := trivial, cons := hi.cons }
    · cases h
  | fill x =>
    simp only [step] at h
    split at h
    · rename_i idx heq
      rw [ProdOk, heq] at hp
      cases h
      exact inv_prod_frame hi (setBody s.frames idx x) s.prod hp.1 hp.2.2
        (fun j hj => setBody_of_ne _ hj) (by simpa [ProdOk, heq, NextSlot] using hp)
    · cases h
  | commit =>
    simp only [step] at h
    split at h
    · rename_i idx heq
      cases h
      exact inv_commit hi (by simpa using hlt) heq
    · cases h
  | abandon =>
    simp only [step] at h
    split at h
    · rename_i idx heq
      rw [ProdOk, heq] at hp
      cases h
      exact inv_prod_frame hi _ _ hp.1 hp.2.2 (fun j hj => setRef_of_ne _ hj) trivial
    · cases h
  | deqLoadWrite =>
    simp only [step] at h
    split at h
    · cases h
      have hle := hi.le
      exact inv_cons hi _ s.nulls
        ⟨hi.write.le, by rw [hi.write]; push_cast [hle]; omega⟩ hi.nulls
    · cases h
  | deqLoadRead =>
    simp only [step] at h
    split at h
    · rename_i w n heq
      rw [ConsOk, heq] at hc
      split at h <;> cases h <;> rename_i hemp <;> rw [empty, hi.read] at hemp
      · refine inv_cons hi _ _ trivial ?_
        intro m hm
        rcases List.mem_append.mp hm with hm | hm
        · exact hi.nulls m hm
        · rw [List.mem_singleton] at hm
          omega
      · have hin : InQueue s s.delivered.length := ⟨le_rfl, by omega⟩
        exact inv_cons hi _ s.nulls ⟨by rw [hi.read], hin⟩ hi.nulls
    · cases h
  | deqLoadRef =>
    simp only [step] at h
    split at h
    · rename_i idx n heq
      rw [ConsOk, heq] at hc
      have href := (hi.queue _ hc.2).2
      split at h <;> cases h
      · -- the slot at `read_idx` is committed, so its count is 1
        rename_i hlow
        rw [hc.1] at hlow
        omega
      · exact inv_cons hi _ s.nulls hc hi.nulls
    · cases h
  | deqAdvance =>
    simp only [step] at h
    split at h
    · rename_i idx heq
      cases h
      exact inv_advance hi hle heq
    · cases h
  | release idx =>
    simp only [step] at h
    split at h
    · rename_i heq
      split at h <;> cases h
      exact inv_release hi ‹_›
    · cases h

/-- The bound on the commits, as a condition on steps. -/
def Bounded (count : Nat) (s : Spsc β) (a : SpLabel β) : Prop :=
  ∀ s', step count s a = some s' → s'.committed.length < 2 ^ 31

theorem run_bounded {as : List (SpLabel β)} (hr : run (step count) s as = some s')
    (hlt : s'.committed.length < 2 ^ 31) : Meets (step count) (Bounded count) s as :=
  meets_lt_of_mono (f := fun t : Spsc β => t.committed.length)
    (fun _ _ _ => step_committed_le) hr hlt

theorem run_inv {as : List (SpLabel β)} {body : Int → β}
    (hr : run (step count) (init body) as = some s) (hlt : s.committed.length < 2 ^ 31) :
    Inv count s :=
  run_invariant_of_meets (fun _ _ _ hi hb h => step_inv hi (hb _ h) h) (inv_init body)
    (run_bounded hr hlt) hr

end Spsc
end Pool
end BuildingBlocks
