import BuildingBlocks.Pool.SpscInv

/-!
# BuildingBlocks.Pool.SpscWrap

The indices of the lock-free pool over runs of any length.

* `Counted` holds in every run: `write_idx` wraps around, `read_idx` never does, because
  `bb_pool_sp_dequeue` compares the two as they are and finds nothing below the wrapped one.
* `Survives` is what the indices are for; `survives_iff` says that they serve for fewer than
  `2 ^ 31` commits, and in no state behind them.
-/

namespace BuildingBlocks
namespace Pool
namespace Spsc

open Lib

variable {β : Type*} {count : Nat} {s s' : Spsc β}

/-! ## Wrapping indices -/

theorem int32_add_one (x : Int) : int32 (int32 x + 1) = int32 (x + 1) := Int.bmod_add_bmod

theorem int32_sub (x y : Int) : int32 (int32 x - y) = int32 (x - y) := Int.bmod_sub_bmod

/-- The first half of the values behind `2 ^ 31` wrap to negative ones. -/
theorem int32_neg {x : Int} (hlo : 2 ^ 31 ≤ x) (hhi : x < 2 ^ 32) : int32 x < 0 := by
  have hwrap : int32 x = int32 (x - 2 ^ 32) := by
    have h := Int.sub_mul_bmod_self_left x (2 ^ 32) 1
    simpa [int32] using h.symm
  rw [hwrap, int32_eq (by omega) (by omega)]
  omega

/-- The slots of the first `n` commits. -/
def slots (count n : Nat) : List Int := (List.range n).map (fun k : Nat => slot count (int32 k))

theorem slots_succ (count n : Nat) :
    slots count (n + 1) = slots count n ++ [slot count (int32 n)] := by
  rw [slots, List.range_succ, List.map_append]
  rfl

theorem length_slots (count n : Nat) : (slots count n).length = n := by
  rw [slots, List.length_map, List.length_range]

theorem slots_prefix {m n : Nat} (h : m ≤ n) : slots count m <+: slots count n := by
  induction n with
  | zero =>
    rw [Nat.le_zero.mp h]
  | succ n ih =>
    rcases Nat.lt_succ_iff_lt_or_eq.mp (Nat.lt_succ_of_le h) with hlt | rfl
    · rw [slots_succ]
      exact (ih (Nat.le_of_lt_succ hlt)).trans (List.prefix_append _ _)
    · exact List.prefix_rfl

/-! ## The invariant of every run -/

/-- The producer's locals: `write_idx` is its own, and the ring has room for the frame it is after.
-/
def ProdCounted (count : Nat) (s : Spsc β) : Prop :=
  match s.prod with
  | .idle => True
  | .acqWrite w => w = s.writeIdx
  | .acqSlot idx | .owns idx =>
    idx = slot count s.writeIdx ∧ s.committed.length < s.delivered.length + count

/-- The consumer's locals: it goes on only below an index that was not wrapped. -/
def ConsCounted (count : Nat) (s : Spsc β) : Prop :=
  match s.cons with
  | .idle => True
  | .deqWrite w _ => w ≤ s.committed.length ∧ w < 2 ^ 31
  | .deqSlot idx _ | .deqTake idx =>
    idx = slot count s.readIdx ∧ s.delivered.length < s.committed.length ∧
      s.delivered.length + 1 < 2 ^ 31

structure Counted (count : Nat) (s : Spsc β) : Prop where
  write : s.writeIdx = int32 s.committed.length
  read : s.readIdx = s.delivered.length
  low : s.delivered.length < 2 ^ 31
  le : s.delivered.length ≤ s.committed.length
  cap : s.committed.length ≤ s.delivered.length + count
  committed : s.committed.map Prod.fst = slots count s.committed.length
  delivered : s.delivered.map Prod.fst = slots count s.delivered.length
  prod : ProdCounted count s
  cons : ConsCounted count s

theorem counted_init (body : Int → β) : Counted count (init body) where
  write := by simp [init, int32]
  read := rfl
  low := by simp [init]
  le := le_rfl
  cap := Nat.zero_le _
  committed := rfl
  delivered := rfl
  prod := trivial
  cons := trivial

/-- Only frames and the consumer's hands change. -/
theorem Counted.congr (hi : Counted count s) (hw : s'.writeIdx = s.writeIdx)
    (hr : s'.readIdx = s.readIdx) (hc : s'.committed = s.committed)
    (hd : s'.delivered = s.delivered) (hp : ProdCounted count s') (hcons : ConsCounted count s') :
    Counted count s' where
  write := by rw [hw, hc]; exact hi.write
  read := by rw [hr, hd]; exact hi.read
  low := by rw [hd]; exact hi.low
  le := by rw [hc, hd]; exact hi.le
  cap := by rw [hc, hd]; exact hi.cap
  committed := by rw [hc]; exact hi.committed
  delivered := by rw [hd]; exact hi.delivered
  prod := hp
  cons := hcons

/-- The full test is right in every run: it takes the difference. -/
theorem Counted.full_iff (hi : Counted count s) (hcount : count < 2 ^ 31) :
    full count s.writeIdx s.readIdx ↔ count ≤ s.committed.length - s.delivered.length := by
  have hle := hi.le
  have hcap := hi.cap
  rw [full, hi.write, hi.read, int32_sub, int32_eq (by omega) (by omega)]
  omega

theorem Counted.commit (hi : Counted count s) {idx : Int} {x : β} (hp : s.prod = .owns idx) :
    Counted count { s with
      writeIdx := int32 (s.writeIdx + 1)
      prod := .idle
      committed := s.committed ++ [(idx, x)] } := by
  have hprod := hi.prod
  rw [ProdCounted, hp] at hprod
  obtain ⟨hidx, hroom⟩ := hprod
  refine { hi with
    write := ?_
    le := ?_
    cap := ?_
    committed := ?_
    prod := trivial
    cons := ?_ }
  · rw [hi.write, int32_add_one]
    simp
  · have hle := hi.le
    simp only [List.length_append, List.length_singleton]
    omega
  · simp only [List.length_append, List.length_singleton]
    omega
  · rw [List.map_append, List.length_append, List.length_singleton, slots_succ, hi.committed,
      ← hi.write]
    simp [hidx]
  · have hcons := hi.cons
    unfold ConsCounted at hcons ⊢
    cases hc : s.cons with
    | idle => trivial
    | deqWrite w n =>
      simp only [hc] at hcons
      refine ⟨?_, hcons.2⟩
      simp only [List.length_append, List.length_singleton]
      omega
    | deqSlot idx' n | deqTake idx' =>
      simp only [hc] at hcons
      refine ⟨hcons.1, ?_, hcons.2.2⟩
      simp only [List.length_append, List.length_singleton]
      omega

theorem Counted.advance (hi : Counted count s) {idx : Int} {x : β} (hc : s.cons = .deqTake idx) :
    Counted count { s with
      readIdx := int32 (s.readIdx + 1)
      cons := .idle
      held := s.held ++ [idx]
      delivered := s.delivered ++ [(idx, x)] } := by
  have hcons := hi.cons
  rw [ConsCounted, hc] at hcons
  obtain ⟨hidx, hlt, hlow⟩ := hcons
  have hread : int32 (s.delivered.length : Int) = s.delivered.length :=
    int32_eq (by omega) (by omega)
  refine { hi with
    read := ?_
    low := ?_
    le := ?_
    cap := ?_
    delivered := ?_
    prod := ?_
    cons := trivial }
  · rw [hi.read, int32_eq (by omega) (by omega)]
    simp
  · simpa using hlow
  · simpa using Nat.succ_le_of_lt hlt
  · have hcap := hi.cap
    simp only [List.length_append, List.length_singleton]
    omega
  · rw [List.map_append, List.length_append, List.length_singleton, slots_succ, hi.delivered, hread,
      ← hi.read]
    simp [hidx]
  · have hprod := hi.prod
    unfold ProdCounted at hprod ⊢
    cases hp : s.prod with
    | idle => trivial
    | acqWrite w => simpa [hp] using hprod
    | acqSlot idx' | owns idx' =>
      simp only [hp] at hprod
      refine ⟨hprod.1, ?_⟩
      simp only [List.length_append, List.length_singleton]
      omega

theorem step_counted (hcount : count < 2 ^ 31) {a : SpLabel β} (hi : Counted count s)
    (h : step count s a = some s') : Counted count s' := by
  have hprod := hi.prod
  have hcons := hi.cons
  cases a with
  | acqLoadWrite =>
    simp only [step] at h
    split at h <;> cases h
    exact hi.congr rfl rfl rfl rfl rfl hi.cons
  | acqLoadRead =>
    simp only [step] at h
    split at h
    · rename_i w hpc
      rw [ProdCounted, hpc] at hprod
      split at h <;> cases h
      · exact hi.congr rfl rfl rfl rfl trivial hi.cons
      · rename_i hfull
        rw [hprod, hi.full_iff hcount] at hfull
        have hle := hi.le
        exact hi.congr rfl rfl rfl rfl ⟨by rw [hprod], by simp only; omega⟩ hi.cons
    · cases h
  | acqCas =>
    simp only [step] at h
    split at h
    · rename_i idx hpc
      rw [ProdCounted, hpc] at hprod
      split at h <;> cases h
      · exact hi.congr rfl rfl rfl rfl hprod hi.cons
      · exact hi.congr rfl rfl rfl rfl trivial hi.cons
    · cases h
  | fill x =>
    simp only [step] at h
    split at h <;> cases h
    exact hi.congr rfl rfl rfl rfl hi.prod hi.cons
  | commit =>
    simp only [step] at h
    split at h <;> cases h
    exact hi.commit ‹_›
  | abandon =>
    simp only [step] at h
    split at h <;> cases h
    exact hi.congr rfl rfl rfl rfl trivial hi.cons
  | deqLoadWrite =>
    simp only [step] at h
    split at h <;> cases h
    have hle : int32 s.committed.length ≤ s.committed.length := by
      by_cases hlt : (s.committed.length : Int) < 2 ^ 31
      · rw [int32_eq (by omega) hlt]
      · have hmax := Int.bmod_lt (x := (s.committed.length : Int)) (m := 2 ^ 32) (by decide)
        unfold int32
        omega
    have hmax := Int.bmod_lt (x := (s.committed.length : Int)) (m := 2 ^ 32) (by decide)
    refine hi.congr rfl rfl rfl rfl hi.prod ⟨by rw [hi.write]; exact hle, ?_⟩
    rw [hi.write]
    unfold int32
    omega
  | deqLoadRead =>
    simp only [step] at h
    split at h
    · rename_i w n hpc
      rw [ConsCounted, hpc] at hcons
      split at h <;> cases h
      · exact hi.congr rfl rfl rfl rfl hi.prod trivial
      · rename_i hempty
        rw [empty, hi.read] at hempty
        exact hi.congr rfl rfl rfl rfl hi.prod ⟨rfl, by simp only; omega, by simp only; omega⟩
    · cases h
  | deqLoadRef =>
    simp only [step] at h
    split at h
    · rename_i idx n hpc
      rw [ConsCounted, hpc] at hcons
      split at h <;> cases h
      · exact hi.congr rfl rfl rfl rfl hi.prod trivial
      · exact hi.congr rfl rfl rfl rfl hi.prod hcons
    · cases h
  | deqAdvance =>
    simp only [step] at h
    split at h <;> cases h
    exact hi.advance ‹_›
  | release idx =>
    simp only [step] at h
    split at h
    · split at h <;> cases h
      exact hi.congr rfl rfl rfl rfl hi.prod hi.cons
    · cases h

theorem run_counted (hcount : count < 2 ^ 31) {as : List (SpLabel β)} {body : Int → β}
    (hr : run (step count) (init body) as = some s) : Counted count s :=
  run_invariant (fun _ _ _ hi h => step_counted hcount hi h) (counted_init body) hr

/-! ## What the indices are for -/

/-- The frames committed and not yet dequeued. -/
def undelivered (s : Spsc β) : Nat := s.committed.length - s.delivered.length

/-- The slots are those of the ring, the tests agree with the number of undelivered frames, and the
commits went round the ring. -/
structure Survives (count : Nat) (s : Spsc β) : Prop where
  acquireSlot : 0 ≤ slot count s.writeIdx ∧ slot count s.writeIdx < count
  dequeueSlot : 0 ≤ slot count s.readIdx ∧ slot count s.readIdx < count
  full : full count s.writeIdx s.readIdx ↔ count ≤ undelivered s
  empty : empty s.writeIdx s.readIdx ↔ undelivered s = 0
  consecutive : ∀ k (i j : Int), (s.committed.map Prod.fst)[k]? = some i →
    (s.committed.map Prod.fst)[k + 1]? = some j → j = (i + 1) % count

theorem slot_bounds (hpos : 1 ≤ count) (k : Nat) : 0 ≤ slot count k ∧ slot count k < count := by
  rw [slot_natCast]
  exact ⟨by omega, by exact_mod_cast Nat.mod_lt k hpos⟩

theorem slots_getElem? {n k : Nat} {i : Int} (hn : n ≤ 2 ^ 31) (h : (slots count n)[k]? = some i) :
    i = (k % count : Nat) := by
  obtain ⟨hk, rfl⟩ := List.getElem?_eq_some_iff.mp h
  rw [length_slots] at hk
  simp only [slots, List.getElem_map, List.getElem_range]
  rw [int32_eq (by omega) (by omega), slot_natCast]

theorem Counted.survives (hi : Counted count s) (hpos : 1 ≤ count) (hcount : count < 2 ^ 31)
    (hlt : s.committed.length < 2 ^ 31) : Survives count s := by
  have hwrite : s.writeIdx = s.committed.length := by
    rw [hi.write, int32_eq (by omega) (by omega)]
  refine ⟨?_, ?_, hi.full_iff hcount, ?_, ?_⟩
  · rw [hwrite]
    exact slot_bounds hpos _
  · rw [hi.read]
    exact slot_bounds hpos _
  · rw [Spsc.empty, undelivered, hwrite, hi.read]
    omega
  · intro k i j hk hk'
    rw [hi.committed] at hk hk'
    rw [slots_getElem? hlt.le hk, slots_getElem? hlt.le hk']
    push_cast
    rw [Int.emod_add_emod]

/-- From the commit number `2 ^ 31` on the consumer finds the pool empty for ever. -/
theorem Counted.not_survives (hi : Counted count s) (hcount : count < 2 ^ 31)
    (hge : 2 ^ 31 ≤ s.committed.length) : ¬ Survives count s := by
  intro hs
  have hlow := hi.low
  have hcap := hi.cap
  have hneg : int32 s.committed.length < 0 := int32_neg (by omega) (by omega)
  have hempty : Spsc.empty s.writeIdx s.readIdx := by
    rw [Spsc.empty, hi.write, hi.read]
    omega
  have hzero := hs.empty.mp hempty
  rw [undelivered] at hzero
  omega

/-- **The indices serve for fewer than `2 ^ 31` commits.** In every state of every run of a pool
with at least one frame, the slots lie in the ring, the tests agree with the number of undelivered
frames and the commits used consecutive slots, if and only if there were fewer than `2 ^ 31` of
them. -/
theorem survives_iff (count : Nat) (hpos : 1 ≤ count) (hcount : count < 2 ^ 31) (body : Int → β)
    (as : List (SpLabel β)) (s : Spsc β) (hr : run (step count) (init body) as = some s) :
    Survives count s ↔ s.committed.length < 2 ^ 31 := by
  have hi := run_counted hcount hr
  constructor
  · intro hs
    by_contra hge
    exact hi.not_survives hcount (not_lt.mp hge) hs
  · exact hi.survives hpos hcount

/-! ## A run that long -/

/-- The pool of one frame after `n` frames went through it. -/
structure Passed (n : Nat) (s : Spsc Unit) : Prop where
  write : s.writeIdx = n
  read : s.readIdx = n
  prod : s.prod = .idle
  cons : s.cons = .idle
  held : s.held = []
  free : (s.frames 0).refcount = 0
  committed : s.committed.length = n

/-- One frame goes in. -/
def putIn : List (SpLabel Unit) := [.acqLoadWrite, .acqLoadRead, .acqCas, .commit]

/-- It comes out and is released. -/
def takeOut : List (SpLabel Unit) :=
  [.deqLoadWrite, .deqLoadRead, .deqLoadRef, .deqAdvance, .release 0]

theorem slot_one (w : Int) : slot 1 w = 0 := by
  simp [slot]

/-- The state in between. -/
structure Loaded (n : Nat) (s : Spsc Unit) : Prop where
  write : s.writeIdx = int32 (n + 1)
  read : s.readIdx = n
  prod : s.prod = .idle
  cons : s.cons = .idle
  held : s.held = []
  taken : (s.frames 0).refcount = 1
  committed : s.committed.length = n + 1

theorem Passed.putIn {n : Nat} {s : Spsc Unit} (h : Passed n s) :
    ∃ s', run (step 1) s putIn = some s' ∧ Loaded n s' := by
  have hroom : ¬ Spsc.full 1 (n : Int) n := by
    simp [Spsc.full, int32]
  simp only [Spsc.putIn, run, step, h.prod, h.write, h.read, hroom, slot_one, h.free, if_true,
    if_false, Option.some.injEq, exists_eq_left']
  exact ⟨by simp, rfl, rfl, h.cons, h.held, by simp, by simp [h.committed]⟩

theorem Loaded.takeOut {n : Nat} {s : Spsc Unit} (h : Loaded n s) (hn : n + 1 < 2 ^ 31) :
    ∃ s', run (step 1) s takeOut = some s' ∧ Passed (n + 1) s' := by
  have hwrite : s.writeIdx = ((n + 1 : Nat) : Int) := by
    rw [h.write, int32_eq (by omega) (by omega)]
    rfl
  have hthere : ¬ Spsc.empty ((n + 1 : Nat) : Int) n := by
    simp [Spsc.empty]
  simp only [Spsc.takeOut, run, step, h.cons, hwrite, h.read, hthere, slot_one, h.taken, h.held,
    if_false, List.nil_append, List.mem_singleton, if_true, show ¬ (1 : Int) < 1 by decide,
    Option.some.injEq, exists_eq_left']
  exact ⟨by simp, by simp [int32_eq (show -2 ^ 31 ≤ (n : Int) + 1 by omega) (by omega)], h.prod,
      rfl, by simp, by simp, by simp [h.committed]⟩

theorem exists_passed {n : Nat} (hn : n < 2 ^ 31) :
    ∃ as s, run (step 1) (init fun _ => ()) as = some s ∧ Passed n s := by
  induction n with
  | zero => exact ⟨[], _, rfl, ⟨rfl, rfl, rfl, rfl, rfl, rfl, rfl⟩⟩
  | succ n ih =>
    obtain ⟨as, s, hr, hs⟩ := ih (by omega)
    obtain ⟨s₁, h₁, hs₁⟩ := hs.putIn
    obtain ⟨s₂, h₂, hs₂⟩ := hs₁.takeOut hn
    exact ⟨as ++ (putIn ++ takeOut), s₂, run_append_eq_some.mpr ⟨s, hr, run_append_eq_some.mpr
      ⟨s₁, h₁, h₂⟩⟩, hs₂⟩

/-- The theorem at a run that takes one frame. -/
theorem survives_once :
    ∃ s : Spsc Nat, run (step 1) (init fun _ => 0) [.acqLoadWrite, .acqLoadRead, .acqCas, .commit] =
      some s ∧ Survives 1 s := by
  obtain ⟨s, hs, hc⟩ : ∃ s : Spsc Nat, run (step 1) (init fun _ => 0)
      [.acqLoadWrite, .acqLoadRead, .acqCas, .commit] = some s ∧ s.committed.length = 1 :=
    ⟨_, rfl, rfl⟩
  exact ⟨s, hs, (survives_iff 1 le_rfl (by decide) (fun _ => 0) _ s hs).mpr (by omega)⟩

/-- Commit number `2 ^ 31` of a pool of one frame: the frame is there, and the consumer does not
find it. -/
theorem last_commit_lost :
    ∃ as s, run (step 1) (init fun _ => ()) as = some s ∧ s.committed.length = 2 ^ 31 ∧
      ¬ Survives 1 s := by
  obtain ⟨as, s, hr, hs⟩ := exists_passed (n := 2 ^ 31 - 1) (by decide)
  obtain ⟨s', hr', hs'⟩ := hs.putIn
  have hrun := run_append_eq_some.mpr ⟨s, hr, hr'⟩
  have hlen : s'.committed.length = 2 ^ 31 := hs'.committed
  exact ⟨as ++ putIn, s', hrun, hlen, (run_counted (by decide) hrun).not_survives (by decide)
    hlen.ge⟩

end Spsc
end Pool
end BuildingBlocks
