import BuildingBlocks.Boot.Script

/-!
# BuildingBlocks.Boot.GiveUp

Where the boot script goes when it gives up a slot.

* `givesUp`: a slot whose boots keep failing is given up for its fallback.
* `RollsBack` is the law over all runs in which the new slot is never confirmed.
* From slot a the script falls back to b, from b to recovery and never to a.
-/

namespace BuildingBlocks
namespace Boot

abbrev noneOk : Nat → Bool := fun _ => false

section Run

variable {e : Env} {ok : Nat → Bool} {x : Target} {n : Nat}

@[simp] theorem envAt_recoveryMode : (envAt e ok n).recoveryMode = e.recoveryMode := by
  induction n with
  | zero => rfl
  | succ n ih =>
    simp only [envAt]
    split_ifs <;> simp [Env.confirm, ih]

@[simp] theorem envAt_bootLimit : (envAt e ok n).bootLimit = e.bootLimit := by
  induction n with
  | zero => rfl
  | succ n ih =>
    simp only [envAt]
    split_ifs <;> simp [Env.confirm, ih]

theorem envAt_succ_bootSlot (h : bootAt e ok n = .a) : (envAt e ok (n + 1)).bootSlot = "a" := by
  have hslot : (bootCmd (envAt e ok n)).1.bootSlot = "a" := by
    rw [bootAt, bootCmd_target] at h
    unfold target at h
    split_ifs at h with h1 h2
    exact h2
  simp only [envAt]
  split_ifs <;> exact hslot

theorem bootCmd_slot_a (h : e.bootSlot = "a") : (bootCmd e).2 ≠ .recovery := by
  by_cases hmode : e.recoveryMode = "1"
  · rw [bootCmd_forced hmode]
    split_ifs <;> simp
  · have hslot : e.bootSlot = Target.a.text := h
    by_cases hok : e.bootOk = "0"
    · rcases Int.lt_or_le 1 e.bootAttempt with hleft | hleft
      · simp [bootCmd_retry (by decide) hslot hmode hok hleft]
      · simp [bootCmd_giveUp (by decide) hslot hmode hok hleft, Target.fallback]
    · simp [bootCmd_confirmed (by decide) hslot hmode hok]

/-- With `recovery_mode` set every boot is the same. -/
theorem bootAt_forced (hmode : e.recoveryMode = "1") :
    bootAt e ok n = if e.bootLimit ≤ 1 then .b else .a := by
  rw [bootAt, bootCmd_forced (by simpa using hmode), envAt_bootLimit]
  split_ifs <;> rfl

theorem envAt_add (k : Nat) :
    envAt e ok (n + k) = envAt (envAt e ok n) (fun j => ok (n + j)) k := by
  induction k with
  | zero => rfl
  | succ k ih => rw [← Nat.add_assoc, envAt, envAt, ih]

theorem bootAt_add (k : Nat) :
    bootAt e ok (n + k) = bootAt (envAt e ok n) (fun j => ok (n + j)) k := by
  rw [bootAt, envAt_add, bootAt]

/-- The boots of `e`, none confirmed, are of `x` and then of its fallback. -/
def GivesUp (e : Env) (x : Target) : Prop :=
  ∃ n, (∀ m, m < n → bootAt e noneOk m = x) ∧ bootAt e noneOk n = x.fallback ∧
    (envAt e noneOk (n + 1)).bootSlot = x.fallback.text

theorem GivesUp.cons (hx : (bootCmd e).2 = x) (h : GivesUp (bootCmd e).1 x) : GivesUp e x := by
  have henv : ∀ k, envAt e noneOk (1 + k) = envAt (bootCmd e).1 noneOk k := fun k => envAt_add k
  obtain ⟨n, hbefore, hn, hslot⟩ := h
  refine ⟨1 + n, ?_, ?_, ?_⟩
  · intro m hm
    cases m with
    | zero => exact hx
    | succ m =>
      rw [bootAt, Nat.add_comm, henv]
      exact hbefore m (by omega)
  · rw [bootAt, henv]
    exact hn
  · rw [Nat.add_assoc, henv]
    exact hslot

theorem givesUp_of_failed (hx : x ≠ .recovery) (hslot : e.bootSlot = x.text)
    (hmode : e.recoveryMode ≠ "1") (hok : e.bootOk = "0") : GivesUp e x := by
  generalize hk : e.bootAttempt.toNat = k
  induction k generalizing e with
  | zero =>
    have hb := bootCmd_giveUp hx hslot hmode hok (by omega)
    refine ⟨0, fun m hm => by omega, by simp [bootAt, envAt, hb], ?_⟩
    simp [envAt, hb, Env.resetAttempts]
  | succ k ih =>
    rcases Int.lt_or_le 1 e.bootAttempt with hleft | hleft
    · have hb := bootCmd_retry hx hslot hmode hok hleft
      refine GivesUp.cons (by rw [hb]) ?_
      rw [hb]
      exact ih hslot hmode hok (by simp only; omega)
    · have hb := bootCmd_giveUp hx hslot hmode hok hleft
      refine ⟨0, fun m hm => by omega, by simp [bootAt, envAt, hb], ?_⟩
      simp [envAt, hb, Env.resetAttempts]

theorem givesUp (hx : x ≠ .recovery) (hslot : e.bootSlot = x.text)
    (hmode : e.recoveryMode ≠ "1") : GivesUp e x := by
  by_cases hok : e.bootOk = "0"
  · exact givesUp_of_failed hx hslot hmode hok
  · have hb := bootCmd_confirmed hx hslot hmode hok
    refine GivesUp.cons (by rw [hb]) ?_
    rw [hb]
    exact givesUp_of_failed hx hslot hmode rfl

theorem exists_recovery_of_b (hslot : e.bootSlot = "b") (hmode : e.recoveryMode ≠ "1")
    (hfirst : bootAt e noneOk 0 = .b) :
    ∃ n, bootAt e noneOk n = .b ∧ bootAt e noneOk (n + 1) = .recovery := by
  obtain ⟨n, hbefore, hn, -⟩ := givesUp (x := .b) (by decide) hslot hmode
  cases n with
  | zero =>
    rw [hfirst] at hn
    exact absurd hn (by decide)
  | succ n => exact ⟨n, hbefore n (by omega), hn⟩

theorem exists_recovery_of_a (hslot : e.bootSlot = "a") (hmode : e.recoveryMode ≠ "1") :
    ∃ n, bootAt e noneOk n = .b ∧ bootAt e noneOk (n + 1) = .recovery := by
  obtain ⟨n, -, hn, hslot'⟩ := givesUp (x := .a) (by decide) hslot hmode
  obtain ⟨k, hbefore, hk, -⟩ := givesUp (e := envAt e noneOk (n + 1)) (x := .b) (by decide) hslot'
    (by simpa using hmode)
  have hadd : ∀ j, bootAt e noneOk (n + 1 + j) = bootAt (envAt e noneOk (n + 1)) noneOk j :=
    fun j => bootAt_add j
  cases k with
  | zero => exact ⟨n, hn, (hadd 0).trans hk⟩
  | succ k => exact ⟨n + 1 + k, (hadd k).trans (hbefore k (by omega)), (hadd (k + 1)).trans hk⟩

end Run

/-- In every run from `e` in which no boot of `t` is confirmed, the boot at which the script gives
up `t` is of `s`. -/
def RollsBack (e : Env) (s t : Slot) : Prop :=
  ∀ ok : Nat → Bool, (∀ n, bootAt e ok n = t.target → ok n = false) →
    ∀ n, bootAt e ok n = t.target → bootAt e ok (n + 1) ≠ t.target →
      bootAt e ok (n + 1) = s.target

theorem rollsBack_to_b (e : Env) : RollsBack e .b .a := by
  intro ok _ n hn hne
  have hrec := bootCmd_slot_a (envAt_succ_bootSlot hn)
  change bootAt e ok (n + 1) ≠ .recovery at hrec
  cases hb : bootAt e ok (n + 1) with
  | a => exact absurd hb hne
  | b => rfl
  | recovery => exact absurd hb hrec

theorem rollsBack_forced {e : Env} (hmode : e.recoveryMode = "1") (s t : Slot) :
    RollsBack e s t := by
  intro ok _ n hn hne
  rw [bootAt_forced hmode] at hn hne
  exact absurd hn hne

theorem not_rollsBack_of_recovery {e : Env}
    (h : ∃ n, bootAt e noneOk n = .b ∧ bootAt e noneOk (n + 1) = .recovery) :
    ¬ RollsBack e .a .b := by
  obtain ⟨n, hn, hrec⟩ := h
  intro hroll
  have hback := hroll noneOk (fun _ _ => rfl) n hn (by rw [hrec]; decide)
  rw [hrec] at hback
  exact absurd hback (by decide)

end Boot
end BuildingBlocks
