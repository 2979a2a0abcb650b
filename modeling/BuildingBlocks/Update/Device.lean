import BuildingBlocks.Boot.Recovery
import BuildingBlocks.Boot.Settle
import BuildingBlocks.Lib.Run
import BuildingBlocks.Update.Target

/-!
# BuildingBlocks.Update.Device

A device over its whole life: boots, confirmations, updates, recovery requests and factory resets
in any order.

* `step` joins the boot script, the installer on the command line the script gave to the kernel,
  and the commands that change the boot environment.
* `Kept` is the law: since the last confirmed boot no partition of its slot was formatted or
  mounted.
* `kept_iff` — the law holds in exactly the runs that are `Careful`.
* `comes_back` — then the device comes back to that slot, whatever else fails.
-/

namespace BuildingBlocks
namespace Update

open Boot Lib

/-- `running` is what `booti` started; `lastGood` the slot of the last confirmed boot, if there was
one since the last factory reset, and `touched` the partitions formatted or mounted since. -/
structure Device where
  env : Env
  running : Target
  lastGood : Option Slot
  touched : List Part

inductive Op where
  | boot
  /-- userspace sets `boot_ok` -/
  | confirm
  | install (pkg : Bytes) (r : Results)
  | request (reason : RecoveryReason) (popenOk : Bool) (status : Int)
  | reset (r : ResetResults)

/-- The slot that runs; the recovery system is none. -/
def slot? : Target → Option Slot
  | .a => some .a
  | .b => some .b
  | .recovery => none

def Op.requests : Op → Bool
  | .request _ _ _ => true
  | .boot => false
  | .confirm => false
  | .install _ _ => false
  | .reset _ => false

namespace Device

/-- The first boot. -/
def start (e : Env) : Device :=
  { env := (bootCmd e).1, running := (bootCmd e).2, lastGood := none, touched := [] }

/-- `/proc/cmdline`. -/
def cmdline (d : Device) : Option Bytes := some (ascii d.running.bootargs)

def step (d : Device) : Op → Option Device
  | .boot => some { d with env := (bootCmd d.env).1, running := (bootCmd d.env).2 }
  | .confirm =>
    match slot? d.running with
    | none => none
    | some s => some { d with env := d.env.confirm, lastGood := some s, touched := [] }
  | .install pkg r =>
    let w := (updateInstall .forlinx pkg d.cmdline r (World.start d.env)).2
    some { d with env := w.env, touched := d.touched ++ w.touched }
  | .request reason popenOk status =>
    let sys := (recoveryRequest reason popenOk status { env := d.env, reasonFile := none }).2
    some { d with env := sys.env }
  | .reset r => some { d with env := (factoryReset r d.env).2, lastGood := none, touched := [] }

/-! ## The law and the condition -/

/-- The partitions of slot `s` were left alone. -/
def Untouched (d : Device) (s : Slot) : Prop :=
  Board.bootPart .forlinx s ∉ d.touched ∧ Board.rootfsPart .forlinx s ∉ d.touched

def Kept (d : Device) : Prop := ∀ s ∈ d.lastGood, d.Untouched s

/-- A package for the other slot is taken only by the slot last confirmed, where the recovery system
counts as slot a; a package for a named slot only when the other one was last confirmed. -/
def Careful (d : Device) : Op → Prop
  | .install pkg r => Accepted pkg r → ∀ s ∈ d.lastGood,
      if (pkgManifest pkg r).targetSlot = 0x3d then d.running = .b ↔ s = .b
      else (pkgManifest pkg r).targetSlot = 0x61 ↔ s = .b
  | .boot => True
  | .confirm => True
  | .request _ _ _ => True
  | .reset _ => True

section Install

variable {d d' : Device} {pkg : Bytes} {r : Results} {s : Slot}

/-- What the installer takes for the running slot. -/
theorem currentSlot_cmdline (d : Device) : currentSlot d.cmdline = 0x61 ↔ d.running ≠ .b := by
  unfold cmdline
  cases d.running with
  | a => exact iff_of_true (currentSlot_bootargs .a) (by decide)
  | b =>
    have hb : currentSlot (some (ascii Target.b.bootargs)) = 0x62 := currentSlot_bootargs .b
    exact iff_of_false (by rw [hb]; decide) (by simp)
  | recovery => exact iff_of_true (by decide) (by decide)

theorem avoidsRunning_iff (d : Device) (s : Slot) (c : UInt8) :
    AvoidsRunning s d.cmdline c ↔
      if c = 0x3d then d.running = .b ↔ s = .b else c = 0x61 ↔ s = .b := by
  unfold AvoidsRunning
  split_ifs
  · rw [currentSlot_cmdline]
    cases s <;> simp
  · exact Iff.rfl

/-- The partitions of a slot are its own. -/
theorem own_parts (s t : Slot) :
    (Board.forlinx.bootPart s = Board.forlinx.bootPart t ∨
        Board.forlinx.bootPart s = Board.forlinx.rootfsPart t ↔ s = t) ∧
      (Board.forlinx.rootfsPart s = Board.forlinx.bootPart t ∨
        Board.forlinx.rootfsPart s = Board.forlinx.rootfsPart t ↔ s = t) := by
  cases s <;> cases t <;> decide

/-- An accepted package leaves slot `s` alone exactly when it goes to the other one. -/
theorem untouched_install (hacc : Accepted pkg r) (h : d.Untouched s)
    (hs : d.step (.install pkg r) = some d') :
    d'.Untouched s ↔ AvoidsRunning s d.cmdline (pkgManifest pkg r).targetSlot := by
  have hmem := fun p => mem_touched_updateInstall (p := p) .forlinx d.cmdline d.env hacc
  obtain ⟨hboot, hrootfs⟩ := own_parts s (partSlot (pkgTarget pkg d.cmdline r))
  rw [← partSlot_ne_running_iff, ← pkgTarget]
  cases hs
  simp only [Untouched, List.mem_append, h.1, h.2, false_or, hmem, hboot, hrootfs, and_self]
  exact not_congr eq_comm

theorem untouched_rejected (hacc : ¬ Accepted pkg r) (hs : d.step (.install pkg r) = some d') :
    d' = d := by
  rw [step, updateInstall_rejected _ _ _ hacc] at hs
  cases hs
  simp

end Install

section Run

variable {d d' : Device} {op : Op}

/-- Under the law, an operation keeps it exactly when it is careful. -/
theorem kept_step_iff (h : d.Kept) (hs : d.step op = some d') : d'.Kept ↔ d.Careful op := by
  cases op with
  | install pkg r =>
    by_cases hacc : Accepted pkg r
    · have hgood : d'.lastGood = d.lastGood := by
        cases hs
        rfl
      have heach : ∀ s ∈ d.lastGood, d'.Untouched s ↔
          if (pkgManifest pkg r).targetSlot = 0x3d then d.running = .b ↔ s = .b
          else (pkgManifest pkg r).targetSlot = 0x61 ↔ s = .b := by
        intro s hmem
        rw [untouched_install hacc (h s hmem) hs, avoidsRunning_iff]
      rw [Kept, hgood]
      exact ⟨fun hk _ s hmem => (heach s hmem).mp (hk s hmem),
        fun hc s hmem => (heach s hmem).mpr (hc hacc s hmem)⟩
    · rw [untouched_rejected hacc hs]
      exact iff_of_true h (fun hacc' => absurd hacc' hacc)
  | boot =>
    cases hs
    exact iff_of_true h trivial
  | confirm =>
    simp only [step] at hs
    split at hs
    · cases hs
    · cases hs
      exact iff_of_true (fun s _ => ⟨List.not_mem_nil, List.not_mem_nil⟩) trivial
  | request reason popenOk status =>
    cases hs
    exact iff_of_true h trivial
  | reset r =>
    cases hs
    exact iff_of_true (fun s hmem => nomatch hmem) trivial

theorem step_confirm (hs : d.step .confirm = some d') :
    d'.lastGood = slot? d.running ∧ d'.running = d.running := by
  simp only [step] at hs
  split at hs
  · cases hs
  · rename_i s hslot
    cases hs
    exact ⟨hslot.symm, rfl⟩

theorem kept_start (e : Env) : (start e).Kept := fun _ hmem => nomatch hmem

end Run

/-- **Updates never destroy the system last confirmed.** In a run of boots, confirmations,
installations of any packages with any results, recovery requests and factory resets, the partitions
of the slot last confirmed stay untouched throughout if and only if every accepted package goes to
the other slot: a package for a named slot by its name, where what is not `a` names slot b; one for
the inactive slot because the slot last confirmed installs it, where recovery counts as slot a. A
factory reset forgets the slot last confirmed: until the next confirmation nothing is asked. -/
theorem kept_iff (e : Env) (ops : List Op) (d : Device) (hrun : run step (start e) ops = some d) :
    Meets step (fun d op => ∀ d', d.step op = some d' → d'.Kept) (start e) ops ↔
      Meets step Careful (start e) ops := by
  refine meets_iff_of_invariant (I := Kept) ?_ ?_ (kept_start e) hrun
  · intro d op d' hkept hs
    rw [← kept_step_iff hkept hs]
    constructor
    · intro h
      exact h d' hs
    · intro h d'' hs'
      rw [hs] at hs'
      cases hs'
      exact h
  · intro d op d' hkept hc hs
    exact (kept_step_iff hkept hs).mpr hc

/-- An update under trial: slot a is confirmed and runs, slot b is written and booted. -/
def trial : List Op := [.confirm, .install (samplePkg 0x3d) Results.allOk, .boot]

theorem careful_trial : Meets step Careful (start Env.default) trial := by
  refine ⟨trivial, fun d hd => ⟨?_, fun _ _ => ⟨trivial, fun _ _ => trivial⟩⟩⟩
  have hrunning : (start Env.default).running = .a := by decide
  obtain ⟨hd, hsame⟩ := step_confirm hd
  rw [hrunning] at hd hsame
  intro _ s hs
  obtain rfl : Slot.a = s := by simpa [hd, slot?] using hs
  rw [samplePkg, pkgManifest_header, hsame]
  decide

theorem kept_iff_trial :
    Meets step (fun d op => ∀ d', d.step op = some d' → d'.Kept) (start Env.default) trial :=
  (kept_iff Env.default trial _ rfl).mpr careful_trial

/-! ## The way back -/

/-- The counters stay within those at the start, three and the limit. -/
structure Bounded (e : Env) (d : Device) : Prop where
  limit : d.env.bootLimit = e.bootLimit
  attempt : d.env.bootAttempt ≤ max (max e.bootAttempt 3) e.bootLimit

section Env

variable {e : Env} {d d' : Device} {pkg : Bytes} {r : Results}

/-- The installer leaves the limit and the request alone, and the counter alone or at three. -/
theorem runSetenv_env (r : Results) (cs : List Setenv) (w : World) :
    (runSetenv r cs w).env.bootLimit = w.env.bootLimit ∧
      (runSetenv r cs w).env.recoveryMode = w.env.recoveryMode ∧
      ((runSetenv r cs w).env.bootAttempt = w.env.bootAttempt ∨
        (runSetenv r cs w).env.bootAttempt = 3) := by
  induction cs generalizing w with
  | nil => exact ⟨rfl, rfl, Or.inl rfl⟩
  | cons c cs ih =>
    rw [runSetenv]
    split_ifs
    · obtain ⟨hlim, hmode, hatt⟩ := ih (c.apply w)
      cases c with
      | slot v => exact ⟨hlim, hmode, hatt⟩
      | attempt => exact ⟨hlim, hmode, Or.inr (hatt.elim id id)⟩
      | ok => exact ⟨hlim, hmode, hatt⟩
    · exact ⟨rfl, rfl, Or.inl rfl⟩

theorem install_env (pkg : Bytes) (cmdline : Option Bytes) (r : Results) (w : World) :
    (updateInstall .forlinx pkg cmdline r w).2.env.bootLimit = w.env.bootLimit ∧
      (updateInstall .forlinx pkg cmdline r w).2.env.recoveryMode = w.env.recoveryMode ∧
      ((updateInstall .forlinx pkg cmdline r w).2.env.bootAttempt = w.env.bootAttempt ∨
        (updateInstall .forlinx pkg cmdline r w).2.env.bootAttempt = 3) := by
  by_cases hacc : Accepted pkg r
  · by_cases hx : Extracted r
    · rw [updateInstall_done _ _ _ hacc hx, logUpdate_env, configure]
      have hframe := runSetenv_env r (setenvCalls r.expand (pkgTarget pkg cmdline r))
        ((written .forlinx (pkgTarget pkg cmdline r) r w).run
          (.fwSetenv (pkgTarget pkg cmdline r)))
      have hsame := (sameBoot_written .forlinx (pkgTarget pkg cmdline r) r w).env
      rw [run_env, hsame] at hframe
      exact hframe
    · obtain ⟨-, -, hsame⟩ := updateInstall_failed .forlinx cmdline w hacc hx
      rw [hsame.env]
      exact ⟨rfl, rfl, Or.inl rfl⟩
  · rw [updateInstall_rejected _ _ _ hacc]
    exact ⟨rfl, rfl, Or.inl rfl⟩

/-- The script leaves at most the limit, or the counter it found. -/
theorem bootCmd_bootAttempt_le (e : Env) :
    (bootCmd e).1.bootAttempt ≤ max e.bootAttempt e.bootLimit := by
  by_cases hmode : e.recoveryMode = "1"
  · rw [bootCmd_forced hmode]
    split_ifs
    · exact le_max_right _ _
    · exact le_max_of_le_right (by simp only; omega)
  · have hvalid : ∀ x : Target, x ≠ .recovery → e.bootSlot = x.text →
        (bootCmd e).1.bootAttempt ≤ max e.bootAttempt e.bootLimit := by
      intro x hx hslot
      by_cases hok : e.bootOk = "0"
      · rcases Int.lt_or_le 1 e.bootAttempt with hleft | hleft
        · rw [bootCmd_retry hx hslot hmode hok hleft]
          exact le_max_of_le_left (by simp only; omega)
        · rw [bootCmd_giveUp hx hslot hmode hok hleft]
          exact le_max_right _ _
      · rw [bootCmd_confirmed hx hslot hmode hok]
        exact le_max_right _ _
    by_cases ha : e.bootSlot = "a"
    · exact hvalid .a (by decide) ha
    · by_cases hb : e.bootSlot = "b"
      · exact hvalid .b (by decide) hb
      · rw [bootCmd_invalid_eq ⟨ha, hb⟩ hmode]
        split_ifs
        · exact le_max_right _ _
        · exact le_max_of_le_right (by simp only; omega)

theorem bounded_start (e : Env) : Bounded e (start e) where
  limit := bootCmd_bootLimit e
  attempt := (bootCmd_bootAttempt_le e).trans (max_le_max_right _ (le_max_left _ _))

theorem Bounded.step {op : Op} (h : Bounded e d) (hs : d.step op = some d') : Bounded e d' := by
  obtain ⟨hlim, hatt⟩ := h
  cases op with
  | boot =>
    cases hs
    refine ⟨(bootCmd_bootLimit d.env).trans hlim, (bootCmd_bootAttempt_le d.env).trans ?_⟩
    rw [hlim]
    exact max_le hatt (le_max_right _ _)
  | confirm =>
    simp only [Device.step] at hs
    split at hs
    · cases hs
    · cases hs
      exact ⟨hlim, hatt⟩
  | install pkg r =>
    obtain ⟨hlim', -, hatt'⟩ := install_env pkg d.cmdline r (World.start d.env)
    cases hs
    refine ⟨hlim'.trans hlim, ?_⟩
    rcases hatt' with h | h
    · exact h.le.trans hatt
    · exact h.le.trans (le_max_of_le_left (le_max_right _ _))
  | request reason popenOk status =>
    cases hs
    simp only [recoveryRequest, fwSetRecoveryMode]
    split_ifs <;> exact ⟨hlim, hatt⟩
  | reset r =>
    cases hs
    refine ⟨(factoryReset_bootLimit r d.env).trans hlim, ?_⟩
    rw [factoryReset_bootAttempt]
    split_ifs
    · exact le_max_of_le_left (le_max_right _ _)
    · exact hatt

/-- Only a request sets `recovery_mode`. -/
theorem mode_step {op : Op} (hop : op.requests = false) (hs : d.step op = some d')
    (hmode : d.env.recoveryMode ≠ "1") : d'.env.recoveryMode ≠ "1" := by
  cases op with
  | boot =>
    cases hs
    rwa [bootCmd_recoveryMode]
  | confirm =>
    simp only [Device.step] at hs
    split at hs
    · cases hs
    · cases hs
      exact hmode
  | install pkg r =>
    obtain ⟨-, hsame, -⟩ := install_env pkg d.cmdline r (World.start d.env)
    cases hs
    rwa [hsame]
  | request reason popenOk status => cases hop
  | reset r =>
    cases hs
    simp only [factoryReset]
    split_ifs
    all_goals first | exact hmode | exact (by decide : "0" ≠ "1")

end Env

/-- **The way back.** After every careful run without a request for recovery, from an environment
whose `recovery_mode` is not 1: the partitions of the slot last confirmed since the last factory
reset are untouched; and when from then on its boots succeed and no others do, the device boots that
slot from a bounded number of boots on. Only a limit of less than two attempts shuts slot a out. -/
theorem comes_back (e : Env) (ops : List Op) (d : Device) (hrun : run step (start e) ops = some d)
    (hcareful : Meets step Careful (start e) ops) (hmode : e.recoveryMode ≠ "1")
    (hops : ∀ op ∈ ops, op.requests = false) (s : Slot) (hgood : d.lastGood = some s)
    (hlim : 2 ≤ e.bootLimit ∨ s = .b) :
    d.Untouched s ∧ ∀ ok, OnlyWorks d.env s ok →
      ∀ n, max (max e.bootAttempt.toNat 3) (fresh e + 1) ≤ n → bootAt d.env ok n = s.target := by
  have hkept : d.Kept := run_invariant_of_meets (P := Careful) (I := Kept)
    (fun d op d' hk hc hs => (kept_step_iff hk hs).mpr hc) (kept_start e) hcareful hrun
  have hbound : Bounded e d := run_invariant (I := Bounded e)
    (fun d op d' h hs => h.step hs) (bounded_start e) hrun
  have hmode' : d.env.recoveryMode ≠ "1" :=
    run_invariant_of_meets (P := fun _ op => op.requests = false)
      (I := fun d => d.env.recoveryMode ≠ "1") (fun d op d' hd hop hs => mode_step hop hs hd)
      (show (bootCmd e).1.recoveryMode ≠ "1" by rwa [bootCmd_recoveryMode])
      (meets_of_forall hops) hrun
  refine ⟨hkept s hgood, ?_⟩
  intro ok hworks n hn
  refine settles (by rwa [hbound.limit]) hmode' hworks ?_
  have hatt := hbound.attempt
  have hfresh : fresh d.env = fresh e := by rw [fresh, fresh, hbound.limit]
  have hlimit : e.bootLimit ≤ fresh e := by
    unfold fresh
    omega
  omega

theorem comes_back_trial :
    ∃ d, run step (start Env.default) trial = some d ∧ d.Untouched .a :=
  ⟨_, rfl, (comes_back Env.default trial _ rfl careful_trial (by decide)
    (by simp [trial, Op.requests]) .a rfl (Or.inl (by decide))).1⟩

end Device

end Update
end BuildingBlocks
