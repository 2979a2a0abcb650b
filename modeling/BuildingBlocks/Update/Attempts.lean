import BuildingBlocks.Boot.Attempts
import BuildingBlocks.Boot.Recovery
import BuildingBlocks.Update.Target

/-!
# BuildingBlocks.Update.Attempts

The boots a slot is granted by what the installer, a factory reset and a boot of recovery leave in
the environment.

* `Path` is one of the three, with what it started from; `Path.env` what it leaves.
* `Attempts` is the law: `boot_limit` boots, as after a confirmed boot and after a fallback.
* `attempts_iff` says which paths keep it. The counter both writers store is 3, which grants two
  boots whatever the limit is.
-/

namespace BuildingBlocks
namespace Update

open Boot

inductive Path where
  | install (board : Board) (pkg : Bytes) (cmdline : Option Bytes) (r : Results) (e : Env)
  | factoryReset (r : ResetResults) (e : Env)
  | recovery (e : Env) (h : (bootCmd e).2 = .recovery)

def Path.env : Path → Env
  | .install board pkg cmdline r e => (updateInstall board pkg cmdline r (World.start e)).2.env
  | .factoryReset r e => (Boot.factoryReset r e).2
  | .recovery e _ => (bootCmd e).1

/-- `boot_limit`, which none of them writes. -/
def Path.limit : Path → Int
  | .install _ _ _ _ e => e.bootLimit
  | .factoryReset _ e => e.bootLimit
  | .recovery e _ => e.bootLimit

/-- The slot selected is granted `boot_limit` boots, like every other. -/
structure Attempts (p : Path) : Prop where
  granted : Granted p.env (selected p.env).target p.limit.toNat
  confirmed : ∀ (e : Env) (s : Slot), e.bootLimit = p.limit → e.bootSlot = s.text →
    e.recoveryMode ≠ "1" → e.bootOk ≠ "0" → Granted e s.target p.limit.toNat
  fallback : ∀ (e : Env) (s : Slot), e.bootLimit = p.limit → e.bootSlot = s.text →
    e.recoveryMode ≠ "1" → e.bootOk = "0" → e.bootAttempt ≤ 1 → s.target.fallback ≠ .recovery →
      Granted e s.target.fallback p.limit.toNat

/-- The installer gets to write `boot_slot`. -/
def Writes (pkg : Bytes) (cmdline : Option Bytes) (r : Results) : Prop :=
  Accepted pkg r ∧ Extracted r ∧ SlotStored (pkgTarget pkg cmdline r) r

instance (pkg : Bytes) (cmdline : Option Bytes) (r : Results) : Decidable (Writes pkg cmdline r) :=
  inferInstanceAs (Decidable (_ ∧ _ ∧ _))

def EnoughInstall (pkg : Bytes) (cmdline : Option Bytes) (r : Results) (e : Env) : Prop :=
  if Writes pkg cmdline r then
    Boot.Enough (slotWord r.expand (pkgTarget pkg cmdline r))
      (if r.setenvAttempt = true ∧ r.setenvOk = true then "0" else e.bootOk)
      (if r.setenvAttempt then 3 else e.bootAttempt) e.bootLimit
  else Boot.Enough e.bootSlot e.bootOk e.bootAttempt e.bootLimit

/-- The condition, on what each path starts from. -/
def Path.Enough : Path → Prop
  | .install _ pkg cmdline r e => EnoughInstall pkg cmdline r e
  | .factoryReset r e =>
    Boot.Enough (if r.setenvSlot then "a" else e.bootSlot) (if r.setenvOk then "0" else e.bootOk)
      (if r.setenvAttempt then 3 else e.bootAttempt) e.bootLimit
  | .recovery _ _ => False

/-! ## What each path leaves -/

section Install

variable {board : Board} {pkg : Bytes} {cmdline : Option Bytes} {r : Results} {e : Env}

/-- Unless the slot is stored the environment stays. -/
theorem install_env_of_not (h : ¬ Writes pkg cmdline r) :
    (updateInstall board pkg cmdline r (World.start e)).2.env = e := by
  by_cases hacc : Accepted pkg r
  · by_cases hx : Extracted r
    · have hs : ¬ SlotStored (pkgTarget pkg cmdline r) r := fun hs => h ⟨hacc, hx, hs⟩
      rw [updateInstall_done board cmdline _ hacc hx, logUpdate_env, (configure_of_not_stored hs).1,
        (sameBoot_written board _ r _).env, start_env]
    · rw [(updateInstall_failed board cmdline _ hacc hx).2.2.env, start_env]
  · rw [updateInstall_rejected board cmdline _ hacc, start_env]

/-- The environment of a stored slot; the rest of the line is run when the slot is a line. -/
theorem install_env (h : Writes pkg cmdline r) :
    let e' := (updateInstall board pkg cmdline r (World.start e)).2.env
    e'.bootSlot = slotWord r.expand (pkgTarget pkg cmdline r) ∧
      e'.recoveryMode = e.recoveryMode ∧ e'.bootLimit = e.bootLimit ∧
      (¬ (pkgTarget pkg cmdline r = 0 ∨ pkgTarget pkg cmdline r = 0x0a ∨
          pkgTarget pkg cmdline r = 0x23) →
        e'.bootAttempt = (if r.setenvAttempt then 3 else e.bootAttempt) ∧
          e'.bootOk = (if r.setenvAttempt = true ∧ r.setenvOk = true then "0" else e.bootOk)) := by
  obtain ⟨hacc, hx, hs⟩ := h
  have hsame := (sameBoot_written board (pkgTarget pkg cmdline r) r (World.start e)).env
  obtain ⟨-, hslot, hmode, hlimit⟩ := configure_of_stored
    (w := written board (pkgTarget pkg cmdline r) r (World.start e)) hs
  rw [updateInstall_done board cmdline _ hacc hx, logUpdate_env]
  refine ⟨hslot, ?_, ?_, ?_⟩
  · rw [hmode, hsame, start_env]
  · rw [hlimit, hsame, start_env]
  · intro hline
    obtain ⟨hattempt, hok⟩ := configure_counter
      (w := written board (pkgTarget pkg cmdline r) r (World.start e)) hs hline
    rw [hattempt, hok, hsame, start_env]
    exact ⟨rfl, rfl⟩

theorem install_recoveryMode :
    (updateInstall board pkg cmdline r (World.start e)).2.env.recoveryMode = e.recoveryMode := by
  by_cases h : Writes pkg cmdline r
  · exact (install_env h).2.1
  · rw [install_env_of_not h]

end Install

/-- A boot of recovery leaves a slot that is none. -/
theorem recovery_bootSlot {e : Env} (h : (bootCmd e).2 = .recovery) :
    (bootCmd e).1.bootSlot = "recovery" := by
  rw [bootCmd_target] at h
  unfold target at h
  split_ifs at h with hslot
  exact hslot

theorem Path.env_bootLimit (p : Path) : p.env.bootLimit = p.limit := by
  cases p with
  | install board pkg cmdline r e =>
    by_cases h : Writes pkg cmdline r
    · exact (install_env h).2.2.1
    · exact congrArg Env.bootLimit (install_env_of_not h)
  | factoryReset r e => exact factoryReset_bootLimit r e
  | recovery e h => exact bootCmd_bootLimit e

theorem enoughInstall_iff (board : Board) (pkg : Bytes) (cmdline : Option Bytes) (r : Results)
    (e : Env) :
    let e' := (updateInstall board pkg cmdline r (World.start e)).2.env
    Boot.Enough e'.bootSlot e'.bootOk e'.bootAttempt e.bootLimit ↔
      EnoughInstall pkg cmdline r e := by
  intro e'
  unfold EnoughInstall
  by_cases h : Writes pkg cmdline r
  · rw [if_pos h]
    obtain ⟨hslot, -, -, hcounter⟩ := @install_env board pkg cmdline r e h
    by_cases hline : pkgTarget pkg cmdline r = 0 ∨ pkgTarget pkg cmdline r = 0x0a ∨
        pkgTarget pkg cmdline r = 0x23
    · -- the command line ends behind an empty slot
      have hword : slotWord r.expand (pkgTarget pkg cmdline r) = "" := by
        unfold slotWord
        rw [if_pos]
        rcases hline with hc | hc | hc <;> simp [hc]
      have hempty : e'.bootSlot = "" := hslot.trans hword
      rw [hempty, hword]
      exact iff_of_false (fun he => absurd he.1 (by decide)) (fun he => absurd he.1 (by decide))
    · obtain ⟨hattempt, hok⟩ := hcounter hline
      rw [← hslot, ← hattempt, ← hok]
  · have henv : e' = e := install_env_of_not h
    rw [if_neg h, henv]

/-- The condition on what is left is the one on what was there. -/
theorem Path.enough_iff (p : Path) :
    Boot.Enough p.env.bootSlot p.env.bootOk p.env.bootAttempt p.limit ↔ p.Enough := by
  cases p with
  | install board pkg cmdline r e => exact enoughInstall_iff board pkg cmdline r e
  | factoryReset r e =>
    rw [Path.env, factoryReset_bootSlot, factoryReset_bootOk, factoryReset_bootAttempt]
    exact Iff.rfl
  | recovery e h =>
    have hslot : (Path.recovery e h).env.bootSlot = "recovery" := recovery_bootSlot h
    rw [hslot]
    exact iff_of_false (fun he => absurd he.1 (by decide)) id

theorem granted_iff_enough {p : Path} (hmode : p.env.recoveryMode ≠ "1") (hL : 1 ≤ p.limit) :
    Granted p.env (selected p.env).target p.limit.toNat ↔ p.Enough := by
  rw [← p.env_bootLimit] at hL ⊢
  rw [granted_limit_iff hmode hL, p.env_bootLimit, p.enough_iff]

/-- **Two boots instead of `boot_limit`.** What the installer, a factory reset or a boot of
recovery leaves grants the selected slot as many boots as a confirmed boot or a fallback does, if
and only if the slot that is there then is a or b, and either `boot_ok` is not 0 or the counter is
one above the limit. -/
theorem attempts_iff (p : Path) (hmode : p.env.recoveryMode ≠ "1") (hL : 1 ≤ p.limit) :
    Attempts p ↔ p.Enough := by
  rw [← granted_iff_enough hmode hL]
  refine ⟨Attempts.granted, fun h => ⟨h, ?_, ?_⟩⟩
  · intro e s hlimit hslot hmode' hok
    rw [← hlimit] at hL ⊢
    exact granted_confirmed (slot_target_ne_recovery s) (by rw [hslot, slot_target_text]) hmode' hL
      hok
  · intro e s hlimit hslot hmode' hok hnone hy
    rw [← hlimit] at hL ⊢
    exact granted_fallback (slot_target_ne_recovery s) (by rw [hslot, slot_target_text]) hmode' hL
      hok hnone hy

/-- A counter of three is one above a limit of two. -/
theorem enough_three {slot : Slot} {limit : Int} :
    Boot.Enough slot.text "0" 3 limit ↔ limit = 2 := by
  have hslot : slot.text = "a" ∨ slot.text = "b" := by
    cases slot
    · exact Or.inl rfl
    · exact Or.inr rfl
  unfold Boot.Enough
  rw [and_iff_right hslot, or_iff_right (fun h => h rfl)]
  omega

/-- A whole installation keeps the law for a limit of two only. -/
theorem enough_install {board : Board} {pkg : Bytes} {cmdline : Option Bytes} {e : Env} {s : Slot}
    (hacc : Accepted pkg Results.allOk) (htarget : pkgTarget pkg cmdline Results.allOk = s.char) :
    (Path.install board pkg cmdline Results.allOk e).Enough ↔ e.bootLimit = 2 := by
  have hstored : SlotStored s.char Results.allOk := by
    cases s <;> decide
  have hword : slotWord Results.allOk.expand s.char = s.text := by
    cases s <;> decide
  have hwrites : Writes pkg cmdline Results.allOk := ⟨hacc, ⟨rfl, rfl⟩, htarget ▸ hstored⟩
  rw [Path.Enough, EnoughInstall, if_pos hwrites, htarget, hword]
  exact enough_three

/-- So does a whole factory reset. -/
theorem enough_factoryReset (e : Env) :
    (Path.factoryReset .allOk e).Enough ↔ e.bootLimit = 2 :=
  @enough_three .a e.bootLimit

/-- An update from slot a to slot b. -/
def samplePath (limit : Int) : Path :=
  .install .forlinx (samplePkg 0x3d) (some (ascii (Slot.target .a).bootargs)) Results.allOk
    { Env.default with
      bootOk := "1"
      bootLimit := limit }

theorem samplePath_enough (limit : Int) : (samplePath limit).Enough ↔ limit = 2 :=
  enough_install (accepted_samplePkg 0x3d ⟨rfl, rfl⟩) (pkgTarget_samplePkg_auto .a Results.allOk)

theorem samplePath_limit (limit : Int) : (samplePath limit).limit = limit := rfl

theorem samplePath_recoveryMode (limit : Int) : (samplePath limit).env.recoveryMode ≠ "1" := by
  rw [samplePath, Path.env, install_recoveryMode]
  exact show "0" ≠ "1" by decide

theorem attempts_limit_two : Attempts (samplePath 2) := by
  have hlimit : 1 ≤ (samplePath 2).limit := by
    rw [samplePath_limit]
    decide
  rw [attempts_iff (samplePath 2) (samplePath_recoveryMode 2) hlimit, samplePath_enough]

/-- Slot b at its last attempt. -/
def lastAttempt : Env :=
  { Env.default with
    bootSlot := "b"
    bootAttempt := 1 }

theorem lastAttempt_recovers : (bootCmd lastAttempt).2 = .recovery := by decide

/-- With the limit of three that is provisioned, none of the three paths keeps the law. -/
theorem attempts_short : ¬ Attempts (samplePath 3) ∧
    ¬ Attempts (.factoryReset .allOk Env.default) ∧
    ¬ Attempts (.recovery lastAttempt lastAttempt_recovers) := by
  refine ⟨?_, ?_, ?_⟩
  · intro h
    have hlimit : 1 ≤ (samplePath 3).limit := by
      rw [samplePath_limit]
      decide
    have hgranted := h.granted
    rw [granted_iff_enough (samplePath_recoveryMode 3) hlimit, samplePath_enough] at hgranted
    exact absurd hgranted (by decide)
  · intro h
    have hmode : (Path.factoryReset .allOk Env.default).env.recoveryMode ≠ "1" := by decide
    have henough := (granted_iff_enough hmode (by decide)).mp h.granted
    exact absurd ((enough_factoryReset _).mp henough) (by decide)
  · intro h
    have hmode : (Path.recovery lastAttempt lastAttempt_recovers).env.recoveryMode ≠ "1" := by
      decide
    exact (granted_iff_enough hmode (by decide)).mp h.granted

end Update
end BuildingBlocks
