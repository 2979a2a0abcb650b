import BuildingBlocks.Boot.GiveUp
import BuildingBlocks.Update.Target

/-!
# BuildingBlocks.Update.Rollback

Whether an update that never boots comes back to the old slot.

* `updateInstall_env` is what an installation that returns 0 leaves to the boot script.
* `rollback_iff`: an update of slot a from b rolls back, an update of slot b from a does not.
-/

namespace BuildingBlocks
namespace Update

open Boot

theorem namesSlot_char (expand : String) (s : Slot) : NamesSlot expand s.char := by
  cases s
  · exact Or.inl rfl
  · exact Or.inr (Or.inl rfl)

@[simp] theorem partSlot_char (s : Slot) : partSlot s.char = s := by cases s <;> decide

section Install

variable {board : Board} {pkg : Bytes} {cmdline : Option Bytes} {r : Results} {e : Env} {s : Slot}

/-- The environment an installation to slot `t` leaves: as it was, or with `t` to be booted. -/
theorem updateInstall_env (board : Board) {t : Slot} (hok : e.bootOk ≠ "0")
    (hmode : e.recoveryMode ≠ "1")
    (hres : (updateInstall board pkg cmdline r (World.start e)).1 = 0)
    (htarget : pkgTarget pkg cmdline r = t.char) :
    let e' := (updateInstall board pkg cmdline r (World.start e)).2.env
    e' = e ∨ (e'.bootSlot = t.text ∧ e'.recoveryMode ≠ "1" ∧ (bootCmd e').2 = t.target) := by
  obtain ⟨hacc, hx⟩ := updateInstall_result.mp hres
  have hsame := sameBoot_written board t.char r (World.start e)
  simp only [updateInstall_done board cmdline _ hacc hx, logUpdate_env, htarget]
  by_cases hs : SlotStored t.char r
  · obtain ⟨-, hslot, hmode', -⟩ :=
      configure_of_stored (w := written board t.char r (World.start e)) hs
    have hn := namesSlot_char r.expand t
    rw [slotWord_eq_text_iff.mpr hn, partSlot_char] at hslot
    have hboot := configure_boots_iff (w := written board t.char r (World.start e)) hs hn
      (by rw [hsame.env]; exact hmode)
    rw [partSlot_char, hsame.env] at hboot
    refine Or.inr ⟨hslot, by rw [hmode', hsame.env]; exact hmode, hboot.mpr (Or.inr (Or.inl hok))⟩
  · exact Or.inl ((configure_of_not_stored hs).1.trans hsame.env)

theorem updateInstall_recoveryMode :
    (updateInstall board pkg cmdline r (World.start e)).2.env.recoveryMode = e.recoveryMode := by
  by_cases hacc : Accepted pkg r
  · by_cases hx : Extracted r
    · have hsame := sameBoot_written board (pkgTarget pkg cmdline r) r (World.start e)
      rw [updateInstall_done board cmdline _ hacc hx, logUpdate_env]
      by_cases hs : SlotStored (pkgTarget pkg cmdline r) r
      · rw [(configure_of_stored hs).2.2.1, hsame.env, start_env]
      · rw [(configure_of_not_stored hs).1, hsame.env, start_env]
    · rw [(updateInstall_failed board cmdline _ hacc hx).2.2.env, start_env]
  · rw [updateInstall_rejected board cmdline _ hacc, start_env]

end Install

/-- **When an update rolls back.** After an installation to the other slot of a confirmed system,
the script comes back to the old slot exactly when that is slot b (or `recovery_mode` is set, and
the script never gives up a slot). -/
theorem rollback_iff (board : Board) (pkg : Bytes) (cmdline : Option Bytes) (r : Results) (e : Env)
    (s : Slot) (hslot : e.bootSlot = s.text) (hok : e.bootOk ≠ "0")
    (hres : (updateInstall board pkg cmdline r (World.start e)).1 = 0)
    (htarget : pkgTarget pkg cmdline r = s.other.char) :
    RollsBack (updateInstall board pkg cmdline r (World.start e)).2.env s s.other ↔
      s = .b ∨ e.recoveryMode = "1" := by
  by_cases hmode : e.recoveryMode = "1"
  · constructor
    · intro _
      exact Or.inr hmode
    · intro _
      exact rollsBack_forced (updateInstall_recoveryMode.trans hmode) _ _
  · cases s with
    | b => exact ⟨fun _ => Or.inl rfl, fun _ => rollsBack_to_b _⟩
    | a =>
      constructor
      · intro hroll
        refine absurd hroll (not_rollsBack_of_recovery ?_)
        rcases updateInstall_env board hok hmode hres htarget with henv | ⟨hb, hmode', hfirst⟩
        · rw [henv]
          exact exists_recovery_of_a hslot hmode
        · exact exists_recovery_of_b hb hmode' hfirst
      · intro h
        rcases h with h | h
        · cases h
        · exact absurd h hmode

theorem rollback_iff_b :
    RollsBack (updateInstall .forlinx (samplePkg 0x3d) (some (ascii (Slot.target .b).bootargs))
      Results.allOk (World.start { Env.default with
        bootSlot := "b"
        bootOk := "1" })).2.env .b .a :=
  (rollback_iff .forlinx (samplePkg 0x3d) (some (ascii (Slot.target .b).bootargs)) Results.allOk
    { Env.default with
      bootSlot := "b"
      bootOk := "1" } .b rfl (by decide)
    (updateInstall_samplePkg _ _ _ _)
    (pkgTarget_samplePkg_auto .b _)).mpr (Or.inl rfl)

/-- The update of slot b on a system that runs from a: three failed boots of b, then recovery. -/
theorem update_of_b_not_rolled_back :
    ¬ RollsBack (updateInstall .forlinx (samplePkg 0x3d) (some (ascii (Slot.target .a).bootargs))
      Results.allOk (World.start { Env.default with bootOk := "1" })).2.env .a .b := by
  rcases updateInstall_env .forlinx (e := { Env.default with bootOk := "1" }) (t := .b)
    (by decide) (by decide)
    (updateInstall_samplePkg _ _ _ _) (pkgTarget_samplePkg_auto .a _) with
    henv | ⟨hb, hmode, hfirst⟩
  · rw [henv]
    exact not_rollsBack_of_recovery (exists_recovery_of_a rfl (by decide))
  · exact not_rollsBack_of_recovery (exists_recovery_of_b hb hmode hfirst)

end Update
end BuildingBlocks
