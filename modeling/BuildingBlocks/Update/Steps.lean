import BuildingBlocks.Update.Install

/-!
# BuildingBlocks.Update.Steps

What one run of the installer does, stated once for the results built on it.

* `SameBoot` is the frame of the disk steps: they leave the boot environment and the log alone.
* `configure_of_stored`, `configure_of_not_stored` say what step 10 leaves.
* `updateInstall_rejected`, `updateInstall_failed`, `updateInstall_done` are the three ends of a
  run.
-/

namespace BuildingBlocks
namespace Update

open Boot

/-- Steps 1 and 2 pass. -/
def Accepted (pkg : Bytes) (r : Results) : Prop :=
  r.openVerify = true ∧ r.openRead = true ∧ magicOk pkg = true

/-- Step 6 passes. -/
def Extracted (r : Results) : Prop := r.mkdtempOk = true ∧ r.extractOk = true

instance (pkg : Bytes) (r : Results) : Decidable (Accepted pkg r) :=
  inferInstanceAs (Decidable (_ ∧ _ ∧ _))

instance (r : Results) : Decidable (Extracted r) := inferInstanceAs (Decidable (_ ∧ _))

/-- The manifest an accepted package is read as. -/
def pkgManifest (pkg : Bytes) (r : Results) : Manifest :=
  manifestLayout.load r.garbage ((pkg.drop 4).drop 4)

@[simp] theorem pkgManifest_header (m : Manifest) (rest : Bytes) (r : Results) :
    pkgManifest (header m ++ rest) r = m := load_header r.garbage rest

/-- A package for the given slot whose archive stands where the installer cuts: its first byte is
the last byte of the manifest's padding. -/
def samplePkg (targetSlot : UInt8) : Bytes :=
  header { Manifest.zero with
    targetSlot := targetSlot
    pad1 := #v[0, 0, 0, 0, 0x1f] } ++ emptyRootfsTgz.tail

example : extractInput (samplePkg 0x3d) = emptyRootfsTgz := rfl

def pkgTarget (pkg : Bytes) (cmdline : Option Bytes) (r : Results) : UInt8 :=
  installTarget (pkgManifest pkg r).targetSlot (currentSlot cmdline)

/-- The command line of the boot script names the slot it boots. -/
theorem currentSlot_bootargs (s : Slot) :
    currentSlot (some (ascii s.target.bootargs)) = s.char := by
  cases s
  · dsimp only [Slot.target, Target.bootargs]
    rewrite [ascii_append, ascii_ofList, ascii_ofList]
    decide
  · dsimp only [Slot.target, Target.bootargs]
    rewrite [ascii_append, ascii_ofList, ascii_ofList]
    decide

/-- `boot_slot` is written. -/
def SlotStored (target : UInt8) (r : Results) : Prop :=
  target ∉ shellRejects ∧ r.setenvSlot = true

instance (target : UInt8) (r : Results) : Decidable (SlotStored target r) :=
  inferInstanceAs (Decidable (_ ∧ _))

theorem accepted_samplePkg (c : UInt8) {r : Results} (h : r.openVerify = true ∧ r.openRead = true) :
    Accepted (samplePkg c) r :=
  ⟨h.1, h.2, magicOk_header _⟩

theorem pkgTarget_samplePkg (c : UInt8) (cmdline : Option Bytes) (r : Results) :
    pkgTarget (samplePkg c) cmdline r = installTarget c (currentSlot cmdline) := by
  simp [pkgTarget, samplePkg]

/-- On a system the script booted, `=` is the other slot. -/
theorem pkgTarget_samplePkg_auto (s : Slot) (r : Results) :
    pkgTarget (samplePkg 0x3d) (some (ascii s.target.bootargs)) r = s.other.char := by
  rw [pkgTarget_samplePkg, currentSlot_bootargs]
  cases s <;> rfl

section Fields

variable {w : World} {c : Cmd} {p : Part} {k : Content}

@[simp] theorem start_parts (e : Env) : (World.start e).parts p = .old := rfl
@[simp] theorem start_env (e : Env) : (World.start e).env = e := rfl
@[simp] theorem start_stored (e : Env) : (World.start e).stored = none := rfl
@[simp] theorem start_cmds (e : Env) : (World.start e).cmds = [] := rfl
@[simp] theorem run_parts : (w.run c).parts = w.parts := rfl
@[simp] theorem run_env : (w.run c).env = w.env := rfl
@[simp] theorem run_stored : (w.run c).stored = w.stored := rfl
@[simp] theorem run_cmds : (w.run c).cmds = w.cmds ++ [c] := rfl
@[simp] theorem setPart_parts : (w.setPart p k).parts = Function.update w.parts p k := rfl
@[simp] theorem setPart_env : (w.setPart p k).env = w.env := rfl
@[simp] theorem setPart_stored : (w.setPart p k).stored = w.stored := rfl
@[simp] theorem setPart_cmds : (w.setPart p k).cmds = w.cmds := rfl

end Fields

/-- `w'` differs from `w` in partitions and commands only. -/
structure SameBoot (w w' : World) : Prop where
  env : w'.env = w.env
  stored : w'.stored = w.stored
  log : w'.log = w.log

theorem SameBoot.trans {w w' w'' : World} (h : SameBoot w w') (h' : SameBoot w' w'') :
    SameBoot w w'' :=
  ⟨h'.env.trans h.env, h'.stored.trans h.stored, h'.log.trans h.log⟩

theorem sameBoot_run (w : World) (c : Cmd) : SameBoot w (w.run c) := ⟨rfl, rfl, rfl⟩

section Steps

variable {boot rootfs : Part} {r : Results} {w : World}

theorem sameBoot_mkfs (c : Part → Cmd) (p : Part) (m : MkfsResult) : SameBoot w (w.mkfs c p m) := by
  cases m <;> exact ⟨rfl, rfl, rfl⟩

theorem sameBoot_fill (p : Part) (untar : Cmd) (m t : Bool) : SameBoot w (w.fill p untar m t) := by
  cases m <;> exact ⟨rfl, rfl, rfl⟩

theorem sameBoot_formatParts : SameBoot w (formatParts boot rootfs r w) :=
  (sameBoot_mkfs _ _ _).trans (sameBoot_mkfs _ _ _)

theorem sameBoot_writeBoot : SameBoot w (writeBoot boot r w) := by
  unfold writeBoot
  split_ifs
  · exact (sameBoot_fill _ _ _ _).trans (sameBoot_run _ _)
  all_goals exact ⟨rfl, rfl, rfl⟩

theorem sameBoot_writeRootfs : SameBoot w (writeRootfs rootfs r w) := by
  unfold writeRootfs
  split_ifs
  · exact ((sameBoot_fill _ _ _ _).trans (sameBoot_run _ _)).trans (sameBoot_run _ _)
  · exact (sameBoot_fill _ _ _ _).trans (sameBoot_run _ _)
  · exact ⟨rfl, rfl, rfl⟩

theorem runSetenv_frame (cs : List Setenv) : (runSetenv r cs w).parts = w.parts ∧
    (runSetenv r cs w).cmds = w.cmds ∧ (runSetenv r cs w).log = w.log := by
  induction cs generalizing w with
  | nil => exact ⟨rfl, rfl, rfl⟩
  | cons c cs ih =>
    simp only [runSetenv]
    split_ifs
    · obtain ⟨h1, h2, h3⟩ := ih (w := c.apply w)
      cases c <;> exact ⟨h1, h2, h3⟩
    · exact ⟨rfl, rfl, rfl⟩

@[simp] theorem configure_parts (target : UInt8) :
    (configure target r w).parts = w.parts := (runSetenv_frame _).1

@[simp] theorem configure_cmds (target : UInt8) :
    (configure target r w).cmds = w.cmds ++ [.fwSetenv target] := (runSetenv_frame _).2.1

@[simp] theorem logUpdate_parts (m : Manifest) (target : UInt8) :
    (logUpdate m target r w).parts = w.parts := by
  unfold logUpdate
  split_ifs <;> rfl

@[simp] theorem logUpdate_cmds (m : Manifest) (target : UInt8) :
    (logUpdate m target r w).cmds = w.cmds := by
  unfold logUpdate
  split_ifs <;> rfl

@[simp] theorem logUpdate_env (m : Manifest) (target : UInt8) :
    (logUpdate m target r w).env = w.env := by
  unfold logUpdate
  split_ifs <;> rfl

@[simp] theorem logUpdate_stored (m : Manifest) (target : UInt8) :
    (logUpdate m target r w).stored = w.stored := by
  unfold logUpdate
  split_ifs <;> rfl

theorem configure_of_not_stored {target : UInt8} (h : ¬ SlotStored target r) :
    (configure target r w).env = w.env ∧ (configure target r w).stored = w.stored := by
  unfold configure setenvCalls
  split_ifs with hrej
  · exact ⟨rfl, rfl⟩
  all_goals
    have hs : r.setenv (.slot (slotWord r.expand target)) = false := by
      have : r.setenvSlot ≠ true := fun hs => h ⟨hrej, hs⟩
      simpa [Results.setenv] using this
    simp [runSetenv, hs]

/-- What is stored, and what the rest of the chain may change besides. -/
theorem configure_of_stored {target : UInt8} (h : SlotStored target r) :
    (configure target r w).stored = some (slotWord r.expand target) ∧
      (configure target r w).env.bootSlot = slotWord r.expand target ∧
      (configure target r w).env.recoveryMode = w.env.recoveryMode ∧
      (configure target r w).env.bootLimit = w.env.bootLimit := by
  obtain ⟨hrej, hs⟩ := h
  have hslot : r.setenv (.slot (slotWord r.expand target)) = true := hs
  unfold configure setenvCalls
  rw [if_neg hrej]
  simp only [runSetenv, hslot, if_true, Setenv.apply]
  split_ifs
  · exact ⟨rfl, rfl, rfl, rfl⟩
  · simp only [runSetenv, Setenv.apply]
    split_ifs <;> exact ⟨rfl, rfl, rfl, rfl⟩

/-- The counter after a whole line: `boot_attempt` is 3 unless its call failed. -/
theorem configure_counter {target : UInt8} (h : SlotStored target r)
    (hline : ¬ (target = 0 ∨ target = 0x0a ∨ target = 0x23)) :
    (configure target r w).env.bootAttempt =
        (if r.setenvAttempt then 3 else w.env.bootAttempt) ∧
      (configure target r w).env.bootOk =
        (if r.setenvAttempt = true ∧ r.setenvOk = true then "0" else w.env.bootOk) := by
  obtain ⟨hrej, hs⟩ := h
  unfold configure setenvCalls
  rw [if_neg hrej, if_neg hline]
  cases ha : r.setenvAttempt <;> cases hk : r.setenvOk <;>
    simp [runSetenv, Results.setenv, Setenv.apply, hs, ha, hk]

end Steps

section Run

variable {board : Board} {pkg : Bytes} {cmdline : Option Bytes} {r : Results} {w : World}

theorem updateInstall_rejected (board : Board) (cmdline : Option Bytes) (w : World)
    (h : ¬ Accepted pkg r) :
    updateInstall board pkg cmdline r w = (-1, w) := by
  unfold updateInstall updateVerify readManifest
  cases hv : r.openVerify with
  | false => simp
  | true =>
    cases hm : magicOk pkg with
    | false => simp [hm]
    | true =>
      cases ho : r.openRead with
      | false => simp [hm]
      | true => exact absurd ⟨hv, ho, hm⟩ h

theorem updateInstall_accepted (board : Board) (cmdline : Option Bytes) (w : World)
    (h : Accepted pkg r) :
    updateInstall board pkg cmdline r w =
      let target := pkgTarget pkg cmdline r
      let boot := board.bootPart (partSlot target)
      let rootfs := board.rootfsPart (partSlot target)
      let w := formatParts boot rootfs r w
      if r.mkdtempOk then
        let w := w.run .extract
        if r.extractOk then
          let w := writeRootfs rootfs r (writeBoot boot r w)
          let w := configure target r (w.run .rmTmpdir)
          (0, logUpdate (pkgManifest pkg r) target r w)
        else (-1, w)
      else (-1, w) := by
  obtain ⟨hv, ho, hm⟩ := h
  simp [updateInstall, updateVerify, readManifest, hv, ho, hm, pkgTarget, pkgManifest]

/-- The package does not extract: the partitions are formatted, nothing else is done. -/
theorem updateInstall_failed (board : Board) (cmdline : Option Bytes) (w : World)
    (h : Accepted pkg r) (hx : ¬ Extracted r) :
    (updateInstall board pkg cmdline r w).1 = -1 ∧
      (updateInstall board pkg cmdline r w).2.parts =
        (formatParts (board.bootPart (partSlot (pkgTarget pkg cmdline r)))
          (board.rootfsPart (partSlot (pkgTarget pkg cmdline r))) r w).parts ∧
      SameBoot w (updateInstall board pkg cmdline r w).2 := by
  rw [updateInstall_accepted board cmdline w h]
  cases hk : r.mkdtempOk with
  | false => simpa [hk] using sameBoot_formatParts
  | true =>
    cases he : r.extractOk with
    | false => simpa [hk, he] using sameBoot_formatParts.trans (sameBoot_run _ _)
    | true => exact absurd ⟨hk, he⟩ hx

/-- The world before step 10. -/
def written (board : Board) (target : UInt8) (r : Results) (w : World) : World :=
  let boot := board.bootPart (partSlot target)
  let rootfs := board.rootfsPart (partSlot target)
  (writeRootfs rootfs r (writeBoot boot r ((formatParts boot rootfs r w).run .extract))).run
    .rmTmpdir

theorem updateInstall_done (board : Board) (cmdline : Option Bytes) (w : World)
    (h : Accepted pkg r) (hx : Extracted r) :
    updateInstall board pkg cmdline r w =
      (0, logUpdate (pkgManifest pkg r) (pkgTarget pkg cmdline r) r
        (configure (pkgTarget pkg cmdline r) r
          (written board (pkgTarget pkg cmdline r) r w))) := by
  rw [updateInstall_accepted board cmdline w h]
  simp [hx.1, hx.2, written]

theorem sameBoot_written (board : Board) (target : UInt8) (r : Results) (w : World) :
    SameBoot w (written board target r w) :=
  ((((sameBoot_formatParts.trans (sameBoot_run _ _)).trans sameBoot_writeBoot).trans
    sameBoot_writeRootfs).trans (sameBoot_run _ _))

theorem updateInstall_result :
    (updateInstall board pkg cmdline r w).1 = 0 ↔ Accepted pkg r ∧ Extracted r := by
  by_cases h : Accepted pkg r
  · by_cases hx : Extracted r
    · simp [updateInstall_done board cmdline w h hx, h, hx]
    · simp [(updateInstall_failed board cmdline w h hx).1, hx]
  · simp [updateInstall_rejected board cmdline w h, h]

end Run

theorem updateInstall_samplePkg (board : Board) (c : UInt8) (cmdline : Option Bytes) (w : World) :
    (updateInstall board (samplePkg c) cmdline Results.allOk w).1 = 0 := by
  rw [updateInstall_result]
  exact ⟨accepted_samplePkg c ⟨rfl, rfl⟩, rfl, rfl⟩

end Update
end BuildingBlocks
