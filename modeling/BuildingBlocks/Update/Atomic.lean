import BuildingBlocks.Update.Steps

/-!
# BuildingBlocks.Update.Atomic

When an installation is all or nothing.

* `AllOrNothing` is the law: a run that returns -1 leaves partitions and environment alone, and
  `boot_slot` is written only over two complete partitions.
* `allOrNothing_iff` says exactly for which outcomes of the commands the code keeps it.
-/

namespace BuildingBlocks
namespace Update

open Boot

/-- The partitions the package is installed to; none when it is rejected. -/
def targetParts (board : Board) (pkg : Bytes) (cmdline : Option Bytes) (r : Results) : List Part :=
  if Accepted pkg r then
    [board.bootPart (partSlot (pkgTarget pkg cmdline r)),
      board.rootfsPart (partSlot (pkgTarget pkg cmdline r))]
  else []

/-- The law for one run, from the system before the update. -/
def AllOrNothing (board : Board) (pkg : Bytes) (cmdline : Option Bytes) (r : Results) (e : Env) :
    Prop :=
  let res := updateInstall board pkg cmdline r (World.start e)
  (res.1 = -1 → (∀ p, res.2.parts p = .old) ∧ res.2.env = e) ∧
    (res.2.stored ≠ none → ∀ p ∈ targetParts board pkg cmdline r, res.2.parts p = .complete)

/-- Every command that writes the partitions runs and succeeds. -/
structure AllWritten (r : Results) : Prop where
  mkfsBoot : r.mkfsBoot = .ok
  mkfsRootfs : r.mkfsRootfs = .ok
  statBootTar : r.statBootTar = true
  mkdtempBoot : r.mkdtempBoot = true
  mountBoot : r.mountBoot = true
  tarBoot : r.tarBoot = true
  mkdtempRootfs : r.mkdtempRootfs = true
  mountRootfs : r.mountRootfs = true
  tarRootfs : r.tarRootfs = true

/-! ## One partition -/

section Part

variable {w : World} {p q : Part} {c : Part → Cmd} {m : MkfsResult} {u : Cmd} {mnt t : Bool}

/-- What `mkfs` leaves on a partition. -/
def MkfsResult.content : MkfsResult → Content → Content
  | .ok, _ => .formatted
  | .failClean, k => k
  | .failDirty, _ => .incomplete

theorem mkfs_parts : (w.mkfs c p m).parts = Function.update w.parts p (m.content (w.parts p)) := by
  cases m <;> simp [World.mkfs, MkfsResult.content]

theorem fill_parts_of_ne (h : q ≠ p) : (w.fill p u mnt t).parts q = w.parts q := by
  cases mnt <;> simp [World.fill, h]

/-- A partition becomes complete only when a fresh file system is mounted and tar succeeds. -/
theorem fill_complete_iff (h : w.parts p ≠ .complete) :
    (w.fill p u mnt t).parts p = .complete ↔
      mnt = true ∧ t = true ∧ w.parts p = .formatted := by
  cases mnt with
  | false => simp [World.fill, h]
  | true =>
    simp only [World.fill, if_true, setPart_parts, Function.update_self, run_parts, true_and]
    cases t with
    | false => simp
    | true => by_cases hf : w.parts p = .formatted <;> simp [hf]

end Part

/-! ## The target partitions -/

section Target

variable {w : World} {boot rootfs : Part} {r : Results} {e : Env}

theorem content_old_eq_old {m : MkfsResult} : m.content .old = .old ↔ m = .failClean := by
  cases m <;> simp [MkfsResult.content]

theorem content_old_eq_formatted {m : MkfsResult} : m.content .old = .formatted ↔ m = .ok := by
  cases m <;> simp [MkfsResult.content]

theorem content_old_ne_complete {m : MkfsResult} : m.content .old ≠ .complete := by
  cases m <;> simp [MkfsResult.content]

theorem formatParts_boot (hne : boot ≠ rootfs) :
    (formatParts boot rootfs r (World.start e)).parts boot = r.mkfsBoot.content .old := by
  simp [formatParts, mkfs_parts, hne]

theorem formatParts_rootfs (hne : boot ≠ rootfs) :
    (formatParts boot rootfs r (World.start e)).parts rootfs = r.mkfsRootfs.content .old := by
  simp [formatParts, mkfs_parts, Ne.symm hne]

theorem formatParts_other {p : Part} (hb : p ≠ boot) (hr : p ≠ rootfs) :
    (formatParts boot rootfs r (World.start e)).parts p = .old := by
  simp [formatParts, mkfs_parts, hb, hr]

theorem formatParts_old_iff (hne : boot ≠ rootfs) :
    (∀ p, (formatParts boot rootfs r (World.start e)).parts p = .old) ↔
      r.mkfsBoot = .failClean ∧ r.mkfsRootfs = .failClean := by
  constructor
  · intro h
    refine ⟨content_old_eq_old.mp ?_, content_old_eq_old.mp ?_⟩
    · rw [← formatParts_boot (e := e) hne]
      exact h boot
    · rw [← formatParts_rootfs (e := e) hne]
      exact h rootfs
  · rintro ⟨hb, hr⟩ p
    by_cases h1 : p = boot
    · rw [h1, formatParts_boot hne]
      exact content_old_eq_old.mpr hb
    · by_cases h2 : p = rootfs
      · rw [h2, formatParts_rootfs hne]
        exact content_old_eq_old.mpr hr
      · exact formatParts_other h1 h2

theorem writeBoot_of_ne {p : Part} (h : p ≠ boot) : (writeBoot boot r w).parts p = w.parts p := by
  unfold writeBoot
  split_ifs
  · exact fill_parts_of_ne h
  all_goals rfl

theorem writeRootfs_of_ne {p : Part} (h : p ≠ rootfs) :
    (writeRootfs rootfs r w).parts p = w.parts p := by
  unfold writeRootfs
  split_ifs
  · exact fill_parts_of_ne h
  · exact fill_parts_of_ne h
  · rfl

theorem writeBoot_complete_iff (h : w.parts boot ≠ .complete) :
    (writeBoot boot r w).parts boot = .complete ↔
      r.statBootTar = true ∧ r.mkdtempBoot = true ∧ r.mountBoot = true ∧ r.tarBoot = true ∧
        w.parts boot = .formatted := by
  unfold writeBoot
  split_ifs with hs hk
  · simp [fill_complete_iff h, hs, hk]
  · simp [h, hk]
  · simp [h, hs]

theorem writeRootfs_complete_iff (h : w.parts rootfs ≠ .complete) :
    (writeRootfs rootfs r w).parts rootfs = .complete ↔
      r.mkdtempRootfs = true ∧ r.mountRootfs = true ∧ r.tarRootfs = true ∧
        w.parts rootfs = .formatted := by
  unfold writeRootfs
  split_ifs with hk hp
  · simp [fill_complete_iff h, hk]
  · simp [fill_complete_iff h, hk]
  · simp [h, hk]

end Target

theorem bootPart_ne_rootfsPart (board : Board) (s : Slot) :
    board.bootPart s ≠ board.rootfsPart s := by
  cases board <;> cases s <;> decide

section Run

variable {board : Board} {target : UInt8} {r : Results} {e : Env}

theorem written_complete_iff :
    ((written board target r (World.start e)).parts (board.bootPart (partSlot target)) = .complete ∧
        (written board target r (World.start e)).parts (board.rootfsPart (partSlot target)) =
          .complete) ↔
      AllWritten r := by
  have hne := bootPart_ne_rootfsPart board (partSlot target)
  have hboot := formatParts_boot (r := r) (e := e) hne
  have hrootfs := formatParts_rootfs (r := r) (e := e) hne
  simp only [written, run_parts]
  rw [writeRootfs_of_ne hne, writeBoot_complete_iff, writeRootfs_complete_iff,
    writeBoot_of_ne (Ne.symm hne)]
  · simp only [run_parts, hboot, hrootfs, content_old_eq_formatted]
    constructor
    · rintro ⟨⟨h3, h4, h5, h6, h1⟩, h7, h8, h9, h2⟩
      exact ⟨h1, h2, h3, h4, h5, h6, h7, h8, h9⟩
    · rintro ⟨h1, h2, h3, h4, h5, h6, h7, h8, h9⟩
      exact ⟨⟨h3, h4, h5, h6, h1⟩, h7, h8, h9, h2⟩
  · rw [writeBoot_of_ne (Ne.symm hne), run_parts, hrootfs]
    exact content_old_ne_complete
  · rw [run_parts, hboot]
    exact content_old_ne_complete

end Run

/-- **When an installation is all or nothing.** The package is rejected; or it does not extract and
neither `mkfs` did anything; or it extracts, and `boot_slot` is not written or every command that
writes the partitions ran and succeeded. -/
theorem allOrNothing_iff (board : Board) (pkg : Bytes) (cmdline : Option Bytes) (r : Results)
    (e : Env) :
    AllOrNothing board pkg cmdline r e ↔
      ¬ Accepted pkg r ∨
        (¬ Extracted r ∧ r.mkfsBoot = .failClean ∧ r.mkfsRootfs = .failClean) ∨
        (Extracted r ∧ (SlotStored (pkgTarget pkg cmdline r) r → AllWritten r)) := by
  by_cases hacc : Accepted pkg r
  · have hne := bootPart_ne_rootfsPart board (partSlot (pkgTarget pkg cmdline r))
    by_cases hx : Extracted r
    · -- the run returns 0: only the second half of the law says something
      have hdone := updateInstall_done board cmdline (World.start e) hacc hx
      have hsame := sameBoot_written board (pkgTarget pkg cmdline r) r (World.start e)
      simp only [AllOrNothing, hdone, targetParts, hacc, hx, if_true, logUpdate_parts,
        configure_parts, logUpdate_stored, List.mem_cons, List.not_mem_nil, or_false,
        forall_eq_or_imp, forall_eq, written_complete_iff, not_true_eq_false, false_or, false_and,
        true_and]
      rw [show ((0 : Int) = -1) = False by decide, false_imp_iff, true_and]
      by_cases hs : SlotStored (pkgTarget pkg cmdline r) r
      · simp [hs, (configure_of_stored hs).1]
      · simp [hs, (configure_of_not_stored hs).2, hsame.stored]
    · -- the run returns -1 after formatting
      obtain ⟨hres, hparts, hsame⟩ := updateInstall_failed board cmdline (World.start e)
        hacc hx
      have hstored : (updateInstall board pkg cmdline r (World.start e)).2.stored = none :=
        hsame.stored
      simp only [AllOrNothing, hres, hparts, hsame.env, hstored, hacc, hx, forall_const,
        formatParts_old_iff hne, ne_eq, not_true_eq_false, false_imp_iff, and_true,
        not_false_eq_true, true_and, false_and, or_false, false_or, start_env]
  · have hrej := updateInstall_rejected board cmdline (World.start e) hacc
    simp [AllOrNothing, hrej, hacc]

/-- The archive does not extract: -1, and both partitions of slot b have been formatted. -/
theorem install_wipes :
    ¬ AllOrNothing .forlinx (header Manifest.zero) (some (ascii Target.a.bootargs))
      { Results.allOk with extractOk := false } Env.default := by
  intro h
  have hacc : Accepted (header Manifest.zero) { Results.allOk with extractOk := false } := by
    refine ⟨rfl, rfl, ?_⟩
    simpa using magicOk_header (m := Manifest.zero) []
  obtain ⟨hres, hparts, -⟩ := updateInstall_failed .forlinx
    (some (ascii Target.a.bootargs)) (World.start Env.default) hacc
    (fun hx => absurd hx.2 (by decide))
  have hold := (h.1 hres).1 (Board.forlinx.bootPart (partSlot (pkgTarget (header Manifest.zero)
    (some (ascii Target.a.bootargs)) { Results.allOk with extractOk := false })))
  rw [hparts, formatParts_boot (bootPart_ne_rootfsPart _ _)] at hold
  exact absurd hold (by decide)

end Update
end BuildingBlocks
