import BuildingBlocks.Update.Steps

/-!
# BuildingBlocks.Update.Target

When the installer, the environment it stores and the boot script agree on one inactive slot.

* `Consistent` is the law: the partitions formatted or mounted are those of one slot that is not
  running, no other slot is stored, and after a return of 0 the script boots them next.
* `Selects` is what the script boots next, read off the environment.
* `consistent_iff` says exactly when the code keeps the law, from the manifest byte, the command
  line, the board and the environment.
-/

namespace BuildingBlocks
namespace Update

open Boot

/-- The law for what an installation returns and the system it leaves, with `running` the slot it
runs from. -/
def Consistent (board : Board) (running : Slot) (res : Int × World) : Prop :=
  res.2.touched ≠ [] → ∃ t : Slot, t ≠ running ∧
    (∀ p ∈ res.2.touched, p = board.bootPart t ∨ p = board.rootfsPart t) ∧
    (∀ v, res.2.stored = some v → v = t.text) ∧
    (res.1 = 0 → (bootCmd res.2.env).2.bootPart = board.bootPart t ∧
      (bootCmd res.2.env).2.rootPart = board.rootfsPart t)

/-- The partitions chosen are not the running slot's. -/
def AvoidsRunning (running : Slot) (cmdline : Option Bytes) (targetSlot : UInt8) : Prop :=
  if targetSlot = 0x3d then (currentSlot cmdline = 0x61 ↔ running = .a)
  else (targetSlot = 0x61 ↔ running = .b)

/-- The character stands for a slot, for the shell as for the installer. -/
def NamesSlot (expand : String) (c : UInt8) : Prop :=
  c = 0x61 ∨ c = 0x62 ∨ (c ∈ shellExpands ∧ expand = "b")

/-- The slot the script boots next, where recovery is not forced. -/
def Selects (e : Env) (t : Slot) : Prop :=
  if e.bootSlot = "a" ∨ e.bootSlot = "b" then
    (e.bootSlot = t.text ∧ (e.bootOk ≠ "0" ∨ 1 < e.bootAttempt)) ∨
      -- slot a is given up
      (t = .b ∧ e.bootSlot = "a" ∧ e.bootOk = "0" ∧ e.bootAttempt ≤ 1)
  -- an invalid slot becomes slot a with a fresh count
  else if e.bootLimit ≤ 1 then t = .b
  else t = .a

/-! ## The partitions -/

section Touched

variable {w : World} {p q boot rootfs : Part} {r : Results} {board : Board} {pkg : Bytes}
  {cmdline : Option Bytes} {e : Env}

@[simp] theorem touched_start : (World.start e).touched = [] := rfl

@[simp] theorem touched_setPart {k : Content} : (w.setPart p k).touched = w.touched := rfl

theorem mem_touched_run {c : Cmd} : q ∈ (w.run c).touched ↔ q ∈ w.touched ∨ c.part? = some q := by
  simp [World.touched]

theorem mem_touched_run_none {c : Cmd} (h : c.part? = none) :
    q ∈ (w.run c).touched ↔ q ∈ w.touched := by
  simp [mem_touched_run, h]

theorem mem_touched_run_some {c : Cmd} (h : c.part? = some p) :
    q ∈ (w.run c).touched ↔ q ∈ w.touched ∨ q = p := by
  simp [mem_touched_run, h, eq_comm]

theorem mem_touched_mkfs {c : Part → Cmd} {m : MkfsResult} (h : (c p).part? = some p) :
    q ∈ (w.mkfs c p m).touched ↔ q ∈ w.touched ∨ q = p := by
  cases m <;> exact mem_touched_run_some h

theorem mem_touched_fill {u : Cmd} {mnt t : Bool} (hu : u.part? = none) :
    q ∈ (w.fill p u mnt t).touched ↔ q ∈ w.touched ∨ q = p := by
  have h := (mem_touched_run_none (q := q) (w := w.run (.mount p)) hu).trans
    (mem_touched_run_some (p := p) rfl)
  cases mnt <;> exact h

theorem mem_touched_formatParts :
    q ∈ (formatParts boot rootfs r w).touched ↔ q ∈ w.touched ∨ q = boot ∨ q = rootfs := by
  rw [formatParts, mem_touched_mkfs rfl, mem_touched_mkfs rfl, or_assoc]

/-- Writing mounts a partition that was formatted before. -/
theorem mem_touched_writeBoot (h : boot ∈ w.touched) :
    q ∈ (writeBoot boot r w).touched ↔ q ∈ w.touched := by
  have hor : q ∈ w.touched ∨ q = boot ↔ q ∈ w.touched :=
    ⟨fun hq => hq.elim id (fun hq => hq ▸ h), Or.inl⟩
  unfold writeBoot
  split_ifs
  · rw [mem_touched_run_none rfl, mem_touched_fill rfl, hor]
  all_goals rfl

theorem mem_touched_writeRootfs (h : rootfs ∈ w.touched) :
    q ∈ (writeRootfs rootfs r w).touched ↔ q ∈ w.touched := by
  have hor : q ∈ w.touched ∨ q = rootfs ↔ q ∈ w.touched :=
    ⟨fun hq => hq.elim id (fun hq => hq ▸ h), Or.inl⟩
  unfold writeRootfs
  split_ifs
  · rw [mem_touched_run_none rfl, mem_touched_run_none rfl, mem_touched_fill rfl, hor]
  · rw [mem_touched_run_none rfl, mem_touched_fill rfl, hor]
  · rfl

theorem mem_touched_formatted (target : UInt8) :
    p ∈ (formatParts (board.bootPart (partSlot target)) (board.rootfsPart (partSlot target)) r
        (World.start e)).touched ↔
      p = board.bootPart (partSlot target) ∨ p = board.rootfsPart (partSlot target) := by
  simp [mem_touched_formatParts]

theorem mem_touched_written (target : UInt8) :
    p ∈ (written board target r (World.start e)).touched ↔
      p = board.bootPart (partSlot target) ∨ p = board.rootfsPart (partSlot target) := by
  have hformat : ∀ q, q ∈ ((formatParts (board.bootPart (partSlot target))
      (board.rootfsPart (partSlot target)) r (World.start e)).run .extract).touched ↔
      q = board.bootPart (partSlot target) ∨ q = board.rootfsPart (partSlot target) :=
    fun q => (mem_touched_run_none rfl).trans (mem_touched_formatted target)
  have hboot := (hformat (board.bootPart (partSlot target))).mpr (Or.inl rfl)
  have hrootfs := (hformat (board.rootfsPart (partSlot target))).mpr (Or.inr rfl)
  rw [written, mem_touched_run_none rfl,
    mem_touched_writeRootfs ((mem_touched_writeBoot hboot).mpr hrootfs),
    mem_touched_writeBoot hboot, hformat]

theorem mem_touched_configured (m : Manifest) (target : UInt8) :
    q ∈ (logUpdate m target r (configure target r w)).touched ↔ q ∈ w.touched := by
  simp [World.touched, Cmd.part?]

/-- An accepted package formats both partitions of its slot and touches no other. -/
theorem mem_touched_updateInstall (board : Board) (cmdline : Option Bytes) (e : Env)
    (h : Accepted pkg r) :
    p ∈ (updateInstall board pkg cmdline r (World.start e)).2.touched ↔
      p = board.bootPart (partSlot (pkgTarget pkg cmdline r)) ∨
        p = board.rootfsPart (partSlot (pkgTarget pkg cmdline r)) := by
  by_cases hx : Extracted r
  · rw [updateInstall_done board cmdline _ h hx, mem_touched_configured, mem_touched_written]
  · rw [updateInstall_accepted board cmdline _ h]
    cases hk : r.mkdtempOk with
    | false => exact mem_touched_formatted _
    | true =>
      cases he : r.extractOk with
      | false => exact (mem_touched_run_none rfl).trans (mem_touched_formatted _)
      | true => exact absurd ⟨hk, he⟩ hx

end Touched

/-! ## The slot stored -/

theorem eq_b_of_singleton {c : UInt8} (h : String.singleton (Char.ofNat c.toNat) = "b") :
    c = 0x62 := by
  have hchar : Char.ofNat c.toNat = 'b' := String.singleton_inj.mp h
  have hvalid : c.toNat.isValidChar := Or.inl (by have := c.toNat_lt; omega)
  have hnat : (Char.ofNat c.toNat).toNat = c.toNat := by
    rw [Char.ofNat, dif_pos hvalid]
    rfl
  rw [hchar] at hnat
  exact UInt8.toNat_inj.mp hnat.symm

/-- The word stored is the slot whose partitions are used. -/
theorem slotWord_eq_text_iff {expand : String} {c : UInt8} :
    slotWord expand c = (partSlot c).text ↔ NamesSlot expand c := by
  by_cases ha : c = 0x61
  · subst ha
    exact ⟨fun _ => Or.inl rfl, fun _ => rfl⟩
  · have htext : (partSlot c).text = "b" := by simp [partSlot, ha, Slot.text]
    rw [htext]
    unfold slotWord NamesSlot
    split_ifs with hcut hback hexp
    · have hplain : c ≠ 0x62 ∧ c ∉ shellExpands := by
        rcases hcut with rfl | rfl | rfl | rfl | rfl <;> decide
      simp [ha, hplain]
    · subst hback
      simp [shellExpands, ascii]
    · have hb : c ≠ 0x62 := by
        rintro rfl
        exact absurd hexp (by decide)
      simp [ha, hb, hexp]
    · simp only [ha, hexp, false_or, false_and, or_false]
      exact ⟨eq_b_of_singleton, fun h => by rw [h]; decide⟩

theorem NamesSlot.line {expand : String} {c : UInt8} (h : NamesSlot expand c) :
    ¬ (c = 0 ∨ c = 0x0a ∨ c = 0x23) := by
  rintro (rfl | rfl | rfl) <;> exact absurd h (by simp [NamesSlot, shellExpands, ascii])

/-! ## The next boot -/

theorem parts_eq_iff {board : Board} {t : Slot} {x : Target} :
    (x.bootPart = board.bootPart t ∧ x.rootPart = board.rootfsPart t) ↔
      board = .forlinx ∧ x = t.target := by
  cases board <;> cases t <;> cases x <;> decide

theorem bootPart_mem {board : Board} {s t : Slot}
    (h : board.bootPart s = board.bootPart t ∨ board.bootPart s = board.rootfsPart t) : s = t := by
  cases board <;> cases s <;> cases t <;> first | rfl | exact absurd h (by decide)

section Next

variable {w : World} {target : UInt8} {r : Results}

/-- With the slot's own text stored, the script boots it unless the counter was left used up. -/
theorem configure_boots_iff (hs : SlotStored target r) (hn : NamesSlot r.expand target)
    (hmode : w.env.recoveryMode ≠ "1") :
    (bootCmd (configure target r w).env).2 = (partSlot target).target ↔
      r.setenvAttempt = true ∨ w.env.bootOk ≠ "0" ∨ 1 < w.env.bootAttempt := by
  obtain ⟨-, hslot, hmode', -⟩ := configure_of_stored (w := w) hs
  obtain ⟨hattempt, hok⟩ := configure_counter (w := w) hs hn.line
  rw [slotWord_eq_text_iff.mpr hn, ← slot_target_text] at hslot
  rw [bootCmd_keeps_iff (slot_target_ne_recovery _) hslot (by rw [hmode']; exact hmode), hattempt,
    hok]
  cases ha : r.setenvAttempt with
  | false => simp
  | true => simp

theorem bootCmd_invalid {e : Env} (hslot : ¬ (e.bootSlot = "a" ∨ e.bootSlot = "b"))
    (hmode : e.recoveryMode ≠ "1") :
    (bootCmd e).2 = if e.bootLimit ≤ 1 then .b else .a := by
  rw [not_or] at hslot
  by_cases hlim : e.bootLimit ≤ 1 <;>
    simp [bootCmd, forceRecovery, determineSlot, checkBootOk, envLoad, Uboot.envSave,
      Env.resetAttempts, target, hslot, hmode, hlim]

/-- A valid slot is kept, or slot a is given up for slot b. -/
theorem bootCmd_valid {e : Env} {s t : Slot} (hslot : e.bootSlot = s.text)
    (hmode : e.recoveryMode ≠ "1") :
    (bootCmd e).2 = t.target ↔ (s = t ∧ (e.bootOk ≠ "0" ∨ 1 < e.bootAttempt)) ∨
      (t = .b ∧ s = .a ∧ e.bootOk = "0" ∧ e.bootAttempt ≤ 1) := by
  rw [← slot_target_text] at hslot
  have hne := slot_target_ne_recovery s
  by_cases hkeep : e.bootOk ≠ "0" ∨ 1 < e.bootAttempt
  · have hsame := (bootCmd_keeps_iff hne hslot hmode).mpr hkeep
    have hnot : ¬ (e.bootOk = "0" ∧ e.bootAttempt ≤ 1) := by
      rintro ⟨hok, hle⟩
      rcases hkeep with hkeep | hkeep
      · exact hkeep hok
      · omega
    rw [hsame]
    cases s <;> cases t <;> simp [Slot.target, hkeep, hnot]
  · rw [not_or, not_not, Int.not_lt] at hkeep
    have hle := Int.not_lt.mpr hkeep.2
    rw [bootCmd_giveUp hne hslot hmode hkeep.1 hkeep.2]
    cases s <;> cases t <;> simp [Slot.target, Target.fallback, hkeep, hle]

theorem bootCmd_selects_iff {e : Env} {t : Slot} (hmode : e.recoveryMode ≠ "1") :
    (bootCmd e).2 = t.target ↔ Selects e t := by
  unfold Selects
  split_ifs with hvalid hlimit
  · rcases hvalid with hslot | hslot
    · rw [bootCmd_valid (s := .a) hslot hmode, hslot]
      cases t <;> simp [Slot.text]
    · rw [bootCmd_valid (s := .b) hslot hmode, hslot]
      cases t <;> simp [Slot.text]
  · rw [bootCmd_invalid hvalid hmode, if_pos hlimit]
    cases t <;> simp [Slot.target]
  · rw [bootCmd_invalid hvalid hmode, if_neg hlimit]
    cases t <;> simp [Slot.target]

end Next

theorem partSlot_ne_running_iff {running : Slot} {cmdline : Option Bytes} {targetSlot : UInt8} :
    partSlot (installTarget targetSlot (currentSlot cmdline)) ≠ running ↔
      AvoidsRunning running cmdline targetSlot := by
  unfold AvoidsRunning installTarget
  split_ifs with h1 h2
  · cases running <;> simp [partSlot, h2]
  · cases running <;> simp [partSlot, h2]
  · by_cases h3 : targetSlot = 0x61 <;> cases running <;> simp [partSlot, h3]

/-- The law when exactly the partitions of slot `s` were touched. -/
theorem consistent_iff_of_touched {board : Board} {running s : Slot} {res : Int × World}
    (h : ∀ p, p ∈ res.2.touched ↔ p = board.bootPart s ∨ p = board.rootfsPart s) :
    Consistent board running res ↔ s ≠ running ∧ (∀ v, res.2.stored = some v → v = s.text) ∧
      (res.1 = 0 → board = .forlinx ∧ (bootCmd res.2.env).2 = s.target) := by
  have hboot := (h (board.bootPart s)).mpr (Or.inl rfl)
  constructor
  · intro hc
    obtain ⟨t, hne, hparts, hstored, hnext⟩ := hc (List.ne_nil_of_mem hboot)
    obtain rfl : s = t := bootPart_mem (hparts _ hboot)
    exact ⟨hne, hstored, fun hres => parts_eq_iff.mp (hnext hres)⟩
  · rintro ⟨hne, hstored, hnext⟩ -
    exact ⟨s, hne, fun p hp => (h p).mp hp, hstored, fun hres => parts_eq_iff.mpr (hnext hres)⟩

/-- **When the three mappings agree.** Either nothing is formatted; or the partitions are not the
running slot's and, if the package extracts, the board is the one of the boot script, and the slot
is stored under its own name with the counter set or not used up, or nothing is stored and the
script was to boot that slot anyway. -/
theorem consistent_iff (board : Board) (running : Slot) (pkg : Bytes) (cmdline : Option Bytes)
    (r : Results) (e : Env) (hmode : e.recoveryMode = "0") :
    Consistent board running (updateInstall board pkg cmdline r (World.start e)) ↔
      ¬ Accepted pkg r ∨
        (AvoidsRunning running cmdline (pkgManifest pkg r).targetSlot ∧
          (Extracted r → board = .forlinx ∧
            if SlotStored (pkgTarget pkg cmdline r) r then
              NamesSlot r.expand (pkgTarget pkg cmdline r) ∧
                (r.setenvAttempt = true ∨ e.bootOk ≠ "0" ∨ 1 < e.bootAttempt)
            else Selects e (partSlot (pkgTarget pkg cmdline r)))) := by
  have hmode' : e.recoveryMode ≠ "1" := by rw [hmode]; decide
  by_cases hacc : Accepted pkg r
  · rw [consistent_iff_of_touched (fun p => mem_touched_updateInstall board cmdline e hacc),
      pkgTarget, partSlot_ne_running_iff, ← pkgTarget]
    simp only [hacc, not_true_eq_false, false_or]
    refine and_congr_right (fun _ => ?_)
    by_cases hx : Extracted r
    · have hdone := updateInstall_done board cmdline (World.start e) hacc hx
      have hsame := sameBoot_written board (pkgTarget pkg cmdline r) r (World.start e)
      by_cases hs : SlotStored (pkgTarget pkg cmdline r) r
      · simp only [hdone, logUpdate_stored, logUpdate_env, (configure_of_stored hs).1,
          Option.some.injEq, forall_eq', slotWord_eq_text_iff, hx, hs, forall_const, if_true]
        rw [and_left_comm]
        refine and_congr_right (fun _ => and_congr_right (fun hn => ?_))
        rw [configure_boots_iff hs hn (by rw [hsame.env]; exact hmode'), hsame.env, start_env]
      · have hnone := configure_of_not_stored (w := written board (pkgTarget pkg cmdline r) r
          (World.start e)) hs
        simp only [hdone, logUpdate_stored, logUpdate_env, hnone, hsame.stored, hsame.env,
          start_stored, start_env, reduceCtorEq, false_imp_iff, implies_true, true_and, hx,
          forall_const, if_neg hs, bootCmd_selects_iff hmode']
    · obtain ⟨hres, -, hsame⟩ := updateInstall_failed board cmdline (World.start e) hacc hx
      simp [hx, hsame.stored, hres]
  · simp [Consistent, updateInstall_rejected board cmdline _ hacc, hacc]

theorem consistent_iff_forlinx :
    Consistent .forlinx .a (updateInstall .forlinx (samplePkg 0x3d)
      (some (ascii (Slot.target .a).bootargs)) Results.allOk
      (World.start { Env.default with bootOk := "1" })) := by
  refine (consistent_iff .forlinx .a (samplePkg 0x3d) (some (ascii (Slot.target .a).bootargs))
    Results.allOk { Env.default with bootOk := "1" } rfl).mpr (Or.inr ⟨?_, fun _ => ⟨rfl, ?_⟩⟩)
  · simp [samplePkg, AvoidsRunning, currentSlot_bootargs, Slot.char]
  · rw [pkgTarget_samplePkg_auto, if_pos (by decide)]
    exact ⟨Or.inr (Or.inl rfl), Or.inl rfl⟩

/-- A package made for slot a, installed on slot a: the running slot is formatted. -/
theorem running_slot_formatted :
    ¬ Consistent .forlinx .a (updateInstall .forlinx (samplePkg 0x61)
      (some (ascii (Slot.target .a).bootargs)) Results.allOk (World.start Env.default)) := by
  intro h
  have htouched := fun p => mem_touched_updateInstall (p := p) .forlinx
    (some (ascii Target.a.bootargs)) Env.default
    (accepted_samplePkg 0x61 (r := Results.allOk) ⟨rfl, rfl⟩)
  refine ((consistent_iff_of_touched htouched).mp h).1 ?_
  rw [pkgTarget_samplePkg]
  decide

end Update
end BuildingBlocks
