import BuildingBlocks.Boot.Script
import BuildingBlocks.Lib.Text
import BuildingBlocks.Update.Package

/-!
# BuildingBlocks.Update.Install

`bb_update_install` of `tools/bb-update/bb_update.c`, step by step.

* `World` is what the installer changes: the partitions, the saved U-Boot environment, the update
  log, and the commands it has run.
* `Results` says how each command and call fares; most of them are ignored by the code.
* `setenvCalls` is how the shell takes the line of step 10, where the target character stands
  unquoted.
-/

namespace BuildingBlocks
namespace Update

open Boot

/-! ## The board -/

/-- The boards of `bb_board.h`. -/
inductive Board where
  | evk
  | forlinx
deriving DecidableEq, Repr

/-- `BB_ROOT_DEV`. -/
def Board.rootDev : Board → String
  | .evk => "/dev/mmcblk1"
  | .forlinx => "/dev/mmcblk0"

/-- `BB_PART_BOOT_A`, `BB_PART_BOOT_B`. -/
def Board.partBoot : Board → Slot → Nat
  | .evk, .a => 1
  | .evk, .b => 2
  | .forlinx, .a => 4
  | .forlinx, .b => 5

/-- `BB_PART_ROOTFS_A`, `BB_PART_ROOTFS_B`. -/
def Board.partRootfs : Board → Slot → Nat
  | .evk, .a => 3
  | .evk, .b => 4
  | .forlinx, .a => 6
  | .forlinx, .b => 7

def Board.bootPart (b : Board) (s : Slot) : Part := { dev := b.rootDev, num := b.partBoot s }

def Board.rootfsPart (b : Board) (s : Slot) : Part := { dev := b.rootDev, num := b.partRootfs s }

/-! ## The target slot -/

/-- `bb_update_current_slot` on the content of `/proc/cmdline`; `none` when it does not open. -/
def currentSlot (cmdline : Option Bytes) : UInt8 :=
  match cmdline with
  | none => 0x61
  | some input =>
    match fgets 512 input with
    | none => 0x61
    | some line =>
      match strstr (ascii "boot_slot=") (cstr line) with
      | none => 0x61
      | some p => p.getD 10 0

/-- Step 3: `=` is the opposite of the current slot, anything else is taken as it is. -/
def installTarget (targetSlot current : UInt8) : UInt8 :=
  if targetSlot = 0x3d then (if current = 0x61 then 0x62 else 0x61) else targetSlot

/-- Step 4: the slot whose partitions are used. -/
def partSlot (target : UInt8) : Slot := if target = 0x61 then .a else .b

/-! ## The world -/

inductive Content where
  | old
  | formatted
  | complete
  | incomplete
deriving DecidableEq, Repr

inductive Cmd where
  | mkfsVfat (p : Part)
  | mkfsExt4 (p : Part)
  | extract
  | mount (p : Part)
  | untarBoot
  | untarRootfs
  | postInstall
  | umount
  | rmTmpdir
  | fwSetenv (target : UInt8)
deriving DecidableEq, Repr

def Cmd.part? : Cmd → Option Part
  | .mkfsVfat p | .mkfsExt4 p | .mount p => some p
  | _ => none

/-- One line of `/persist/update-log.json`. -/
structure LogEntry where
  ts : Int
  fromVersion : Bytes
  toVersion : Bytes
  slot : UInt8
  ok : Bool
deriving DecidableEq, Repr

structure World where
  parts : Part → Content
  env : Env
  /-- what was written to `boot_slot` -/
  stored : Option String
  log : List LogEntry
  cmds : List Cmd

def World.start (env : Env) : World :=
  { parts := fun _ => .old, env := env, stored := none, log := [], cmds := [] }

def World.run (w : World) (c : Cmd) : World := { w with cmds := w.cmds ++ [c] }

def World.setPart (w : World) (p : Part) (c : Content) : World :=
  { w with parts := Function.update w.parts p c }

/-- The partitions formatted or mounted so far. -/
def World.touched (w : World) : List Part := w.cmds.filterMap Cmd.part?

/-! ## The commands -/

inductive MkfsResult where
  | ok
  | failClean
  | failDirty
deriving DecidableEq, Repr

structure Results where
  openVerify : Bool
  openRead : Bool
  /-- what the uninitialised manifest holds -/
  garbage : Manifest
  mkfsBoot : MkfsResult
  mkfsRootfs : MkfsResult
  mkdtempOk : Bool
  extractOk : Bool
  statBootTar : Bool
  mkdtempBoot : Bool
  mountBoot : Bool
  tarBoot : Bool
  mkdtempRootfs : Bool
  mountRootfs : Bool
  tarRootfs : Bool
  postInstall : Bool
  /-- what the shell makes of a pattern or a tilde -/
  expand : String
  setenvSlot : Bool
  setenvAttempt : Bool
  setenvOk : Bool
  logOk : Bool
  now : Int

/-- Everything succeeds; the root file system has no post-install script. -/
def Results.allOk : Results where
  openVerify := true
  openRead := true
  garbage := Manifest.zero
  mkfsBoot := .ok
  mkfsRootfs := .ok
  mkdtempOk := true
  extractOk := true
  statBootTar := true
  mkdtempBoot := true
  mountBoot := true
  tarBoot := true
  mkdtempRootfs := true
  mountRootfs := true
  tarRootfs := true
  postInstall := false
  expand := ""
  setenvSlot := true
  setenvAttempt := true
  setenvOk := true
  logOk := true
  now := 0

/-- `mkfs` on `p`, its exit status ignored. -/
def World.mkfs (w : World) (c : Part → Cmd) (p : Part) (r : MkfsResult) : World :=
  let w := w.run (c p)
  match r with
  | .ok => w.setPart p .formatted
  | .failClean => w
  | .failDirty => w.setPart p .incomplete

/-- `mount`, `tar xzf`: without the mount the archive goes to a directory of the running system. -/
def World.fill (w : World) (p : Part) (untar : Cmd) (mountOk tarOk : Bool) : World :=
  let w := (w.run (.mount p)).run untar
  if mountOk then
    w.setPart p (if tarOk && w.parts p == .formatted then .complete else .incomplete)
  else w

/-- Step 5. -/
def formatParts (boot rootfs : Part) (r : Results) (w : World) : World :=
  (w.mkfs .mkfsVfat boot r.mkfsBoot).mkfs .mkfsExt4 rootfs r.mkfsRootfs

/-- Step 7. -/
def writeBoot (boot : Part) (r : Results) (w : World) : World :=
  if r.statBootTar then
    if r.mkdtempBoot then (w.fill boot .untarBoot r.mountBoot r.tarBoot).run .umount else w
  else w

/-- Steps 8 and 9. -/
def writeRootfs (rootfs : Part) (r : Results) (w : World) : World :=
  if r.mkdtempRootfs then
    let w := w.fill rootfs .untarRootfs r.mountRootfs r.tarRootfs
    let w := if r.postInstall then w.run .postInstall else w
    w.run .umount
  else w

/-- The `fw_setenv` calls of step 10; a value of `boot_slot` may be empty, which deletes it. -/
inductive Setenv where
  | slot (v : String)
  | attempt
  | ok
deriving DecidableEq, Repr

def Setenv.apply (w : World) : Setenv → World
  | .slot v => { w with
      env := { w.env with bootSlot := v }
      stored := some v }
  | .attempt => { w with env := { w.env with bootAttempt := 3 } }
  | .ok => { w with env := { w.env with bootOk := "0" } }

/-- The characters the shell does not take where the slot stands: quotes and operators. -/
def shellRejects : List UInt8 := ascii "\"'()&;<>|" ++ [0x60]

/-- The characters the shell expands: file name patterns and the tilde. -/
def shellExpands : List UInt8 := ascii "*?~"

/-- What the shell passes as the value of `boot_slot`. -/
def slotWord (expand : String) (c : UInt8) : String :=
  -- the argument is cut off by NUL, newline or #, or is blank
  if c = 0 ∨ c = 0x0a ∨ c = 0x23 ∨ c = 0x20 ∨ c = 0x09 then ""
  -- a backslash quotes the blank after it
  else if c = 0x5c then " "
  else if c ∈ shellExpands then expand
  else String.singleton (Char.ofNat c.toNat)

/-- The calls `sh` makes for `fw_setenv boot_slot %c && fw_setenv boot_attempt 3 && fw_setenv
boot_ok 0`. -/
def setenvCalls (expand : String) (c : UInt8) : List Setenv :=
  if c ∈ shellRejects then []
  else .slot (slotWord expand c) ::
    -- NUL ends the command, a newline the first line of it, # starts a comment
    if c = 0 ∨ c = 0x0a ∨ c = 0x23 then [] else [.attempt, .ok]

def Results.setenv (r : Results) : Setenv → Bool
  | .slot _ => r.setenvSlot
  | .attempt => r.setenvAttempt
  | .ok => r.setenvOk

/-- A chain of `&&`: the first call that fails ends it. -/
def runSetenv (r : Results) : List Setenv → World → World
  | [], w => w
  | c :: cs, w => if r.setenv c then runSetenv r cs (c.apply w) else w

/-- Step 10: a failure is only printed. -/
def configure (target : UInt8) (r : Results) (w : World) : World :=
  runSetenv r (setenvCalls r.expand target) (w.run (.fwSetenv target))

/-- Step 11. -/
def logUpdate (m : Manifest) (target : UInt8) (r : Results) (w : World) : World :=
  if r.logOk then
    { w with log := w.log ++ [{
        ts := r.now
        fromVersion := cstr m.fromVersion.toList
        toVersion := cstr m.toVersion.toList
        slot := target
        ok := false }] }
  else w

/-- `bb_update_install`. -/
def updateInstall (board : Board) (pkg : Bytes) (cmdline : Option Bytes) (r : Results)
    (w : World) : Int × World :=
  if updateVerify (if r.openVerify then some pkg else none) ≠ 0 then (-1, w)
  else
    match readManifest (if r.openRead then some pkg else none) r.garbage with
    | none => (-1, w)
    | some m =>
      let target := installTarget m.targetSlot (currentSlot cmdline)
      let boot := board.bootPart (partSlot target)
      let rootfs := board.rootfsPart (partSlot target)
      let w := formatParts boot rootfs r w
      if r.mkdtempOk then
        let w := w.run .extract
        if r.extractOk then
          let w := writeRootfs rootfs r (writeBoot boot r w)
          let w := configure target r (w.run .rmTmpdir)
          (0, logUpdate m target r w)
        else (-1, w)
      else (-1, w)

end Update
end BuildingBlocks
