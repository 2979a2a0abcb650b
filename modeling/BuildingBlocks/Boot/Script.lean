import Mathlib.Tactic.Common

/-!
# BuildingBlocks.Boot.Script

`deploy/boot/boot.cmd`, section by section, over the U-Boot variables it reads and writes.

* `Env` holds the variables of the slot selection. Counters are integers, the rest is text.
* `Uboot` is the working environment and the saved one: `setenv` changes the first, `env save`
  copies it to the second.
* `bootCmd` runs the whole script on a saved environment and gives the environment it leaves and
  what `booti` starts.
* `envAt`, `bootAt` follow boot after boot, each confirmed by userspace or not.
-/

namespace BuildingBlocks
namespace Boot

inductive Slot where
  | a
  | b
deriving DecidableEq, Repr

/-- The text of the slot in `boot_slot`. -/
def Slot.text : Slot → String
  | .a => "a"
  | .b => "b"

def Slot.char : Slot → UInt8
  | .a => 0x61
  | .b => 0x62

def Slot.other : Slot → Slot
  | .a => .b
  | .b => .a

/-- The U-Boot variables of the slot selection. -/
structure Env where
  bootSlot : String
  bootAttempt : Int
  bootOk : String
  bootLimit : Int
  recoveryMode : String
deriving DecidableEq, Repr

/-- `deploy/boot/uboot-env.txt`. -/
def Env.default : Env where
  bootSlot := "a"
  bootAttempt := 3
  bootOk := "0"
  bootLimit := 3
  recoveryMode := "0"

structure Uboot where
  env : Env
  saved : Env
deriving DecidableEq, Repr

/-- `env load`. -/
def envLoad (saved : Env) : Uboot := { env := saved, saved := saved }

/-- `env save`. -/
def Uboot.envSave (u : Uboot) : Uboot := { u with saved := u.env }

/-- `setenv boot_attempt ${boot_limit}; setenv boot_ok 0`. -/
def Env.resetAttempts (e : Env) : Env := { e with bootAttempt := e.bootLimit, bootOk := "0" }

/-- Section 2: forced recovery. -/
def forceRecovery (u : Uboot) : Uboot :=
  if u.env.recoveryMode = "1" then { u with env := { u.env with bootSlot := "recovery" } } else u

/-- Section 3: an invalid slot becomes slot a. -/
def determineSlot (u : Uboot) : Uboot :=
  if u.env.bootSlot ≠ "a" ∧ u.env.bootSlot ≠ "b" then
    ({ u with env := { u.env with bootSlot := "a" }.resetAttempts } : Uboot).envSave
  else u

/-- Section 4: retry, fall back, or start a fresh count. -/
def checkBootOk (u : Uboot) : Uboot :=
  if u.env.bootOk = "0" then
    if u.env.bootAttempt ≤ 1 then
      if u.env.bootSlot = "a" then
        ({ u with env := { u.env with bootSlot := "b" }.resetAttempts } : Uboot).envSave
      else
        ({ u with env := { u.env with bootSlot := "recovery" }.resetAttempts } : Uboot).envSave
    else
      ({ u with env := { u.env with bootAttempt := u.env.bootAttempt - 1 } } : Uboot).envSave
  else ({ u with env := u.env.resetAttempts } : Uboot).envSave

/-- Partition `num` of the disk `dev`, as in `/dev/mmcblk0p4`. -/
structure Part where
  dev : String
  num : Nat
deriving DecidableEq, Repr

/-- What `booti` starts. -/
inductive Target where
  | a
  | b
  | recovery
deriving DecidableEq, Repr

def Slot.target : Slot → Target
  | .a => .a
  | .b => .b

/-- The value of `boot_slot` that selects the target in sections 5 and 6. -/
def Target.text : Target → String
  | .a => "a"
  | .b => "b"
  | .recovery => "recovery"

/-- Sections 5 and 6: `booti` of the recovery section does not come back. -/
def target (e : Env) : Target :=
  if e.bootSlot = "recovery" then .recovery
  else if e.bootSlot = "a" then .a
  else .b

/-- The partition the kernel is loaded from (`load mmc 0:N`). -/
def Target.bootPart : Target → Part
  | .a => { dev := "/dev/mmcblk0", num := 4 }
  | .b => { dev := "/dev/mmcblk0", num := 5 }
  | .recovery => { dev := "/dev/mmcblk0", num := 8 }

/-- The partition of `root=`. -/
def Target.rootPart : Target → Part
  | .a => { dev := "/dev/mmcblk0", num := 6 }
  | .b => { dev := "/dev/mmcblk0", num := 7 }
  | .recovery => { dev := "/dev/mmcblk0", num := 8 }

/-- The kernel command line; the script breaks that of a slot after `115200`, `panic=5`, the slot
and `ext4`. -/
def Target.bootargs : Target → String
  | .recovery => "console=ttymxc0,115200 root=/dev/mmcblk0p8 rw rootwait panic=5"
  | .a => "console=ttymxc0,115200     root=/dev/mmcblk0p6 rw rootwait panic=5     " ++
      "boot_slot=a     rootfstype=ext4     cma=512M"
  | .b => "console=ttymxc0,115200     root=/dev/mmcblk0p7 rw rootwait panic=5     " ++
      "boot_slot=b     rootfstype=ext4     cma=512M"

/-- One run of the script: the environment it leaves and what it boots. -/
def bootCmd (saved : Env) : Env × Target :=
  let u := checkBootOk (determineSlot (forceRecovery (envLoad saved)))
  (u.saved, target u.env)

def Env.confirm (e : Env) : Env := { e with bootOk := "1" }

/-- The saved environment before boot `n`, when userspace confirms exactly the boots with `ok`. -/
def envAt (e : Env) (ok : Nat → Bool) : Nat → Env
  | 0 => e
  | n + 1 =>
    let e' := (bootCmd (envAt e ok n)).1
    if ok n then e'.confirm else e'

def bootAt (e : Env) (ok : Nat → Bool) (n : Nat) : Target := (bootCmd (envAt e ok n)).2

/-- What the script turns to when the target is exhausted; after recovery it defaults to slot a. -/
def Target.fallback : Target → Target
  | .a => .b
  | .b => .recovery
  | .recovery => .a

theorem fallback_ne (x : Target) : x.fallback ≠ x := by cases x <;> decide

@[simp] theorem slot_target_text (s : Slot) : s.target.text = s.text := by cases s <;> rfl

theorem slot_target_ne_recovery (s : Slot) : s.target ≠ .recovery := by cases s <;> decide

section Step

variable {e : Env} {x : Target}

/-- After a confirmed boot the slot is kept and the count starts afresh. -/
theorem bootCmd_confirmed (hx : x ≠ .recovery) (hslot : e.bootSlot = x.text)
    (hmode : e.recoveryMode ≠ "1") (hok : e.bootOk ≠ "0") :
    bootCmd e = (e.resetAttempts, x) := by
  cases x with
  | recovery => exact absurd rfl hx
  | a | b =>
    simp [bootCmd, forceRecovery, determineSlot, checkBootOk, envLoad, Uboot.envSave,
      Env.resetAttempts, target, hmode, hok, hslot, Target.text]

/-- After a failed boot with attempts left the slot is kept and one attempt is used. -/
theorem bootCmd_retry (hx : x ≠ .recovery) (hslot : e.bootSlot = x.text)
    (hmode : e.recoveryMode ≠ "1") (hok : e.bootOk = "0") (hleft : 1 < e.bootAttempt) :
    bootCmd e = ({ e with bootAttempt := e.bootAttempt - 1 }, x) := by
  have hleft' : ¬ e.bootAttempt ≤ 1 := by omega
  cases x with
  | recovery => exact absurd rfl hx
  | a | b =>
    simp [bootCmd, forceRecovery, determineSlot, checkBootOk, envLoad, Uboot.envSave, target,
      hmode, hok, hslot, hleft', Target.text]

/-- After a failed boot with no attempt left the fallback is booted with a fresh count. -/
theorem bootCmd_giveUp (hx : x ≠ .recovery) (hslot : e.bootSlot = x.text)
    (hmode : e.recoveryMode ≠ "1") (hok : e.bootOk = "0") (hnone : e.bootAttempt ≤ 1) :
    bootCmd e = ({ e with bootSlot := x.fallback.text }.resetAttempts, x.fallback) := by
  cases x with
  | recovery => exact absurd rfl hx
  | a | b =>
    simp [bootCmd, forceRecovery, determineSlot, checkBootOk, envLoad, Uboot.envSave,
      Env.resetAttempts, target, hmode, hok, hslot, hnone, Target.text, Target.fallback]

/-- A valid slot is booted exactly when its last boot was confirmed or attempts are left. -/
theorem bootCmd_keeps_iff (hx : x ≠ .recovery) (hslot : e.bootSlot = x.text)
    (hmode : e.recoveryMode ≠ "1") :
    (bootCmd e).2 = x ↔ e.bootOk ≠ "0" ∨ 1 < e.bootAttempt := by
  by_cases hok : e.bootOk = "0"
  · rcases Int.lt_or_le 1 e.bootAttempt with h | h
    · simp [bootCmd_retry hx hslot hmode hok h, h]
    · have hnot : ¬ 1 < e.bootAttempt := by omega
      simp [bootCmd_giveUp hx hslot hmode hok h, fallback_ne, hok, hnot]
  · simp [bootCmd_confirmed hx hslot hmode hok, hok]

/-- A forced recovery is taken for an invalid slot: slot a with a fresh count, or slot b when that
count is used up at once. -/
theorem bootCmd_forced (hmode : e.recoveryMode = "1") :
    bootCmd e = if e.bootLimit ≤ 1 then ({ e with bootSlot := "b" }.resetAttempts, .b)
      else ({ e with
        bootSlot := "a"
        bootOk := "0"
        bootAttempt := e.bootLimit - 1 }, .a) := by
  by_cases hlim : e.bootLimit ≤ 1 <;>
    simp [bootCmd, forceRecovery, determineSlot, checkBootOk, envLoad, Uboot.envSave,
      Env.resetAttempts, target, hmode, hlim]

theorem forceRecovery_frame (u : Uboot) :
    (forceRecovery u).env.recoveryMode = u.env.recoveryMode ∧
      (forceRecovery u).env.bootLimit = u.env.bootLimit := by
  unfold forceRecovery
  split_ifs <;> exact ⟨rfl, rfl⟩

theorem determineSlot_frame (u : Uboot) :
    (determineSlot u).env.recoveryMode = u.env.recoveryMode ∧
      (determineSlot u).env.bootLimit = u.env.bootLimit := by
  unfold determineSlot
  split_ifs <;> exact ⟨rfl, rfl⟩

theorem checkBootOk_saved (u : Uboot) : (checkBootOk u).saved = (checkBootOk u).env := by
  unfold checkBootOk
  split_ifs <;> rfl

theorem checkBootOk_frame (u : Uboot) :
    (checkBootOk u).env.recoveryMode = u.env.recoveryMode ∧
      (checkBootOk u).env.bootLimit = u.env.bootLimit := by
  unfold checkBootOk
  split_ifs <;> exact ⟨rfl, rfl⟩

@[simp] theorem bootCmd_recoveryMode (e : Env) : (bootCmd e).1.recoveryMode = e.recoveryMode := by
  simp only [bootCmd, checkBootOk_saved, checkBootOk_frame, determineSlot_frame,
    forceRecovery_frame, envLoad]

@[simp] theorem bootCmd_bootLimit (e : Env) : (bootCmd e).1.bootLimit = e.bootLimit := by
  simp only [bootCmd, checkBootOk_saved, checkBootOk_frame, determineSlot_frame,
    forceRecovery_frame, envLoad]

theorem bootCmd_target (e : Env) : (bootCmd e).2 = target (bootCmd e).1 := by
  simp only [bootCmd, checkBootOk_saved]

end Step

end Boot
end BuildingBlocks
