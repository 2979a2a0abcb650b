import BuildingBlocks.Boot.Script
import BuildingBlocks.Lib.Decimal

/-!
# BuildingBlocks.Boot.Recovery

`libbb/bb_recovery.c`: the request for recovery from the running system, and the reason read back
after the reboot.

* `Sys` is what survives the reboot: the saved U-Boot environment and `/persist/recovery_reason`.
* `recoveryRequest` sets `recovery_mode`; it never writes the reason.
* `bootCmd` takes the forced slot for an invalid one, so a granted request boots slot a or b.
* `factoryReset` is what a factory reset does to the environment.
-/

namespace BuildingBlocks
namespace Boot

/-- `bb_recovery_reason_t`. -/
inductive RecoveryReason where
  | none
  | requested
  | slotFail
  | watchdog
  | factory
deriving DecidableEq, Repr

def RecoveryReason.toInt : RecoveryReason → Int
  | .none => 0
  | .requested => 1
  | .slotFail => 2
  | .watchdog => 3
  | .factory => 4

structure Sys where
  env : Env
  reasonFile : Option (List UInt8)
deriving DecidableEq

/-- The shell command `fw_setenv recovery_mode 1`, by its exit status. -/
def fwSetRecoveryMode (status : Int) (s : Sys) : Sys :=
  if status = 0 then { s with env := { s.env with recoveryMode := "1" } } else s

/-- `bb_recovery_request`: `popenOk` and `status` are the results of `popen` and `pclose`. -/
def recoveryRequest (_reason : RecoveryReason) (popenOk : Bool) (status : Int) (s : Sys) :
    Int × Sys :=
  if popenOk then (if status = 0 then 0 else -1, fwSetRecoveryMode status s) else (-1, s)

/-- `%d`: blanks, a sign, digits, in 32 bits; `none` when there is no digit. -/
def scanInt (text : List UInt8) : Option Int :=
  let digits := match text.dropWhile isSpace with
    | 0x2d :: bs => bs
    | 0x2b :: bs => bs
    | bs => bs
  if (digits.takeWhile isDigit).isEmpty then Option.none else some (atoi text)

/-- `bb_recovery_reason`. -/
def recoveryReason (s : Sys) : Int :=
  match s.reasonFile with
  | Option.none => RecoveryReason.none.toInt
  | some text => (scanInt text).getD RecoveryReason.none.toInt

/-- The results of the four `fw_setenv` commands of a factory reset. -/
structure ResetResults where
  setenvSlot : Bool
  setenvAttempt : Bool
  setenvOk : Bool
  setenvMode : Bool
deriving DecidableEq, Repr

def ResetResults.allOk : ResetResults :=
  { setenvSlot := true, setenvAttempt := true, setenvOk := true, setenvMode := true }

/-- What `bb_recovery_factory_reset` does to the environment: four commands, each on its own. The
images it writes and the partitions it wipes hold none of it. -/
def factoryReset (r : ResetResults) (e : Env) : Int × Env :=
  let e := if r.setenvSlot then { e with bootSlot := "a" } else e
  let e := if r.setenvAttempt then { e with bootAttempt := 3 } else e
  let e := if r.setenvOk then { e with bootOk := "0" } else e
  let e := if r.setenvMode then { e with recoveryMode := "0" } else e
  (0, e)

section Request

variable {r : RecoveryReason} {popenOk : Bool} {status : Int} {s : Sys}

theorem recoveryRequest_eq_zero_iff :
    (recoveryRequest r popenOk status s).1 = 0 ↔ popenOk = true ∧ status = 0 := by
  cases popenOk with
  | false => simp [recoveryRequest]
  | true => by_cases h : status = 0 <;> simp [recoveryRequest, h]

theorem recoveryRequest_granted (h : popenOk = true ∧ status = 0) :
    (recoveryRequest r popenOk status s).2 = { s with env := { s.env with recoveryMode := "1" } } :=
  by simp [recoveryRequest, fwSetRecoveryMode, h]

/-- The reason is not stored: what is read back is what was there before. -/
theorem recoveryRequest_reason :
    recoveryReason (recoveryRequest r popenOk status s).2 = recoveryReason s := by
  have hfile : (recoveryRequest r popenOk status s).2.reasonFile = s.reasonFile := by
    unfold recoveryRequest fwSetRecoveryMode
    split_ifs <;> rfl
  simp only [recoveryReason, hfile]

/-- A granted request makes the script boot slot a or slot b. -/
theorem recoveryRequest_boots (h : popenOk = true ∧ status = 0) :
    (bootCmd (recoveryRequest r popenOk status s).2.env).2 ≠ .recovery := by
  rw [recoveryRequest_granted h, bootCmd_forced rfl]
  split_ifs <;> simp

end Request

/-- **Recovery requests are lost.** The request is honoured only when it is refused. -/
theorem recovery_honoured_iff (r : RecoveryReason) (popenOk : Bool) (status : Int) (s : Sys) :
    ((recoveryRequest r popenOk status s).1 = 0 →
        (bootCmd (recoveryRequest r popenOk status s).2.env).2 = .recovery ∧
          recoveryReason (recoveryRequest r popenOk status s).2 = r.toInt) ↔
      ¬ (popenOk = true ∧ status = 0) := by
  rw [recoveryRequest_eq_zero_iff]
  constructor
  · intro h hgranted
    exact recoveryRequest_boots hgranted (h hgranted).1
  · intro h hgranted
    exact absurd hgranted h

@[simp] theorem factoryReset_bootSlot (r : ResetResults) (e : Env) :
    (factoryReset r e).2.bootSlot = if r.setenvSlot then "a" else e.bootSlot := by
  unfold factoryReset
  split_ifs <;> rfl

@[simp] theorem factoryReset_bootAttempt (r : ResetResults) (e : Env) :
    (factoryReset r e).2.bootAttempt = if r.setenvAttempt then 3 else e.bootAttempt := by
  unfold factoryReset
  split_ifs <;> rfl

@[simp] theorem factoryReset_bootOk (r : ResetResults) (e : Env) :
    (factoryReset r e).2.bootOk = if r.setenvOk then "0" else e.bootOk := by
  unfold factoryReset
  split_ifs <;> rfl

@[simp] theorem factoryReset_bootLimit (r : ResetResults) (e : Env) :
    (factoryReset r e).2.bootLimit = e.bootLimit := by
  unfold factoryReset
  split_ifs <;> rfl

/-- Requested on a system with the provisioned environment: slot a is booted, and no reason. -/
theorem recovery_lost :
    ¬ ((recoveryRequest .requested true 0 { env := Env.default, reasonFile := none }).1 = 0 →
      (bootCmd (recoveryRequest .requested true 0
          { env := Env.default, reasonFile := none }).2.env).2 = .recovery ∧
        recoveryReason (recoveryRequest .requested true 0
          { env := Env.default, reasonFile := none }).2 = RecoveryReason.requested.toInt) := by
  decide

end Boot
end BuildingBlocks
