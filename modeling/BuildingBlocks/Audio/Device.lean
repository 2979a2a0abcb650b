import Mathlib.Tactic.Common
import Mathlib.Data.Nat.Basic

/-!
# BuildingBlocks.Audio.Device

The ALSA device of `hal/bb_hal_audio.c`.

* `Caps` are the ranges `HW_REFINE` reports, `Device` is `bb_audio_t` after the device was opened.
* `audioOpen` narrows the ranges to one configuration; `HW_PARAMS` keeps the values it is given or
  fails. Sizes are 32-bit unsigned, as in the code.
* `audioRead` is the result for the bytes the kernel returned.
-/

namespace BuildingBlocks
namespace Audio

/-- `bb_audio_fmt_t`. -/
inductive Fmt where
  | s16
  | s24
  | s32
deriving DecidableEq, Repr

/-- `fmt_bytes`. -/
def Fmt.bytes : Fmt → UInt32
  | .s16 => 2
  | .s24 => 3
  | .s32 => 4

/-- The ranges `bb_audio_open` reads after `HW_REFINE`. -/
structure Caps where
  channelsMin : UInt32
  channelsMax : UInt32
  rateMin : UInt32
  rateMax : UInt32
  periodMin : UInt32
  periodMax : UInt32
  bufferMax : UInt32
  bytesMax : UInt32
deriving DecidableEq, Repr

structure Device where
  fmt : Fmt
  rate : UInt32
  channels : UInt32
  periodFrames : UInt32
  periodBytes : UInt32
  bufferFrames : UInt32
deriving DecidableEq, Repr

def clampU32 (v lo hi : UInt32) : UInt32 := if v < lo then lo else if hi < v then hi else v

/-- The frames of a period: about 10 ms, at least 16, within the range of the device. -/
def periodTarget (caps : Caps) (rate : UInt32) : UInt32 :=
  let target := clampU32 (clampU32 rate caps.rateMin caps.rateMax / 100) caps.periodMin
    caps.periodMax
  let target := if target < 16 then 16 else target
  if caps.periodMax < target then caps.periodMax else target

/-- The frames of the buffer: whole periods, within the limits in frames and in bytes. -/
def bufferTarget (caps : Caps) (frameBytes period : UInt32) : UInt32 :=
  let fromBytes := caps.bytesMax / frameBytes
  let most := if fromBytes < caps.bufferMax then fromBytes else caps.bufferMax
  most / period * period

/-- `bb_audio_open`: `ok` is whether `open` and the ioctls succeed. A division by zero does not
return, and neither does the loop that doubles a `boundary` of zero. -/
def audioOpen (caps : Caps) (rate channels : UInt32) (fmt : Fmt) (ok : Bool) : Option Device :=
  let channels := clampU32 channels caps.channelsMin caps.channelsMax
  let period := periodTarget caps rate
  let buffer := bufferTarget caps (channels * fmt.bytes) period
  if ok ∧ channels * fmt.bytes ≠ 0 ∧ period ≠ 0 ∧ (buffer * 4 = 0 → buffer * 2 = 0) then
    some {
      fmt := fmt
      rate := clampU32 rate caps.rateMin caps.rateMax
      channels := channels
      periodFrames := period
      periodBytes := period * channels * fmt.bytes
      bufferFrames := buffer }
  else none

/-- The value of a `long` as an `int`. -/
def toInt32 (z : Int) : Int := z.bmod 0x100000000

/-- The bytes `bb_audio_read` and `bb_audio_write` ask the kernel for. -/
def Device.bytesOf (a : Device) (frames : UInt32) : UInt32 := frames * a.channels * a.fmt.bytes

/-- `bb_audio_read` when the kernel returned `n` bytes. -/
def audioRead (a : Device) (n : UInt32) : Int :=
  toInt32 ((n / (a.channels * a.fmt.bytes)).toNat : Int)

end Audio
end BuildingBlocks
