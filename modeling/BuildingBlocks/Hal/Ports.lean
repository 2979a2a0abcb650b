import BuildingBlocks.Hal.Gpio
import BuildingBlocks.Lib.Ledger

/-!
# BuildingBlocks.Hal.Ports

Opening and closing the devices of `hal/`, with the system calls that acquire or release something.

* `Res` is what the system gives out.
* `Port` is the descriptor of an SPI, UART, I2C, RTC, watchdog or audio device; `openPort` is what
  their open functions share, and each of these is `openPort` with its own configuration.
* `gpioOpen` and `gpioClose` have two descriptors, and the scan that finds the chip.
-/

namespace BuildingBlocks
namespace Hal

open Lib

inductive Res where
  | fd (n : Nat)
  | heap (addr : UInt64)
  | thread (tid : Nat)
  /-- A buffer of a DRM device, by its handle. -/
  | handle (fd : Nat) (h : UInt32)
  | fb (fd : Nat) (id : UInt32)
  | map (addr : UInt64)
deriving DecidableEq, Repr

/-- An open function: what it leaves in the struct, its return value and its system calls. -/
structure Opened (σ : Type) where
  dev : σ
  ret : Int
  acts : List (Act Res)

/-! ## One descriptor -/

/-- The field `fd` of `bb_spi_t`, `bb_uart_t`, `bb_i2c_t`, `bb_rtc_t`, `bb_wdg_t`, `bb_audio_t`. -/
structure Port where
  fd : Int
deriving DecidableEq, Repr

def Port.named (p : Port) : List Res := if p.fd < 0 then [] else [.fd p.fd.toNat]

/-- `bb_spi_close`, `bb_uart_close`, `bb_i2c_close`, `bb_rtc_close`, `bb_wdg_close` and
`bb_audio_close`. -/
def Port.close (p : Port) : Port × List (Act Res) :=
  if 0 ≤ p.fd then ({ fd := -1 }, [.release (.fd p.fd.toNat)]) else (p, [])

/-- `open`, then the configuration. When that fails the descriptor is closed, and stays in the
field; `last` is the return value otherwise. -/
def openPort (fd : Option Nat) (configured : Bool) (last : Int) : Opened Port :=
  match fd with
  | none => { dev := { fd := -1 }, ret := -1, acts := [] }
  | some n =>
    if configured then { dev := { fd := n }, ret := last, acts := [.acquire (.fd n)] }
    else { dev := { fd := n }, ret := -1, acts := [.acquire (.fd n), .release (.fd n)] }

/-- The results of `open` and of the ioctls of `bb_spi_open`. -/
structure SpiCalls where
  fd : Option Nat
  mode32 : Bool
  mode : Bool
  bitsPerWord : Bool
  maxSpeed : Bool
deriving DecidableEq, Repr

/-- The mode is set by one ioctl or the other, the bits per word unless they are 8. -/
def SpiCalls.configured (k : SpiCalls) (bits : UInt8) : Bool :=
  (k.mode32 || k.mode) && (bits == 8 || k.bitsPerWord) && k.maxSpeed

/-- `bb_spi_open`. -/
def spiOpen (bits : UInt8) (k : SpiCalls) : Opened Port := openPort k.fd (k.configured bits) 0

/-- The results of `open`, `tcgetattr` and `tcsetattr` in `bb_uart_open`, then of those in
`bb_uart_set_baud`. -/
structure UartCalls where
  fd : Option Nat
  getattr : Bool
  setattr : Bool
  getattrBaud : Bool
  setattrBaud : Bool
deriving DecidableEq, Repr

/-- The rates of the switch in `bb_uart_set_baud`. -/
def baudRates : List Int := [9600, 19200, 38400, 57600, 115200, 230400, 460800, 921600]

/-- The return value of `bb_uart_set_baud` on an open port. -/
def uartSetBaudRet (baud : Int) (k : UartCalls) : Int :=
  if !k.getattrBaud then -1 else if baud ∉ baudRates then -1 else if k.setattrBaud then 0 else -1

/-- `bb_uart_open`; the descriptor stays open when the rate cannot be set. -/
def uartOpen (baud : Int) (k : UartCalls) : Opened Port :=
  openPort k.fd (k.getattr && k.setattr) (uartSetBaudRet baud k)

/-- `bb_i2c_open`. -/
def i2cOpen (fd : Option Nat) : Opened Port := openPort fd true 0

/-- `bb_rtc_open`. -/
def rtcOpen (fd : Option Nat) : Opened Port := openPort fd true 0

/-- `bb_wdg_open`; when the timeout cannot be read a default is taken. -/
def wdgOpen (fd : Option Nat) : Opened Port := openPort fd true 0

/-- The results of `open` and of the ioctls of `bb_audio_open`. -/
structure AudioCalls where
  fd : Option Nat
  hwRefine : Bool
  hwParams : Bool
  swParams : Bool
  prepare : Bool
deriving DecidableEq, Repr

/-- `bb_audio_open`. The descriptor of a failed call is not left in the field. -/
def audioOpen (k : AudioCalls) : Opened Port :=
  match k.fd with
  | none => { dev := { fd := -1 }, ret := -1, acts := [] }
  | some n =>
    if k.hwRefine && k.hwParams && k.swParams && k.prepare then
      { dev := { fd := n }, ret := 0, acts := [.acquire (.fd n)] }
    else { dev := { fd := -1 }, ret := -1, acts := [.acquire (.fd n), .release (.fd n)] }

section Port

variable {fd : Option Nat} {configured : Bool} {last : Int}

@[simp] theorem named_neg_one : Port.named { fd := -1 } = [] := rfl

@[simp] theorem named_natCast (n : Nat) : Port.named { fd := n } = [.fd n] := by
  simp [Port.named]

theorem close_acts (p : Port) : p.close.2 = p.named.map .release := by
  unfold Port.close Port.named
  by_cases h : 0 ≤ p.fd
  · rw [if_pos h, if_neg (not_lt.mpr h)]
    rfl
  · rw [if_neg h, if_pos (not_le.mp h)]
    rfl

theorem named_close (p : Port) : p.close.1.named = [] := by
  unfold Port.close
  split_ifs with h
  · rfl
  · exact if_pos (not_le.mp h)

/-- A call that opens the device and fails to configure it. -/
def misconfigured (fd : Option Nat) (configured : Bool) : Bool := fd.isSome && !configured

theorem openPort_within :
    run Act.within [] (openPort fd configured last).acts =
      some (if misconfigured fd configured then []
        else (openPort fd configured last).dev.named) := by
  cases fd with
  | none => rfl
  | some n => cases configured <;> simp [openPort, misconfigured, run, Act.within]

theorem openPort_stale (h : misconfigured fd configured = true) :
    (openPort fd configured last).dev.named ≠ [] := by
  cases fd with
  | none => cases h
  | some n => cases configured <;> simp [openPort]

theorem openPort_acquired :
    ∀ r ∈ (openPort fd configured last).dev.named,
      .acquire r ∈ (openPort fd configured last).acts := by
  cases fd with
  | none => simp [openPort]
  | some n => cases configured <;> simp [openPort]

theorem audioOpen_within (k : AudioCalls) :
    run Act.within [] (audioOpen k).acts = some (audioOpen k).dev.named := by
  unfold audioOpen
  cases k.fd with
  | none => rfl
  | some n =>
    dsimp only
    split_ifs <;> simp [run, Act.within]

theorem audioOpen_acquired (k : AudioCalls) :
    ∀ r ∈ (audioOpen k).dev.named, .acquire r ∈ (audioOpen k).acts := by
  unfold audioOpen
  cases k.fd with
  | none => simp
  | some n =>
    dsimp only
    split_ifs <;> simp

end Port

/-! ## GPIO lines -/

/-- `bb_gpio_t`. -/
structure GpioLine where
  num : Int
  chipFd : Int
  lineFd : Int
  lineOffset : Int
  isSysfs : Bool
  exported : Bool
deriving DecidableEq, Repr

/-- What the system answers `bb_gpio_open`: whether `/sys/class/gpio` exists; the chips, and the
descriptor each of them is opened with; the descriptors of the chip and of the line; whether the
export and the direction file can be written, and the descriptor of the value file at the first
attempt and at the second. -/
structure GpioCalls where
  sysfs : Bool
  chips : List Gpio.Chip
  probeFd : Nat → Nat
  chipFd : Option Nat
  lineFd : Option Nat
  exportFile : Bool
  valueFd : Option Nat
  valueFdAgain : Option Nat
  directionFile : Bool

/-- Every chip that `gpio_find_chip` opens it closes again. -/
def probeActs (probeFd : Nat → Nat) : Nat → List Gpio.Chip → Int → List (Act Res)
  | _, [], _ => []
  | i, c :: chips, num =>
    if !c.opens then probeActs probeFd (i + 1) chips num
    else
      [.acquire (.fd (probeFd i)), .release (.fd (probeFd i))] ++
        if c.info then
          if Gpio.toInt c.lines.toNat ≤ num then
            probeActs probeFd (i + 1) chips (Gpio.toInt (num - c.lines.toNat))
          else []
        else probeActs probeFd (i + 1) chips num

/-- `bb_gpio_t` after the `memset` and the two assignments of `bb_gpio_open`. -/
def GpioLine.blank : GpioLine :=
  { num := 0, chipFd := -1, lineFd := -1, lineOffset := 0, isSysfs := false, exported := false }

/-- `gpio_v2_open`. -/
def gpioV2Open (num : Int) (k : GpioCalls) : Opened GpioLine :=
  let probes := probeActs k.probeFd 0 (k.chips.take 8) num
  match Gpio.gpioFindChip k.chips num with
  | none => { dev := .blank, ret := -1, acts := probes }
  | some (_, offset) =>
    match k.chipFd with
    | none => { dev := .blank, ret := -1, acts := probes }
    | some c =>
      match k.lineFd with
      | none => { dev := .blank, ret := -1, acts := probes ++ [.acquire (.fd c), .release (.fd c)] }
      | some l =>
        { dev := { num := num, chipFd := c, lineFd := l, lineOffset := offset, isSysfs := false
                   exported := false }
          ret := 0
          acts := probes ++ [.acquire (.fd c), .acquire (.fd l)] }

/-- `gpio_sysfs_open`. The value file is tried twice; a failure to set the direction leaves it
open. -/
def gpioSysfsOpen (num : Int) (k : GpioCalls) : Opened GpioLine :=
  let line : GpioLine := { GpioLine.blank with num := num, isSysfs := true }
  if !k.exportFile then { dev := line, ret := -1, acts := [] }
  else
    match k.valueFd <|> k.valueFdAgain with
    | none => { dev := line, ret := -1, acts := [] }
    | some n =>
      { dev := { line with lineFd := n, exported := true }
        ret := if k.directionFile then 0 else -1
        acts := [.acquire (.fd n)] }

/-- `bb_gpio_open`. -/
def gpioOpen (num : Int) (k : GpioCalls) : Opened GpioLine :=
  if !k.sysfs then gpioV2Open num k else gpioSysfsOpen num k

/-- `if (fd >= 0) { close(fd); fd = -1; }`. -/
def closeFd (fd : Int) : Int × List (Act Res) :=
  if 0 ≤ fd then (-1, [.release (.fd fd.toNat)]) else (fd, [])

/-- `bb_gpio_close`: the line, then the chip; the chip is left alone when it is a sysfs line. -/
def GpioLine.close (g : GpioLine) : GpioLine × List (Act Res) :=
  if g.isSysfs then
    ({ g with lineFd := (closeFd g.lineFd).1, exported := false }, (closeFd g.lineFd).2)
  else
    ({ g with lineFd := (closeFd g.lineFd).1, chipFd := (closeFd g.chipFd).1 },
      (closeFd g.lineFd).2 ++ (closeFd g.chipFd).2)

def GpioLine.named (g : GpioLine) : List Res :=
  Port.named { fd := g.lineFd } ++ if g.isSysfs then [] else Port.named { fd := g.chipFd }

section Gpio

theorem closeFd_eq (fd : Int) :
    (closeFd fd).2 = (Port.named { fd := fd }).map .release ∧
      Port.named { fd := (closeFd fd).1 } = [] := by
  unfold closeFd Port.named
  by_cases h : 0 ≤ fd
  · simp [if_pos h, if_neg (not_lt.mpr h)]
  · simp [if_neg h, if_pos (not_le.mp h)]

theorem gpioClose_acts (g : GpioLine) : g.close.2 = g.named.map .release := by
  unfold GpioLine.close GpioLine.named
  split_ifs
  · rw [List.append_nil]
    exact (closeFd_eq _).1
  · rw [List.map_append, ← (closeFd_eq _).1, ← (closeFd_eq _).1]

theorem named_gpioClose (g : GpioLine) : g.close.1.named = [] := by
  unfold GpioLine.close GpioLine.named
  by_cases h : g.isSysfs
  · rw [if_pos h]
    simp only [h, if_true, (closeFd_eq g.lineFd).2, List.append_nil]
  · rw [if_neg h]
    simp only [h, (closeFd_eq g.lineFd).2, (closeFd_eq g.chipFd).2, List.append_nil, ite_self]

/-- The scan leaves nothing behind. -/
theorem probeActs_within (probeFd : Nat → Nat) (i : Nat) (chips : List Gpio.Chip) (num : Int)
    (rest : List (Act Res)) :
    run Act.within [] (probeActs probeFd i chips num ++ rest) = run Act.within [] rest := by
  induction chips generalizing i num with
  | nil => rfl
  | cons c chips ih =>
    have hpair : ∀ n (acts : List (Act Res)),
        run Act.within [] (.acquire (.fd n) :: .release (.fd n) :: acts) =
          run Act.within [] acts := by
      intro n acts
      simp [run, Act.within]
    unfold probeActs
    split_ifs
    · exact ih (i + 1) num
    · simp only [List.cons_append, List.nil_append, hpair]
      exact ih (i + 1) _
    · simp only [List.cons_append, List.nil_append, hpair]
    · simp only [List.cons_append, List.nil_append, hpair]
      exact ih (i + 1) num

theorem gpioOpen_within (num : Int) (k : GpioCalls) :
    run Act.within [] (gpioOpen num k).acts = some (gpioOpen num k).dev.named := by
  have hprobes := probeActs_within k.probeFd 0 (k.chips.take 8) num
  have hnone := hprobes []
  rw [List.append_nil] at hnone
  unfold gpioOpen
  split_ifs
  · unfold gpioV2Open
    cases Gpio.gpioFindChip k.chips num with
    | none => exact hnone
    | some found =>
      cases k.chipFd with
      | none => exact hnone
      | some c =>
        cases k.lineFd with
        | none =>
          dsimp only
          rw [hprobes]
          simp [run, Act.within, GpioLine.blank, GpioLine.named]
        | some l =>
          dsimp only
          rw [hprobes]
          simp [run, Act.within, GpioLine.named]
  · unfold gpioSysfsOpen
    cases k.exportFile with
    | false => rfl
    | true =>
      cases k.valueFd <|> k.valueFdAgain with
      | none => rfl
      | some n => simp [run, Act.within, GpioLine.named]

theorem gpioOpen_acquired (num : Int) (k : GpioCalls) :
    ∀ r ∈ (gpioOpen num k).dev.named, .acquire r ∈ (gpioOpen num k).acts := by
  unfold gpioOpen
  split_ifs
  · unfold gpioV2Open
    cases Gpio.gpioFindChip k.chips num with
    | none => simp [GpioLine.blank, GpioLine.named]
    | some found =>
      cases k.chipFd with
      | none => simp [GpioLine.blank, GpioLine.named]
      | some c =>
        cases k.lineFd with
        | none => simp [GpioLine.blank, GpioLine.named]
        | some l => simp [GpioLine.named]
  · unfold gpioSysfsOpen
    cases k.exportFile with
    | false => simp [GpioLine.blank, GpioLine.named]
    | true =>
      cases k.valueFd <|> k.valueFdAgain with
      | none => simp [GpioLine.blank, GpioLine.named]
      | some n => simp [GpioLine.named]

end Gpio

end Hal
end BuildingBlocks
