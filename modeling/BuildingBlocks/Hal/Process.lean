import BuildingBlocks.Hal.Display

/-!
# BuildingBlocks.Hal.Process

A process with any number of devices of `hal/`, among the descriptors and mappings of all others.

* `halKind` has the open and close functions of the eight kinds of devices.
* `hal_tidy_iff` — no close function releases what is not the device's own, and no device loses
  anything, in exactly the runs that open only devices that are not open, and close none that its
  open function has closed again.
* `getFb_mapped` — then the framebuffer a display hands out is mapped.
-/

namespace BuildingBlocks
namespace Hal

open Lib

/-- The structs of the devices. -/
inductive Dev where
  | port (p : Port)
  | gpio (g : GpioLine)
  | display (d : Display)
deriving DecidableEq, Repr

/-- A call of an open function, with the results of its system calls. -/
inductive HalCall where
  | spi (bits : UInt8) (k : SpiCalls)
  | uart (baud : Int) (k : UartCalls)
  | i2c (fd : Option Nat)
  | rtc (fd : Option Nat)
  | wdg (fd : Option Nat)
  | audio (k : AudioCalls)
  | gpio (num : Int) (k : GpioCalls)
  | display (type : DispType) (k : DisplayCalls)

def Opened.as {σ : Type} (o : Opened σ) (f : σ → Dev) : Opened Dev :=
  { dev := f o.dev, ret := o.ret, acts := o.acts }

def halOpen : HalCall → Opened Dev
  | .spi bits k => (spiOpen bits k).as .port
  | .uart baud k => (uartOpen baud k).as .port
  | .i2c fd => (i2cOpen fd).as .port
  | .rtc fd => (rtcOpen fd).as .port
  | .wdg fd => (wdgOpen fd).as .port
  | .audio k => (audioOpen k).as .port
  | .gpio num k => (gpioOpen num k).as .gpio
  | .display type k => (displayOpen type k).as .display

def Dev.close : Dev → Dev × List (Act Res)
  | .port p => (.port p.close.1, p.close.2)
  | .gpio g => (.gpio g.close.1, g.close.2)
  | .display d => (.display d.close.1, d.close.2)

def Dev.named : Dev → List Res
  | .port p => p.named
  | .gpio g => g.named
  | .display d => d.named

/-- The calls that leave a descriptor in the field which they have closed. -/
def HalCall.stale : HalCall → Bool
  | .spi bits k => misconfigured k.fd (k.configured bits)
  | .uart _ k => misconfigured k.fd (k.getattr && k.setattr)
  | .i2c _ => false
  | .rtc _ => false
  | .wdg _ => false
  | .audio _ => false
  | .gpio _ _ => false
  | .display _ _ => false

section Kind

theorem halOpen_within (k : HalCall) :
    run Act.within [] (halOpen k).acts =
      some (if k.stale then [] else (halOpen k).dev.named) := by
  have hconfigured : ∀ fd : Option Nat, misconfigured fd true = false := by
    intro fd
    cases fd <;> rfl
  have hport : ∀ fd, run Act.within [] (openPort fd true 0).acts =
      some (openPort fd true 0).dev.named := by
    intro fd
    rw [openPort_within, hconfigured, if_neg Bool.false_ne_true]
  cases k with
  | spi bits k => exact openPort_within
  | uart baud k => exact openPort_within
  | i2c fd => exact hport fd
  | rtc fd => exact hport fd
  | wdg fd => exact hport fd
  | audio k => exact audioOpen_within k
  | gpio num k => exact gpioOpen_within num k
  | display type k => exact (settled_displayOpen type k).1

theorem halOpen_stale (k : HalCall) (h : k.stale = true) : (halOpen k).dev.named ≠ [] := by
  cases k with
  | spi bits k => exact openPort_stale h
  | uart baud k => exact openPort_stale h
  | i2c fd => cases h
  | rtc fd => cases h
  | wdg fd => cases h
  | audio k => cases h
  | gpio num k => cases h
  | display type k => cases h

theorem halOpen_acquired (k : HalCall) :
    ∀ r ∈ (halOpen k).dev.named, .acquire r ∈ (halOpen k).acts := by
  cases k with
  | spi bits k => exact openPort_acquired
  | uart baud k => exact openPort_acquired
  | i2c fd => exact openPort_acquired
  | rtc fd => exact openPort_acquired
  | wdg fd => exact openPort_acquired
  | audio k => exact audioOpen_acquired k
  | gpio num k => exact gpioOpen_acquired num k
  | display type k => exact (settled_displayOpen type k).2

theorem halClose_acts (d : Dev) : d.close.2 = d.named.map .release := by
  cases d with
  | port p => exact close_acts p
  | gpio g => exact gpioClose_acts g
  | display d => exact displayClose_acts d

theorem named_halClose (d : Dev) : d.close.1.named = [] := by
  cases d with
  | port p => exact named_close p
  | gpio g => exact named_gpioClose g
  | display d => exact named_displayClose d

/-- No call that opens a display is stale. -/
theorem stale_display {k : HalCall} {d : Display} (h : (halOpen k).dev = .display d) :
    k.stale = false := by
  cases k with
  | spi bits k => cases h
  | uart baud k => cases h
  | i2c fd => rfl
  | rtc fd => rfl
  | wdg fd => rfl
  | audio k => rfl
  | gpio num k => rfl
  | display type k => rfl

end Kind

/-- The devices as objects that are opened and closed. -/
def halKind : Kind Dev HalCall Res where
  opens := fun k => ((halOpen k).dev, (halOpen k).acts)
  closes := Dev.close
  named := Dev.named
  stale := HalCall.stale
  opens_within := halOpen_within
  named_stale := halOpen_stale
  acquired := halOpen_acquired
  closes_acts := halClose_acts
  named_closes := named_halClose

/-- Devices that no function was called on yet. -/
def unopened {ι : Type} (dev : ι → Dev) (holder : Res → Option (Option ι)) :
    Objects ι Dev HalCall Res :=
  { dev := dev, past := fun _ => .fresh, book := { holder := holder, strays := [] } }

section Process

variable {ι : Type} [DecidableEq ι]

/-- **Descriptors, buffers and mappings.** Take any number of devices, whatever is in their structs
before, and let the calls that open and close them, with any results of the system calls, be
interleaved with whatever else acquires and releases descriptors. No close function ever releases
anything that is not the device's own, and each device can always release all it has, if and only
if only devices are opened that hold nothing, and none is closed before it was opened, or after an
open function of SPI or UART that has closed the descriptor itself: where `bb_spi_open` could not
set the mode by either `ioctl`, the bits per word or the speed, or where `tcgetattr` or `tcsetattr`
of `bb_uart_open` failed. A baud rate that cannot be set leaves the descriptor open. -/
theorem hal_tidy_iff (dev : ι → Dev) (holder : Res → Option (Option ι))
    (hfree : ∀ i r, holder r ≠ some (some i)) (ms : List (Move ι HalCall Res))
    (s : Objects ι Dev HalCall Res) (hrun : run halKind.step (unopened dev holder) ms = some s) :
    Meets halKind.step (fun s m => ∀ s', halKind.step s m = some s' → halKind.Tidy s')
        (unopened dev holder) ms ↔
      Meets halKind.step halKind.Careful (unopened dev holder) ms :=
  Kind.tidy_iff (Kind.inv_fresh dev hfree) hrun

end Process

/-- An SPI device that cannot be configured, another program's file under the same number, and a
second attempt. -/
def spiTwice : List (Move Nat HalCall Res) :=
  let bad : SpiCalls := { fd := some 3, mode32 := true, mode := true, bitsPerWord := true
                          maxSpeed := false }
  [.opens 0 (.spi 8 bad), .other (.acquire (.fd 3)),
    .opens 0 (.spi 8 { bad with fd := some 4, maxSpeed := true }), .closes 0]

theorem hal_tidy_iff_spiTwice :
    Meets halKind.step (fun s m => ∀ s', halKind.step s m = some s' → halKind.Tidy s')
      (unopened (fun _ => .port { fd := 0 }) (fun _ => none)) spiTwice :=
  (hal_tidy_iff (fun _ => .port { fd := 0 }) (fun _ => none) (fun _ _ h => nomatch h) spiTwice _
    rfl).mpr (by decide)

/-- **The framebuffer.** In every careful run, whatever failed in it: when `bb_display_get_fb` gives
an address for a display that was opened or closed, that address is mapped for the display. -/
theorem getFb_mapped {ι : Type} [DecidableEq ι] (dev : ι → Dev)
    (holder : Res → Option (Option ι)) (hfree : ∀ i r, holder r ≠ some (some i))
    (ms : List (Move ι HalCall Res)) (s : Objects ι Dev HalCall Res)
    (hcareful : Meets halKind.step halKind.Careful (unopened dev holder) ms)
    (hrun : run halKind.step (unopened dev holder) ms = some s) (i : ι) (d : Display)
    (hdev : s.dev i = .display d) (hcalled : s.past i ≠ .fresh) (map : UInt64)
    (size : UInt32 × UInt32 × UInt32) (hfb : d.getFb = some (map, size)) :
    s.book.holder (.map map) = some (some i) := by
  have hinv : halKind.Inv s := run_invariant_of_meets
    (fun t m t' ht hc hs => ht.step hc hs) (Kind.inv_fresh dev hfree) hcareful hrun
  have hnamed : Res.map map ∈ halKind.named (s.dev i) := by
    rw [hdev]
    unfold Display.getFb at hfb
    split_ifs at hfb with hno
    obtain ⟨hfd, hmap⟩ := not_or.mp hno
    cases hfb
    show Res.map d.map ∈ d.named
    simp [Display.named, hfd, hmap]
  have hall : halKind.named (s.dev i) = halKind.heldAfter (s.past i) := by
    rw [hinv.named_iff i]
    cases hp : s.past i with
    | fresh => exact absurd hp hcalled
    | opened k =>
      have hopened : (halOpen k).dev = .display d := by
        rw [← hdev]
        exact (hinv.opened i k hp).symm
      have hstale : halKind.stale k = false := stale_display hopened
      simpa only [Kind.Careful, hp] using hstale
    | closed => simp only [Kind.Careful, hp]
  rw [hall] at hnamed
  exact ((hinv.accounts i).holds _).mpr hnamed

/-- A display of 800 by 480 that opens at once. -/
def hdmiCalls : DisplayCalls where
  fd := some 3
  resources := true
  resourcesAgain := true
  connectors := [{ id := 5, probe := some ⟨1, 11, 6⟩, mode := some ⟨800, 480⟩, crtc := some 7 }]
  savedFb := none
  dumb := some { handle := ⟨1, by decide⟩, pitch := 3200, size := 1536000 }
  fb := some ⟨8, by decide⟩
  mapDumb := true
  mmap := some ⟨4096, by decide⟩
  setCrtc := true

theorem getFb_mapped_hdmi :
    ∃ s, run halKind.step (unopened (fun _ : Nat => .port { fd := -1 }) (fun _ => none))
        [.opens 0 (.display .hdmi hdmiCalls)] = some s ∧
      s.book.holder (.map 4096) = some (some 0) :=
  ⟨_, rfl, getFb_mapped (fun _ => .port { fd := -1 }) (fun _ => none) (fun _ _ h => nomatch h)
    [.opens 0 (.display .hdmi hdmiCalls)] _ (by decide) rfl 0 _ rfl (by simp) 4096
    (800, 480, 3200) rfl⟩

end Hal
end BuildingBlocks
