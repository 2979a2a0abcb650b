import BuildingBlocks.Cli.Commands
import BuildingBlocks.Led.Blink

/-!
# BuildingBlocks.Cli.Led

From the arguments of `bb-cli led` through the daemon to the LED block.

* `onCmd` is the command that `on_cmd` of `blocks/bb-led/main.c` carries out for a payload.
* `meant` is the command the arguments stand for, with the options as the user gave them.
* `led_iff` — of the arguments that are `Sendable`, the LED block carries out what was meant for
  exactly those in which no value stands in the way of an option that it would change.
-/

namespace BuildingBlocks
namespace Cli

open Busd hiding Bytes init
open Json Lib Led.Blink

/-! ## The code -/

/-- The command `on_cmd` carries out; `status` and what it does not know change nothing. -/
def onCmd (payload : Bytes) : Option Cmd :=
  match getString payload (ascii "cmd") with
  | none => none
  | some cmd =>
    if cmd = ascii "blink" then
      some (.blink (getInt payload (ascii "on_ms") 500) (getInt payload (ascii "off_ms") 500)
        (getInt payload (ascii "count") 0))
    else if cmd = ascii "solid" then
      some (.solid (decide (getString payload (ascii "state") = some (ascii "off"))))
    else if cmd = ascii "heartbeat" then some .heartbeat
    else if cmd = ascii "stop" then some .stop
    else none

/-! ## What is meant -/

/-- A number given for an option; a text counts as zero. -/
def number (given : Option Value) (default : Int) : Int :=
  match given with
  | none => default
  | some (.int z) => z
  | some _ => 0

/-- The command for the options given. -/
def meant (cmd : Bytes) (given : Bytes → Option Value) : Option Cmd :=
  if cmd = ascii "blink" then
    some (.blink (number (given (ascii "on_ms")) 500) (number (given (ascii "off_ms")) 500)
      (number (given (ascii "count")) 0))
  else if cmd = ascii "solid" then
    some (.solid (decide (given (ascii "state") = some (.str (ascii "off")))))
  else if cmd = ascii "heartbeat" then some .heartbeat
  else if cmd = ascii "stop" then some .stop
  else none

/-- A value with the name of the option stands in front of it, or it is not given at all. -/
def Shadowed (key : Bytes) (options : List (Bytes × Value)) : Prop :=
  firstToken key options = some none

instance (key : Bytes) (options : List (Bytes × Value)) : Decidable (Shadowed key options) :=
  inferInstanceAs (Decidable (_ = _))

/-- No option that the command reads is shadowed, unless it is meant as what a shadowed one is read
as: zero, or a state that is not `off`. -/
def Unshadowed (cmd : Bytes) (options : List (Bytes × Value)) : Prop :=
  if cmd = ascii "blink" then
    ∀ o ∈ [(ascii "on_ms", (500 : Int)), (ascii "off_ms", 500), (ascii "count", 0)],
      Shadowed o.1 options → number (options.lookup o.1) o.2 = 0
  else if cmd = ascii "solid" then
    Shadowed (ascii "state") options →
      options.lookup (ascii "state") ≠ some (.str (ascii "off"))
  else True

instance (cmd : Bytes) (options : List (Bytes × Value)) : Decidable (Unshadowed cmd options) :=
  inferInstanceAs (Decidable (if cmd = ascii "blink" then
      ∀ o ∈ [(ascii "on_ms", (500 : Int)), (ascii "off_ms", 500), (ascii "count", 0)],
        Shadowed o.1 options → number (options.lookup o.1) o.2 = 0
    else if cmd = ascii "solid" then
      Shadowed (ascii "state") options → options.lookup (ascii "state") ≠ some (.str (ascii "off"))
    else True))

section Read

variable {cmd : Bytes} {args : List Bytes} {key : Bytes}

/-- The command itself is no option. -/
theorem firstToken_ledEntries (hkey : key ≠ ascii "cmd") (hcmd : cmd ≠ key) :
    firstToken key (ledEntries cmd args) = firstToken key (ledOptions args) := by
  rw [ledEntries, firstToken, if_neg (Ne.symm hkey), if_neg (by simpa using hcmd)]

theorem getString_cmd (h : Sendable cmd args) :
    getString (document (ledEntries cmd args)) (ascii "cmd") = some cmd := by
  rw [getString_document (by decide) h.ok, ledEntries, firstToken, if_pos rfl]

/-- A number is read as it was given, or as zero when it is shadowed. -/
theorem getInt_option (h : Sendable cmd args) (hkey : IsKey key) (hne : key ≠ ascii "cmd")
    (hcmd : cmd ≠ key) (default : Int) :
    getInt (document (ledEntries cmd args)) key default =
      if Shadowed key (ledOptions args) then 0
      else number ((ledOptions args).lookup key) default := by
  rw [getInt_document hkey h.ok, firstToken_ledEntries hne hcmd]
  cases hf : firstToken key (ledOptions args) with
  | none =>
    have hclear : ¬ Shadowed key (ledOptions args) := fun he => nomatch hf.symm.trans he
    rw [if_neg hclear, lookup_of_firstToken_none hf]
    rfl
  | some found =>
    cases found with
    | none => rw [if_pos (show Shadowed key (ledOptions args) from hf)]
    | some v =>
      have hclear : ¬ Shadowed key (ledOptions args) := fun he => nomatch hf.symm.trans he
      rw [if_neg hclear, lookup_of_firstToken hf]
      cases v <;> rfl

/-- A text is read as it was given, or as none when it is shadowed. -/
theorem getString_option (h : Sendable cmd args) (hkey : IsKey key) (hne : key ≠ ascii "cmd")
    (hcmd : cmd ≠ key) (s : Bytes) :
    getString (document (ledEntries cmd args)) key = some s ↔
      ¬ Shadowed key (ledOptions args) ∧ (ledOptions args).lookup key = some (.str s) := by
  rw [getString_document hkey h.ok, firstToken_ledEntries hne hcmd, Shadowed]
  cases hf : firstToken key (ledOptions args) with
  | none =>
    rw [lookup_of_firstToken_none hf]
    exact iff_of_false (fun he => nomatch he) (fun he => nomatch he.2)
  | some found =>
    cases found with
    | none => exact iff_of_false (fun he => nomatch he) (fun he => he.1 rfl)
    | some v =>
      rw [lookup_of_firstToken hf, Option.some.injEq]
      cases v <;> simp

/-- `blink` reads three numbers. -/
theorem onCmd_blink_iff (h : Sendable (ascii "blink") args) :
    onCmd (document (ledEntries (ascii "blink") args)) =
        meant (ascii "blink") (fun key => (ledOptions args).lookup key) ↔
      Unshadowed (ascii "blink") (ledOptions args) := by
  have hzero : ∀ (c : Prop) [Decidable c] (z : Int), (if c then 0 else z) = z ↔ (c → z = 0) := by
    intro c _ z
    by_cases hc : c
    · simp [hc, eq_comm]
    · simp [hc]
  have hon : IsKey (ascii "on_ms") := by decide
  have hoff : IsKey (ascii "off_ms") := by decide
  have hcount : IsKey (ascii "count") := by decide
  unfold onCmd meant Unshadowed
  rw [getString_cmd h]
  simp only [if_true]
  rw [getInt_option h hon (by decide) (by decide), getInt_option h hoff (by decide) (by decide),
    getInt_option h hcount (by decide) (by decide)]
  simp only [Option.some.injEq, Cmd.blink.injEq, hzero, List.forall_mem_cons, List.not_mem_nil,
    false_implies, implies_true, and_true]

/-- `solid` reads a text. -/
theorem onCmd_solid_iff (h : Sendable (ascii "solid") args) :
    onCmd (document (ledEntries (ascii "solid") args)) =
        meant (ascii "solid") (fun key => (ledOptions args).lookup key) ↔
      Unshadowed (ascii "solid") (ledOptions args) := by
  have hne : ascii "solid" ≠ ascii "blink" := by decide
  have hkey : IsKey (ascii "state") := by decide
  have hstate := getString_option h hkey (by decide) (by decide) (ascii "off")
  have hprop : ∀ p q : Prop, (¬ p ∧ q ↔ q) ↔ (p → ¬ q) := by
    intro p q
    by_cases hp : p <;> simp [hp]
  unfold onCmd meant Unshadowed
  rw [getString_cmd h]
  simp only [if_neg hne, if_true, Option.some.injEq, Cmd.solid.injEq, decide_eq_decide, hstate]
  exact hprop _ _

/-- The block carries out what was meant exactly when no option it reads is shadowed. -/
theorem onCmd_iff (h : Sendable cmd args) :
    onCmd (document (ledEntries cmd args)) = meant cmd (fun key => (ledOptions args).lookup key) ↔
      Unshadowed cmd (ledOptions args) := by
  by_cases hblink : cmd = ascii "blink"
  · subst hblink
    exact onCmd_blink_iff h
  · by_cases hsolid : cmd = ascii "solid"
    · subst hsolid
      exact onCmd_solid_iff h
    · refine iff_of_true ?_ ?_
      · simp only [onCmd, meant, getString_cmd h, if_neg hblink, if_neg hsolid]
      · simp only [Unshadowed, if_neg hblink, if_neg hsolid]

end Read

/-! ## From end to end -/

/-- The commands the block on descriptor `fd` carries out for the bytes that a client on `sender`
sends to a daemon with the table `subs`. -/
def carriedOut (subs : List Sub) (sender fd : Nat) (sent : Bytes) : List (Option Cmd) :=
  (decode (bytesTo fd (handleLines sender (lines sent).1 subs).2)).map (fun c => onCmd c.2)

section Path

variable {cmd : Bytes} {args : List Bytes} {subs : List Sub} {sender fd : Nat}

/-- The daemon passes the object on to every subscription of the block, and the block reads it
back. -/
theorem carriedOut_led (h : Sendable cmd args) (hids : ∀ e ∈ subs, e.clientIds.Nodup)
    (hne : fd ≠ sender) (mem : Nat → UInt8) :
    carriedOut subs sender fd (cmdLed mem cmd args) =
      List.replicate (listing subs fd ledTopic).length
        (onCmd (document (ledEntries cmd args))) := by
  have hm := publishable_ledMessage h
  have hlines : (lines ((ledMessage h).line ++ [0x0a])).1 = [(ledMessage h).line] := by
    rw [lines_line (ledMessage h).notMem_line.1 (ledMessage h).notMem_line.2]
    rfl
  have hbytes := handleLine_bytesTo (asks_publish hm) hids sender fd
  rw [lineCall_line hm] at hbytes
  have hcopies : ({ sender := sender, call := (ledMessage h).call, subs := subs } : Route).copies
      fd = (listing subs fd ledTopic).length := if_neg hne
  rw [carriedOut, cmdLed_eq h mem, hlines]
  have hone : (handleLines sender [(ledMessage h).line] subs).2 =
      (handleLine sender (ledMessage h).line subs).2 := by
    simp [handleLines]
  have hwire : join 0x0a (((Option.map (fun call =>
      ({ sender := sender, call := call, subs := subs } : Route))
      (some (ledMessage h).call)).toList.flatMap
        (fun r => List.replicate (r.copies fd) r.call)).map callLine) =
      wire (List.replicate (listing subs fd ledTopic).length (ledMessage h)) := by
    simp only [Option.map_some, Option.toList_some, List.flatMap_cons, List.flatMap_nil,
      List.append_nil, hcopies, wire, List.map_replicate]
    rfl
  rw [hone, hbytes, hwire, decode_wire, List.map_replicate, List.map_replicate]
  rfl

end Path

/-- **A command typed is the command carried out.** For all arguments that are `Sendable` (keys of
letters, digits and underscores, texts without quotes, backslashes and newlines, an object that
fits), every subscription table and every block that is not the sender: for each of its
subscriptions the block carries out the command that was meant, with the options as they were given,
if and only if it has none or every option that the command reads and that is shadowed by a value of
its name was meant as what a shadowed one is read as: a number as zero, a state as on. -/
theorem led_iff (mem : Nat → UInt8) (cmd : Bytes) (args : List Bytes) (h : Sendable cmd args)
    (subs : List Sub) (hids : ∀ e ∈ subs, e.clientIds.Nodup) (sender fd : Nat)
    (hne : fd ≠ sender) :
    (∃ sent ∈ main mem (ascii "led" :: cmd :: args), carriedOut subs sender fd sent =
        List.replicate (listing subs fd ledTopic).length
          (meant cmd (fun key => (ledOptions args).lookup key))) ↔
      listing subs fd ledTopic = [] ∨ Unshadowed cmd (ledOptions args) := by
  have hmain : main mem (ascii "led" :: cmd :: args) = some (cmdLed mem cmd args) := by
    have h1 : ascii "led" ≠ ascii "ping" := by decide
    have h2 : ¬ (ascii "led" = ascii "pub" ∧ args ≠ []) := fun hc => absurd hc.1 (by decide)
    have h3 : ascii "led" ≠ ascii "sub" := by decide
    simp only [main, if_neg h1, if_neg h2, if_neg h3, if_true]
  simp only [hmain, Option.mem_def, Option.some.injEq, exists_eq_left']
  rw [carriedOut_led h hids hne mem, List.replicate_inj, ← onCmd_iff h, List.length_eq_zero_iff]
  simp

/-- `bb-cli led blink on_ms 200 off_ms 100 count 5`, with one subscription. -/
theorem led_iff_blink :
    ∃ sent ∈ main (fun _ => 0) (["led", "blink", "on_ms", "200", "off_ms", "100", "count", "5"].map
        ascii),
      carriedOut [{ topic := ledTopic, clientIds := [6] }] 5 6 sent =
        [some (.blink 200 100 5)] :=
  (led_iff (fun _ => 0) (ascii "blink")
    (["on_ms", "200", "off_ms", "100", "count", "5"].map ascii) (by decide)
    [{ topic := ledTopic, clientIds := [6] }] (by decide) 5 6 (by decide)).mpr
    (Or.inr (by decide))

/-- `bb-cli led solid mode state state off` switches the LED on. -/
example : ¬ Unshadowed (ascii "solid")
    (ledOptions (["mode", "state", "state", "off"].map ascii)) := by decide

end Cli
end BuildingBlocks
