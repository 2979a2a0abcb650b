import BuildingBlocks.Busd.Network
import BuildingBlocks.Json.Agree

/-!
# BuildingBlocks.Cli.Commands

What `tools/bb-cli.c` sends.

* `strtolEnd` is where `strtol` stops, which is how `cmd_led` tells a number from a text.
* `main` gives the bytes of one connection for the arguments, none for the usage.
* `ledMessage` is the publication that `led` makes of arguments that fit.
-/

namespace BuildingBlocks
namespace Cli

open Busd hiding Bytes init
open Json

/-! ## The code -/

/-- `sizeof` of the line buffers. -/
def lineSize : Nat := 8192

/-- `send_line`: the line and its newline, cut to a buffer of its own. -/
def sendLine (line : Bytes) : Bytes := (line ++ [0x0a]).take (lineSize - 1)

def cmdPing : Bytes := sendLine (ascii "PING")

def cmdPub (topic payload : Bytes) : Bytes :=
  sendLine ((ascii "PUB " ++ topic ++ [0x20] ++ payload).take (lineSize - 1))

def cmdSub (topic : Bytes) : Bytes := sendLine ((ascii "SUB " ++ topic).take (lineSize - 1))

/-- `*end` of `strtol` with base 10: what follows blanks, a sign and digits; the whole text when
there are no digits. -/
def strtolEnd (text : Bytes) : Bytes :=
  let digits := match text.dropWhile isSpace with
    | [] => []
    | b :: bs => if b = 0x2d ∨ b = 0x2b then bs else b :: bs
  match digits with
  | [] => text
  | b :: bs => if isDigit b then (b :: bs).dropWhile isDigit else text

/-- An option of `led`: a number when `strtol` reads all of it, else a text. -/
def ledOption (key val : Bytes) : Bytes × Value :=
  (key, if strtolEnd val = [] then .int (atoi val) else .str val)

/-- The options in pairs; a key without a value is left out. -/
def ledOptions : List Bytes → List (Bytes × Value)
  | key :: val :: args => ledOption key val :: ledOptions args
  | _ => []

def ledTopic : Bytes := ascii "/dev/bb-led/cmd"

def ledEntries (cmd : Bytes) (args : List Bytes) : List (Bytes × Value) :=
  (ascii "cmd", .str cmd) :: ledOptions args

/-- `cmd_led`, with a payload buffer of 4096 bytes. -/
def cmdLed (mem : Nat → UInt8) (cmd : Bytes) (args : List Bytes) : Bytes :=
  cmdPub ledTopic (written mem 4096 (ledEntries cmd args))

/-- `main`, on the arguments after the name of the program. -/
def main (mem : Nat → UInt8) : List Bytes → Option Bytes
  | [] => none
  | arg :: args =>
    if arg = ascii "ping" then some cmdPing
    else
      match args with
      | [] => none
      | fst :: rest =>
        if arg = ascii "pub" ∧ rest ≠ [] then some (cmdPub fst (rest.headD []))
        else if arg = ascii "sub" then some (cmdSub fst)
        else if arg = ascii "led" then some (cmdLed mem fst rest)
        else none

/-! ## Lines that fit -/

section Fits

variable {cmd : Bytes} {args : List Bytes}

/-- A line that fits is sent as the library sends it. -/
theorem sendLine_of_le {line : Bytes} (h : line.length + 1 < lineSize) :
    sendLine line = line ++ [0x0a] := by
  refine List.take_of_length_le ?_
  rw [List.length_append, List.length_singleton]
  omega

theorem cmdPub_eq {m : Message} (h : Publishable m) :
    cmdPub m.topic m.payload = busPublish m.topic m.payload := by
  have hle := h.length_le
  have hmax : maxLine = 4288 := rfl
  have hsize : lineSize = 8192 := rfl
  have htake : (ascii "PUB " ++ m.topic ++ [0x20] ++ m.payload).take (lineSize - 1) = m.line :=
    List.take_of_length_le (show m.line.length ≤ _ by omega)
  rw [cmdPub, htake, sendLine_of_le (by omega), busPublish_eq h]

/-- Arguments `led` can send: keys of letters, digits and underscores, texts of less than 256
characters without quotes, backslashes and newlines, and an object that fits the buffer. -/
structure Sendable (cmd : Bytes) (args : List Bytes) : Prop where
  ok : ∀ e ∈ ledEntries cmd args, Ok e
  line : ∀ e ∈ ledEntries cmd args, ∀ s ∈ e.2.str?, 0x0a ∉ s
  room : (document (ledEntries cmd args)).length < 4096

instance (cmd : Bytes) (args : List Bytes) : Decidable (Sendable cmd args) :=
  decidable_of_iff ((∀ e ∈ ledEntries cmd args, Ok e) ∧
      (∀ e ∈ ledEntries cmd args, ∀ s ∈ e.2.str?, 0x0a ∉ s) ∧
      (document (ledEntries cmd args)).length < 4096)
    ⟨fun h => ⟨h.1, h.2.1, h.2.2⟩, fun h => ⟨h.ok, h.line, h.room⟩⟩

theorem Sendable.payload (h : Sendable cmd args) (mem : Nat → UInt8) :
    written mem 4096 (ledEntries cmd args) = document (ledEntries cmd args) :=
  write_document mem (by decide) h.room (zero_not_mem_document fun e he => (h.ok e he).zero_not_mem)

theorem Sendable.payload_line (h : Sendable cmd args) :
    0 ∉ document (ledEntries cmd args) ∧ 0x0a ∉ document (ledEntries cmd args) := by
  refine ⟨zero_not_mem_document fun e he => (h.ok e he).zero_not_mem, ?_⟩
  refine not_mem_document (by decide) ?_
  intro e he
  refine ⟨?_, ?_⟩
  · intro hmem
    have hident := List.all_eq_true.mp (h.ok e he).1.2 _ hmem
    exact absurd hident (by decide)
  · cases hv : e.2 with
    | str s =>
      have hs := h.line e he s (Value.str?_eq_some.mpr hv)
      simp [valueText, quote, hs]
    | int z => exact notMem_intText rfl (by decide) z
    | bool b => cases b <;> decide

/-- The publication `led` makes. -/
def ledMessage (h : Sendable cmd args) : Message where
  topic := ledTopic
  payload := document (ledEntries cmd args)
  topic_word := by decide
  payload_line := h.payload_line

theorem publishable_ledMessage (h : Sendable cmd args) : Publishable (ledMessage h) where
  topic_pos := by
    show 0 < ledTopic.length
    decide
  topic_le := by
    show ledTopic.length ≤ 127
    decide
  payload_le := Nat.le_of_lt_succ h.room
  not_blank := by
    refine ⟨0x7d, ?_, by decide⟩
    show 0x7d ∈ trim (openText (ledEntries cmd args)) ++ [0x7d]
    exact List.mem_append_right _ List.mem_cons_self

/-- What is sent for it is the line of the publication. -/
theorem cmdLed_eq (h : Sendable cmd args) (mem : Nat → UInt8) :
    cmdLed mem cmd args = (ledMessage h).line ++ [0x0a] := by
  rw [cmdLed, h.payload mem, ← busPublish_eq (publishable_ledMessage h),
    ← cmdPub_eq (publishable_ledMessage h)]
  rfl

end Fits

end Cli
end BuildingBlocks
