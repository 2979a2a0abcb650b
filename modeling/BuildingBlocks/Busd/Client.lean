import BuildingBlocks.Busd.Table
import BuildingBlocks.Lib.Framing

/-!
# BuildingBlocks.Busd.Client

The bus client of `libbb/bb_bus.c`.

* `busPublish`, `busSubscribe`, `busUnsubscribe` and `pingLine` are the bytes sent: a line of at
  most `BB_MAX_LINE - 1` bytes and a newline.
* `poll` is one `bb_bus_poll` whose `recv` gave `received`: the bytes its buffer keeps, the calls
  of the handler and the value returned.
* `Message` is a message as `publish` of the daemon sends it.
-/

namespace BuildingBlocks
namespace Busd

open Lib

/-- `BB_MAX_LINE`. -/
def maxLine : Nat := 128 + 4096 + 64

/-- A call of the handler: topic and payload. -/
abbrev Call := Bytes × Bytes

/-! ## Sending -/

/-- `send_line`: the line and a newline. -/
def sendLine (line : Bytes) : Bytes := line ++ [0x0a]

/-- `bb_bus_publish`; `snprintf` keeps what fits its buffer. -/
def busPublish (topic payload : Bytes) : Bytes :=
  sendLine ((ascii "PUB " ++ topic ++ [0x20] ++ payload).take (maxLine - 1))

/-- `bb_bus_subscribe`. -/
def busSubscribe (topic : Bytes) : Bytes :=
  sendLine ((ascii "SUB " ++ topic).take (maxLine - 1))

/-- `bb_bus_unsubscribe`. -/
def busUnsubscribe (topic : Bytes) : Bytes :=
  sendLine ((ascii "UNSUB " ++ topic).take (maxLine - 1))

/-- What `bb_bus_ping` sends. -/
def pingLine : Bytes := sendLine (ascii "PING")

/-- What `bb_bus_ping` returns for the bytes its own `recv` gave. -/
def pingResult (received : Bytes) : Int :=
  if received = [] then -1 else if (ascii "PONG").isPrefixOf received then 0 else -1

/-! ## Receiving -/

/-- The call for one line: `PUB`, the topic up to the first space, and the payload behind it. -/
def pollLine (line : Bytes) : Option Call :=
  if (ascii "PUB ").isPrefixOf line then
    let topic := (line.drop 4).takeWhile (· ≠ 0x20)
    match (line.drop 4).drop topic.length with
    | [] => none
    | _ :: payload => some (topic, payload)
  else none

/-- The space `bb_bus_poll` offers to `recv` behind the bytes in its buffer. -/
def pollSpace (buf : Bytes) : Nat := maxLine - 1 - buf.length

/-- `bb_bus_poll` behind `select`, with the handler set. No bytes mean the end of the connection,
or that no space was offered. -/
def poll (buf received : Bytes) : Bytes × List Call × Int :=
  if received = [] then (buf, [], -1)
  else
    let text := buf ++ received
    let (lines, rest) := splitLines text.length text
    (rest, lines.filterMap pollLine, 0)

theorem poll_eq {received : Bytes} (h : received ≠ []) (buf : Bytes) :
    poll buf received =
      ((lines (buf ++ received)).2, (lines (buf ++ received)).1.filterMap pollLine, 0) := by
  rw [poll, if_neg h]
  rfl

/-- The calls a stream makes when it is polled on a buffer of its own. -/
def decode (stream : Bytes) : List Call := (lines stream).1.filterMap pollLine

/-- One more chunk behind a stream: the buffer keeps the rest of both, and the calls are those the
chunk adds. -/
theorem poll_stream {received : Bytes} (h : received ≠ []) (stream : Bytes) :
    (poll (lines stream).2 received).1 = (lines (stream ++ received)).2 ∧
      decode (stream ++ received) = decode stream ++ (poll (lines stream).2 received).2.1 := by
  have hsplit := lines_append stream received
  rw [poll_eq h, decode, decode, hsplit, List.filterMap_append]
  exact ⟨rfl, rfl⟩

/-! ## Messages -/

/-- A message `publish` can be asked for: the topic is a word of `sscanf`, and both come from one
line. -/
structure Message where
  topic : Bytes
  payload : Bytes
  topic_word : ∀ b ∈ topic, isSpace b = false ∧ b ≠ 0
  payload_line : 0 ∉ payload ∧ 0x0a ∉ payload

/-- The call a message asks for. -/
def Message.call (m : Message) : Call := (m.topic, m.payload)

/-- The message without its newline. -/
def Message.line (m : Message) : Bytes := ascii "PUB " ++ m.topic ++ [0x20] ++ m.payload

theorem Message.pubLine_eq (m : Message) : pubLine m.topic m.payload = m.line ++ [0x0a] := rfl

theorem Message.topic_space (m : Message) : ∀ b ∈ m.topic, b ≠ 0x20 ∧ b ≠ 0x0a ∧ b ≠ 0 := by
  intro b hb
  obtain ⟨hspace, h0⟩ := m.topic_word b hb
  refine ⟨?_, ?_, h0⟩
  · rintro rfl
    exact absurd hspace (by decide)
  · rintro rfl
    exact absurd hspace (by decide)

/-- A message is one line. -/
theorem Message.notMem_line (m : Message) : 0 ∉ m.line ∧ 0x0a ∉ m.line := by
  have htopic := m.topic_space
  have hpayload := m.payload_line
  have h0 : (0 : UInt8) ∉ ascii "PUB " := by decide
  have hnl : (0x0a : UInt8) ∉ ascii "PUB " := by decide
  simp only [line, List.mem_append, List.mem_singleton, not_or]
  exact ⟨⟨⟨⟨h0, fun h => (htopic 0 h).2.2 rfl⟩, by decide⟩, hpayload.1⟩,
    ⟨⟨hnl, fun h => (htopic _ h).2.1 rfl⟩, by decide⟩, hpayload.2⟩

/-- The client reads a message as it was sent. -/
theorem pollLine_line (m : Message) : pollLine m.line = some m.call := by
  have hdrop : m.line.drop 4 = m.topic ++ 0x20 :: m.payload := by
    simp [Message.line, ascii]
  have htopic : (m.topic ++ 0x20 :: m.payload).takeWhile (fun b => decide (b ≠ 0x20)) =
      m.topic := by
    rw [List.takeWhile_append_of_pos, List.takeWhile_cons_of_neg (by decide), List.append_nil]
    intro b hb
    exact decide_eq_true (m.topic_space b hb).1
  have hpre : (ascii "PUB ").isPrefixOf m.line = true := by
    rw [List.isPrefixOf_iff_prefix, Message.line, List.append_assoc, List.append_assoc]
    exact List.prefix_append _ _
  rw [pollLine, if_pos hpre, hdrop]
  simp only [htopic, List.drop_left]
  rfl

/-- Messages as they are sent one after the other. -/
def wire (ms : List Message) : Bytes := join 0x0a (ms.map Message.line)

theorem cut_wire (ms : List Message) : cut 0x0a (wire ms) = (ms.map Message.line, []) := by
  have hlines : ∀ f ∈ ms.map Message.line, 0x0a ∉ f := by
    intro f hf
    obtain ⟨m, -, rfl⟩ := List.mem_map.mp hf
    exact m.notMem_line.2
  have hcut := cut_join hlines (List.not_mem_nil (a := (0x0a : UInt8)))
  rwa [List.append_nil] at hcut

theorem notMem_wire (ms : List Message) : 0 ∉ wire ms := by
  induction ms with
  | nil => exact List.not_mem_nil
  | cons m ms ih =>
    rw [wire, List.map_cons, join_cons, List.mem_append, List.mem_cons, not_or, not_or]
    exact ⟨m.notMem_line.1, by decide, ih⟩

theorem filterMap_lines (ms : List Message) :
    (ms.map Message.line).filterMap pollLine = ms.map Message.call := by
  induction ms with
  | nil => rfl
  | cons m ms ih =>
    rw [List.map_cons, List.filterMap_cons_some (pollLine_line m), ih, List.map_cons]

/-- Messages are decoded as they were sent. -/
theorem decode_wire (ms : List Message) : decode (wire ms) = ms.map Message.call := by
  rw [decode, lines_eq_cut (notMem_wire ms), cut_wire, filterMap_lines]

end Busd
end BuildingBlocks
