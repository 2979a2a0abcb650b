import BuildingBlocks.Lib.Text

/-!
# BuildingBlocks.Busd.Protocol

The line protocol of `services/bb-busd.c`: the subscription table and what one line does to it.

* `Sub` is a topic with the descriptors subscribed to it, `client_ids[0..count)`.
* `handleLine` takes a line without its newline from descriptor `fd`; it gives the new table and
  the messages sent.
-/

namespace BuildingBlocks
namespace Busd

abbrev Bytes := List UInt8

/-- `MAX_CLIENTS`. -/
def maxClients : Nat := 64

/-- `MAX_SUBS`. -/
def maxSubs : Nat := 256

/-- `BUF_SIZE`. -/
def bufferSize : Nat := 8192

structure Sub where
  topic : Bytes
  clientIds : List Nat
deriving DecidableEq, Repr

/-- A `send` to a descriptor. -/
structure Sent where
  fd : Nat
  msg : Bytes
deriving DecidableEq, Repr

/-- `topic_match`. -/
def topicMatch (pattern topic : Bytes) : Bool :=
  if pattern = topic then true
  else pattern.getLast? == some 0x23 && (pattern.dropLast).isPrefixOf topic

/-- `publish`: a message that does not fit the buffer is dropped. -/
def publish (subs : List Sub) (topic payload : Bytes) (senderFd : Nat) : List Sent :=
  let msg := ascii "PUB " ++ topic ++ [0x20] ++ payload ++ [0x0a]
  if bufferSize ≤ msg.length then []
  else
    (subs.filter (fun s => topicMatch s.topic topic)).flatMap (fun s =>
      (s.clientIds.filter (· ≠ senderFd)).map (fun fd => { fd := fd, msg := msg }))

/-- The last entry moved to the front: what is left when the entry in front is overwritten by the
last one and the count goes down. -/
def moveLast (ids : List Nat) : List Nat :=
  match ids.getLast? with
  | none => []
  | some x => x :: ids.dropLast

/-- `UNSUB`: the first entry of `fd` is replaced by the last one. -/
def dropFirst (fd : Nat) : List Nat → List Nat
  | [] => []
  | x :: ids => if x = fd then moveLast ids else x :: dropFirst fd ids

/-- The inner loop of `remove_client`: an entry that was moved in is looked at again. -/
def dropAll (fd : Nat) : Nat → List Nat → List Nat
  | 0, ids => ids
  | _ + 1, [] => []
  | fuel + 1, x :: ids =>
    if x = fd then dropAll fd fuel (moveLast ids) else x :: dropAll fd fuel ids

/-- Subscribing `fd` to entry `s`: once, and only while there is room. -/
def Sub.add (fd : Nat) (s : Sub) : Sub :=
  if s.clientIds.length < maxClients ∧ fd ∉ s.clientIds then
    { s with clientIds := s.clientIds ++ [fd] }
  else s

/-- Apply `f` to the first entry of a topic (`find_sub`). -/
def updateSub (topic : Bytes) (f : Sub → Sub) : List Sub → List Sub
  | [] => []
  | s :: subs => if s.topic = topic then f s :: subs else s :: updateSub topic f subs

/-- The `SUB` branch: a new entry keeps 127 bytes of the topic. -/
def subscribe (fd : Nat) (topic : Bytes) (subs : List Sub) : List Sub :=
  if subs.any (fun s => s.topic = topic) then updateSub topic (Sub.add fd) subs
  else if subs.length < maxSubs then
    subs ++ [Sub.add fd { topic := topic.take 127, clientIds := [] }]
  else subs

/-- The `UNSUB` branch. -/
def unsubscribe (fd : Nat) (topic : Bytes) (subs : List Sub) : List Sub :=
  updateSub topic (fun s => { s with clientIds := dropFirst fd s.clientIds }) subs

/-- `sscanf(line, "PUB %255s %8191[^\n]")` with both items, on the text after `PUB `. -/
def scanPub (args : Bytes) : Option Bytes :=
  match scanWord 255 args with
  | none => none
  | some (topic, rest) => if (rest.dropWhile isSpace).isEmpty then none else some topic

/-- The payload is found by a scan of its own: after the first space. -/
def payloadOf (args : Bytes) : Bytes := (args.dropWhile (· ≠ 0x20)).drop 1

/-- `handle_line`. -/
def handleLine (fd : Nat) (line : Bytes) (subs : List Sub) : List Sub × List Sent :=
  if (ascii "PUB ").isPrefixOf line then
    match scanPub (line.drop 4) with
    | some topic => (subs, publish subs topic (payloadOf (line.drop 4)) fd)
    | none => (subs, [])
  else
    match (ascii "SUB ").isPrefixOf line, scanWord 255 (line.drop 4) with
    | true, some (topic, _) => (subscribe fd topic subs, [])
    | _, _ =>
      match (ascii "UNSUB ").isPrefixOf line, scanWord 255 (line.drop 6) with
      | true, some (topic, _) => (unsubscribe fd topic subs, [])
      | _, _ =>
        if line = ascii "PING" then (subs, [{ fd := fd, msg := ascii "PONG\n" }]) else (subs, [])

def handleLines (fd : Nat) : List Bytes → List Sub → List Sub × List Sent
  | [], subs => (subs, [])
  | line :: lines, subs =>
    let (subs, out) := handleLine fd line subs
    let (subs, out') := handleLines fd lines subs
    (subs, out ++ out')

end Busd
end BuildingBlocks
