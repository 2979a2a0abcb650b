import BuildingBlocks.Busd.Protocol
import BuildingBlocks.Lib.Run

/-!
# BuildingBlocks.Busd.Daemon

The event loop of `services/bb-busd.c` and the part of the kernel it talks to.

* `State` holds the client array with whatever its unused entries still contain, the subscription
  table, the open connections with the number epoll returns for each, and the events of the current
  batch not yet handled.
* `Act.wait` is a return of `epoll_wait`, `Act.handle` one iteration of the loop over its events,
  with the results of the calls it makes.
* epoll returns the same union member for the listening socket, which registered its descriptor,
  and for a client, which registered its index.
-/

namespace BuildingBlocks
namespace Busd

/-- `client_t`: the descriptor and the bytes received so far. -/
structure Client where
  fd : Nat
  buf : Bytes
deriving DecidableEq, Repr

/-- An accepted descriptor not yet closed; `data` is what it was registered with, if it was. -/
structure Conn where
  fd : Nat
  data : Option Int
deriving DecidableEq, Repr

/-- An event of `epoll_wait`; `src` is the descriptor it is for, `none` for the listening socket. -/
structure Event where
  src : Option Nat
  data : Int
  readable : Bool
  hangup : Bool
deriving DecidableEq, Repr

structure State where
  srv : Nat
  clients : Int → Client
  numClients : Int
  subs : List Sub
  conns : List Conn
  batch : List Event
  sent : List Sent

/-- The results of the calls of one iteration: a new descriptor or -1; bytes or no more. -/
structure Results where
  accepted : Option Nat
  received : Option Bytes
deriving DecidableEq, Repr

inductive Act where
  | wait (evs : List Event)
  | handle (r : Results)
deriving DecidableEq, Repr

/-- Before the first `epoll_wait`: `srv` is the listening socket. -/
def init (srv : Nat) : State where
  srv := srv
  clients := fun _ => { fd := 0, buf := [] }
  numClients := 0
  subs := []
  conns := []
  batch := []
  sent := []

/-! ## The code -/

/-- The `memmove` of `remove_client`: the entries behind `idx` move down by one. -/
def compact (clients : Int → Client) (idx num : Int) : Int → Client :=
  fun i => if idx ≤ i ∧ i < num - 1 then clients (i + 1) else clients i

/-- `remove_client`. -/
def removeClient (idx : Int) (s : State) : State :=
  let fd := (s.clients idx).fd
  { s with
    subs := s.subs.map (fun t => { t with clientIds := dropAll fd t.clientIds.length t.clientIds })
    conns := s.conns.filter (fun c => c.fd ≠ fd)
    clients := if idx < s.numClients - 1 then compact s.clients idx s.numClients else s.clients
    numClients := s.numClients - 1 }

/-- The branch of the listening socket: at `MAX_CLIENTS` the new descriptor is neither registered
nor closed. -/
def acceptClient (accepted : Option Nat) (s : State) : State :=
  match accepted with
  | none => s
  | some cfd =>
    if s.numClients < maxClients then
      { s with
        conns := s.conns ++ [{ fd := cfd, data := some s.numClients }]
        clients := Function.update s.clients s.numClients { fd := cfd, buf := [] }
        numClients := s.numClients + 1 }
    else { s with conns := s.conns ++ [{ fd := cfd, data := none }] }

/-- The space offered to `recv`. -/
def avail (c : Client) : Nat := bufferSize - c.buf.length - 1

/-- The bytes of one `recv` handled: complete lines go to `handle_line`, the rest stays. -/
def receive (idx : Int) (bytes : Bytes) (s : State) : State :=
  let c := s.clients idx
  let buf := c.buf ++ bytes
  let (lines, rest) := splitLines buf.length buf
  let (subs, out) := handleLines c.fd lines s.subs
  { s with
    clients := Function.update s.clients idx { c with buf := rest }
    subs := subs
    sent := s.sent ++ out }

/-- The branch of a client: data first, then a hang-up. -/
def serveClient (ev : Event) (received : Option Bytes) (s : State) : State :=
  if ev.readable then
    match received with
    | none => removeClient ev.data s
    | some bytes =>
      let s := receive ev.data bytes s
      if ev.hangup then removeClient ev.data s else s
  else if ev.hangup then removeClient ev.data s
  else s

def handleEvent (ev : Event) (r : Results) (s : State) : State :=
  if ev.data = s.srv then acceptClient r.accepted s else serveClient ev r.received s

/-! ## The kernel -/

/-- An event epoll may report: of the listening socket, or of a registered connection. -/
def Reported (s : State) (ev : Event) : Prop :=
  match ev.src with
  | none => ev.data = s.srv
  | some fd => { fd := fd, data := some ev.data } ∈ s.conns

instance (s : State) (ev : Event) : Decidable (Reported s ev) :=
  match ev with
  | ⟨none, data, _, _⟩ => inferInstanceAs (Decidable (data = s.srv))
  | ⟨some _, _, _, _⟩ => inferInstanceAs (Decidable (_ ∈ s.conns))

/-- What `epoll_wait` may return: at most one event for each descriptor, at most 64. -/
def Batch (s : State) (evs : List Event) : Prop :=
  (∀ ev ∈ evs, Reported s ev) ∧ (evs.map Event.src).Nodup ∧ evs.length ≤ 64

instance (s : State) (evs : List Event) : Decidable (Batch s evs) :=
  inferInstanceAs (Decidable (_ ∧ _ ∧ _))

/-- The results the calls may have: a new descriptor is not one in use, `recv` fills at most the
space offered. -/
def Possible (s : State) (ev : Event) (r : Results) : Prop :=
  (∀ cfd ∈ r.accepted, cfd ≠ s.srv ∧ cfd ∉ s.conns.map Conn.fd) ∧
    ∀ bytes ∈ r.received, 0 < bytes.length ∧ bytes.length ≤ avail (s.clients ev.data)

instance (s : State) (ev : Event) (r : Results) : Decidable (Possible s ev r) :=
  inferInstanceAs (Decidable (_ ∧ _))

/-- The loop: the next batch when the last one is handled, else the next event of it. -/
def step (s : State) : Act → Option State
  | .wait evs =>
    if s.batch = [] ∧ Batch s evs then some { s with batch := evs } else none
  | .handle r =>
    match s.batch with
    | [] => none
    | ev :: rest =>
      if Possible s ev r then some (handleEvent ev r { s with batch := rest }) else none

end Busd
end BuildingBlocks
