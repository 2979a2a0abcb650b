import BuildingBlocks.Busd.Dispatch
import BuildingBlocks.Busd.Network

/-!
# BuildingBlocks.Busd.Placed

Who may send, and who may hang up.

* `registered` is the daemon without the connections it accepted at `MAX_CLIENTS`; `members` are the
  clients in the client array.
* `Placed` is the condition on a step: who sends stands where it stood when it was accepted, and who
  hangs up leaves nobody behind it unread and nothing of its own.
* The parts of an iteration of the event loop: an event is taken from the batch, a descriptor
  accepted, bytes handled, a client removed.
-/

namespace BuildingBlocks
namespace Busd

open Lib

/-! ## The registered connections -/

/-- The daemon without the connections accepted at `MAX_CLIENTS`, which it never looks at. -/
def registered (d : State) : State := { d with conns := d.conns.filter (·.data.isSome) }

/-- The clients in the client array. -/
def members (d : State) : List Nat := openFds (registered d)

section Registered

variable {d : State} {fd cfd : Nat} {idx : Int} {ev : Event}

theorem mem_members : fd ∈ members d ↔ ∃ i, { fd := fd, data := some i } ∈ d.conns := by
  constructor
  · intro h
    obtain ⟨⟨fd, data⟩, hc, rfl⟩ := List.mem_map.mp h
    obtain ⟨hmem, hsome⟩ := List.mem_filter.mp hc
    obtain ⟨i, rfl⟩ := Option.isSome_iff_exists.mp hsome
    exact ⟨i, hmem⟩
  · rintro ⟨i, hi⟩
    exact List.mem_map.mpr ⟨_, List.mem_filter.mpr ⟨hi, rfl⟩, rfl⟩

theorem members_subset (d : State) : members d ⊆ openFds d := by
  intro fd h
  obtain ⟨i, hi⟩ := mem_members.mp h
  exact List.mem_map_of_mem hi

theorem reported_registered : Reported (registered d) ev ↔ Reported d ev := by
  unfold Reported
  split
  · exact Iff.rfl
  · simp [registered]

theorem removeClient_registered (idx : Int) (d : State) :
    removeClient idx (registered d) = registered (removeClient idx d) := by
  have hconns : (d.conns.filter (·.data.isSome)).filter (fun c => c.fd ≠ (d.clients idx).fd) =
      (d.conns.filter (fun c => c.fd ≠ (d.clients idx).fd)).filter (·.data.isSome) := by
    rw [List.filter_filter, List.filter_filter]
    exact List.filter_congr (fun c _ => Bool.and_comm _ _)
  rw [removeClient, removeClient, registered, registered]
  exact congrArg (fun conns => { removeClient idx d with conns := conns }) hconns

theorem acceptClient_registered (hroom : d.numClients < maxClients) :
    acceptClient (some cfd) (registered d) = registered (acceptClient (some cfd) d) := by
  have hroom' : (registered d).numClients < maxClients := hroom
  rw [acceptClient_room hroom, acceptClient_room hroom']
  simp only [registered, List.filter_append]
  rfl

/-- A client that finds no room is not registered. -/
theorem registered_full (hfull : ¬ d.numClients < maxClients) :
    registered (acceptClient (some cfd) d) = registered d := by
  rw [acceptClient_full hfull]
  simp only [registered, List.filter_append]
  simp

theorem members_accept (hroom : d.numClients < maxClients) :
    members (acceptClient (some cfd) d) = members d ++ [cfd] := by
  rw [members, ← acceptClient_registered hroom, acceptClient_room (s := registered d) hroom]
  simp [openFds, members]

theorem members_remove (idx : Int) (d : State) :
    members (removeClient idx d) = (members d).filter (· ≠ (d.clients idx).fd) := by
  rw [members, ← removeClient_registered]
  simp only [openFds, removeClient, members]
  rw [List.filter_map]
  rfl

end Registered

/-! ## The condition -/

/-- A client stands where it was accepted, this is not the number of the listening socket, and no
client in front of it has hung up. -/
structure Steady (s : Network) (fd : Nat) : Prop where
  placed : { fd := fd, data := some ((members s.daemon).idxOf fd : Int) } ∈ s.daemon.conns
  inSight : ((members s.daemon).idxOf fd : Int) ≠ s.daemon.srv
  older : ∀ x ∈ ahead (members s.daemon) fd, s.hungUp x = false

/-- A client may hang up when nothing waits of the clients behind it, and all it has sent goes into
the buffer of its record. -/
structure Departs (s : Network) (fd : Nat) : Prop extends Steady s fd where
  younger : ∀ x ∈ behind (members s.daemon) fd, ¬ s.Pending x
  room : (s.daemon.clients ((members s.daemon).idxOf fd)).buf.length + (s.up fd).length < bufferSize

instance (s : Network) (fd : Nat) : Decidable (Steady s fd) :=
  decidable_of_iff
    ({ fd := fd, data := some ((members s.daemon).idxOf fd : Int) } ∈ s.daemon.conns ∧
      ((members s.daemon).idxOf fd : Int) ≠ s.daemon.srv ∧
      ∀ x ∈ ahead (members s.daemon) fd, s.hungUp x = false)
    ⟨fun h => ⟨h.1, h.2.1, h.2.2⟩, fun h => ⟨h.placed, h.inSight, h.older⟩⟩

instance (s : Network) (fd : Nat) : Decidable (Departs s fd) :=
  decidable_of_iff (Steady s fd ∧ (∀ x ∈ behind (members s.daemon) fd, ¬ s.Pending x) ∧
      (s.daemon.clients ((members s.daemon).idxOf fd)).buf.length + (s.up fd).length < bufferSize)
    ⟨fun h => ⟨h.1, h.2.1, h.2.2⟩, fun h => ⟨h.toSteady, h.younger, h.room⟩⟩

/-- The last `recv` of a client that has hung up takes all there is. -/
def TakesAll (s : Network) (n : Nat) : Prop :=
  ∀ ev ∈ s.daemon.batch.head?, ev.hangup = true →
    n = (s.up (s.daemon.clients ev.data).fd).length

def Placed (s : Network) : Deed → Prop
  | .publish fd _ => Steady s fd
  | .subscribe fd _ => Steady s fd
  | .unsubscribe fd _ => Steady s fd
  | .hangUp fd => fd ∈ members s.daemon → Departs s fd
  | .recv n => TakesAll s n
  | .connect => True
  | .wait _ => True
  | .accept _ => True
  | .poll _ _ => True

instance (s : Network) (n : Nat) : Decidable (TakesAll s n) :=
  inferInstanceAs (Decidable (∀ _ ∈ _, _ → _))

instance (s : Network) (d : Deed) : Decidable (Placed s d) :=
  match d with
  | .publish _ _ => inferInstanceAs (Decidable (Steady _ _))
  | .subscribe _ _ => inferInstanceAs (Decidable (Steady _ _))
  | .unsubscribe _ _ => inferInstanceAs (Decidable (Steady _ _))
  | .hangUp _ => inferInstanceAs (Decidable (_ → Departs _ _))
  | .recv _ => inferInstanceAs (Decidable (TakesAll _ _))
  | .connect => .isTrue trivial
  | .wait _ => .isTrue trivial
  | .accept _ => .isTrue trivial
  | .poll _ _ => .isTrue trivial

/-! ## The parts of an iteration -/

/-- The network with the rest of the batch left. -/
def Network.popped (s : Network) (rest : List Event) : Network :=
  { s with daemon := { s.daemon with batch := rest } }

/-- The descriptor accepted. -/
def Network.seated (s : Network) (cfd : Nat) : Network :=
  { s.connected cfd with daemon := acceptClient (some cfd) s.daemon }

/-- The bytes of one `recv` handled. -/
def Network.taken (s : Network) (idx : Int) (n : Nat) : Network :=
  s.passOn idx (some ((s.up (s.daemon.clients idx).fd).take n))
    (receive idx ((s.up (s.daemon.clients idx).fd).take n) s.daemon)

/-- The client removed. -/
def Network.dropped (s : Network) (idx : Int) : Network :=
  { s with daemon := removeClient idx s.daemon }

theorem taken_fd (s : Network) (idx : Int) (n : Nat) (i : Int) :
    ((s.taken idx n).daemon.clients i).fd = (s.daemon.clients i).fd := receive_fd _ i

theorem taken_up (s : Network) (idx : Int) (n : Nat) :
    (s.taken idx n).up = Function.update s.up (s.daemon.clients idx).fd
      ((s.up (s.daemon.clients idx).fd).drop n) := by
  simp only [Network.taken, Network.passOn, Option.getD_some, List.length_take]
  congr 1
  rw [List.drop_eq_drop_iff]
  omega

end Busd
end BuildingBlocks
