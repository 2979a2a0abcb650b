import BuildingBlocks.Busd.Daemon
import BuildingBlocks.Lib.Rows

/-!
# BuildingBlocks.Busd.Dispatch

Which record of the client array an event is handled with.

* `Right` is the law of one iteration: the event is handled with the record of its descriptor, only
  the listening socket reaches `accept`, and the array lists the open descriptors afterwards.
* `InPlace` is the condition: a client still stands where it stood when it was accepted, its index
  is not the number of the listening socket, and a new client finds room.
* Under `Inv` the two agree, and a step that meets the condition keeps `Inv`.
-/

namespace BuildingBlocks
namespace Busd

open Lib

/-! ## The law -/

/-- The descriptors of `clients[0..num_clients)`. -/
def table (s : State) : List Nat :=
  rows (fun i : Nat => (s.clients i).fd) s.numClients.toNat

/-- The descriptors accepted and not yet closed. -/
def openFds (s : State) : List Nat := s.conns.map Conn.fd

/-- The table lists exactly the open descriptors, each once. -/
def Lists (s : State) : Prop := (table s).Nodup ∧ ∀ fd, fd ∈ table s ↔ fd ∈ openFds s

instance (s : State) : Decidable (Lists s) :=
  decidable_of_iff ((table s).Nodup ∧ (∀ fd ∈ table s, fd ∈ openFds s) ∧
    ∀ fd ∈ openFds s, fd ∈ table s)
    ⟨fun h => ⟨h.1, fun fd => ⟨h.2.1 fd, h.2.2 fd⟩⟩,
      fun h => ⟨h.1, fun fd => (h.2 fd).mp, fun fd => (h.2 fd).mpr⟩⟩

/-- The event reaches `accept` when it is of the listening socket, and otherwise the record of its
descriptor. -/
def Routed (s : State) (ev : Event) : Prop :=
  match ev.src with
  | none => ev.data = s.srv
  | some fd => ev.data ≠ s.srv ∧ 0 ≤ ev.data ∧ ev.data < s.numClients ∧ (s.clients ev.data).fd = fd

instance (s : State) (ev : Event) : Decidable (Routed s ev) :=
  match ev with
  | ⟨none, data, _, _⟩ => inferInstanceAs (Decidable (data = s.srv))
  | ⟨some _, _, _, _⟩ => inferInstanceAs (Decidable (_ ≠ _ ∧ _ ∧ _ ∧ _))

def handled (s : State) : Act → Option Event
  | .wait _ => none
  | .handle _ => s.batch.head?

/-- The law of one step: its event is routed, and the table is right afterwards. -/
def Right (s : State) (a : Act) : Prop :=
  (∀ ev ∈ handled s a, Routed s ev) ∧ ∀ s' ∈ step s a, Lists s'

instance (s : State) (a : Act) : Decidable (Right s a) := inferInstanceAs (Decidable (_ ∧ _))

/-! ## The condition -/

/-- No client accepted before this one and still open then has been closed since, and its index is
not the number of the listening socket. -/
def InPlace (s : State) (ev : Event) : Prop :=
  match ev.src with
  | none => True
  | some fd => ev.data ≠ s.srv ∧ ((openFds s).idxOf fd : Int) = ev.data

def HasRoom (s : State) (ev : Event) : Act → Prop
  | .wait _ => True
  | .handle r => ev.src = none → r.accepted ≠ none → s.numClients < maxClients

def Undisturbed (s : State) (a : Act) : Prop :=
  ∀ ev ∈ handled s a, InPlace s ev ∧ HasRoom s ev a

instance (s : State) (ev : Event) : Decidable (InPlace s ev) :=
  match ev with
  | ⟨none, _, _, _⟩ => .isTrue trivial
  | ⟨some _, _, _, _⟩ => inferInstanceAs (Decidable (_ ≠ _ ∧ _ = _))

instance (s : State) (ev : Event) (a : Act) : Decidable (HasRoom s ev a) :=
  match a with
  | .wait _ => .isTrue trivial
  | .handle _ => inferInstanceAs (Decidable (_ → _ → _))

instance (s : State) (a : Act) : Decidable (Undisturbed s a) :=
  inferInstanceAs (Decidable (∀ _ ∈ _, _ ∧ _))

/-! ## The invariant -/

/-- The table is the list of the open descriptors, in the order they were accepted. -/
structure Exact (s : State) : Prop where
  count : s.numClients = s.conns.length
  rows : table s = openFds s
  nodup : (openFds s).Nodup

structure Inv (s : State) : Prop extends Exact s where
  batch : ∀ ev ∈ s.batch, Reported s ev
  srcs : (s.batch.map Event.src).Nodup

theorem inv_init (srv : Nat) : Inv (init srv) where
  count := rfl
  rows := rfl
  nodup := List.nodup_nil
  batch := fun _ h => absurd h (List.not_mem_nil)
  srcs := List.nodup_nil

theorem Exact.lists {s : State} (h : Exact s) : Lists s := by
  refine ⟨?_, ?_⟩
  · rw [h.rows]
    exact h.nodup
  · intro fd
    rw [h.rows]

theorem Exact.length_openFds {s : State} (h : Exact s) :
    ((openFds s).length : Int) = s.numClients := by
  rw [h.count, openFds, List.length_map]

section Event

variable {s : State} {ev : Event} {fd : Nat}

theorem Reported.mem_openFds (h : Reported s ev) (hsrc : ev.src = some fd) : fd ∈ openFds s := by
  unfold Reported at h
  rw [hsrc] at h
  exact List.mem_map_of_mem h

/-- Under the invariant a client in place is one whose record is where its event points. -/
theorem Exact.idxOf_eq_iff (h : Exact s) (hfd : fd ∈ openFds s) {d : Int} :
    ((openFds s).idxOf fd : Int) = d ↔ 0 ≤ d ∧ d < s.numClients ∧ (s.clients d).fd = fd := by
  have hlen := h.length_openFds
  constructor
  · rintro rfl
    obtain ⟨hi, hget⟩ := (BuildingBlocks.idxOf_eq_iff h.nodup hfd).mp rfl
    refine ⟨by omega, by omega, ?_⟩
    simpa only [← h.rows, table, getElem_rows] using hget
  · rintro ⟨h0, hlt, hrec⟩
    obtain ⟨i, rfl⟩ := Int.eq_ofNat_of_zero_le h0
    have hi : i < (openFds s).length := by omega
    have hget : (openFds s)[i] = fd := by
      simpa only [← h.rows, table, getElem_rows] using hrec
    rw [(BuildingBlocks.idxOf_eq_iff h.nodup hfd).mpr ⟨hi, hget⟩]

theorem Exact.routed_iff (h : Exact s) (hev : Reported s ev) : Routed s ev ↔ InPlace s ev := by
  unfold Routed InPlace
  split
  · rename_i hsrc
    unfold Reported at hev
    rw [hsrc] at hev
    simpa using hev
  · rename_i fd hsrc
    rw [h.idxOf_eq_iff (hev.mem_openFds hsrc)]

end Event

/-! ## The branches -/

section Accept

variable {s : State} {cfd : Nat}

theorem acceptClient_room (h : s.numClients < maxClients) :
    acceptClient (some cfd) s = { s with
      conns := s.conns ++ [{ fd := cfd, data := some s.numClients }]
      clients := Function.update s.clients s.numClients { fd := cfd, buf := [] }
      numClients := s.numClients + 1 } := by
  simp [acceptClient, h]

/-- At `MAX_CLIENTS` the descriptor stays open outside the table. -/
theorem acceptClient_full (h : ¬ s.numClients < maxClients) :
    acceptClient (some cfd) s = { s with conns := s.conns ++ [{ fd := cfd, data := none }] } := by
  simp [acceptClient, h]

theorem Exact.accept (h : Exact s) (hnew : cfd ∉ openFds s) (hroom : s.numClients < maxClients) :
    Exact (acceptClient (some cfd) s) := by
  have hcount := h.count
  obtain ⟨n, hn⟩ := Int.eq_ofNat_of_zero_le (show 0 ≤ s.numClients by omega)
  have htable : table (acceptClient (some cfd) s) = table s ++ [cfd] := by
    rw [acceptClient_room hroom]
    simp only [table, hn]
    rw [show ((n : Int) + 1).toNat = n + 1 by omega, Int.toNat_natCast, rows_succ]
    congr 1
    · refine rows_congr ?_
      intro i hi
      have hne : (i : Int) ≠ (n : Int) := by omega
      simp [hne]
    · simp
  have hopen : openFds (acceptClient (some cfd) s) = openFds s ++ [cfd] := by
    rw [acceptClient_room hroom]
    simp [openFds]
  refine ⟨?_, ?_, ?_⟩
  · rw [acceptClient_room hroom]
    simp only [List.length_append, List.length_cons, List.length_nil]
    omega
  · rw [htable, h.rows, hopen]
  · rw [hopen]
    exact List.Nodup.append h.nodup (List.nodup_singleton cfd) (by simpa using hnew)

end Accept

section Serve

variable {s : State} {ev : Event} {idx : Int}

theorem serveClient_cases (ev : Event) (received : Option Bytes) (s : State) :
    serveClient ev received s = s ∨
      (∃ bytes, serveClient ev received s = receive ev.data bytes s) ∨
      serveClient ev received s = removeClient ev.data s ∨
      ∃ bytes, serveClient ev received s = removeClient ev.data (receive ev.data bytes s) := by
  unfold serveClient
  split_ifs
  · cases received with
    | none => exact Or.inr (Or.inr (Or.inl rfl))
    | some bytes => exact Or.inr (Or.inr (Or.inr ⟨bytes, rfl⟩))
  · cases received with
    | none => exact Or.inr (Or.inr (Or.inl rfl))
    | some bytes => exact Or.inr (Or.inl ⟨bytes, rfl⟩)
  · exact Or.inr (Or.inr (Or.inl rfl))
  · exact Or.inl rfl

theorem receive_fd (bytes : Bytes) (i : Int) :
    ((receive idx bytes s).clients i).fd = (s.clients i).fd := by
  by_cases h : i = idx
  · subst h
    simp [receive]
  · simp [receive, h]

theorem receive_table (bytes : Bytes) : table (receive idx bytes s) = table s :=
  rows_congr (fun i _ => receive_fd bytes i)

theorem Exact.receive (h : Exact s) (bytes : Bytes) : Exact (receive idx bytes s) where
  count := h.count
  rows := (receive_table bytes).trans h.rows
  nodup := h.nodup

/-- Removing the client that stands at its index takes it out of the table and closes it. -/
theorem Exact.remove (h : Exact s) {fd : Nat} (hfd : fd ∈ openFds s)
    (hidx : ((openFds s).idxOf fd : Int) = idx) :
    Exact (removeClient idx s) ∧
      (removeClient idx s).conns = s.conns.filter (fun c => c.fd ≠ fd) := by
  obtain ⟨h0, hlt, hrec⟩ := (h.idxOf_eq_iff hfd).mp hidx
  have hlen := h.length_openFds
  have hconns : (removeClient idx s).conns = s.conns.filter (fun c => c.fd ≠ fd) := by
    simp [removeClient, hrec]
  have hopen : openFds (removeClient idx s) = (openFds s).eraseIdx ((openFds s).idxOf fd) := by
    rw [← filter_ne_eq_eraseIdx h.nodup, openFds, openFds, hconns, List.filter_map]
    rfl
  have hi : (openFds s).idxOf fd < (openFds s).length := List.idxOf_lt_length_iff.mpr hfd
  obtain ⟨n, hn⟩ := Int.eq_ofNat_of_zero_le (show 0 ≤ s.numClients - 1 by omega)
  have htable : table (removeClient idx s) = (table s).eraseIdx ((openFds s).idxOf fd) := by
    have hnum : s.numClients = ((n + 1 : Nat) : Int) := by omega
    simp only [table, removeClient, hnum]
    rw [show (((n + 1 : Nat) : Int) - 1).toNat = n by omega, Int.toNat_natCast]
    refine rows_eraseIdx (by omega) ?_ ?_
    · intro i hi
      have hbefore : ¬ idx ≤ (i : Int) := by omega
      split_ifs <;> simp [compact, hbefore]
    · intro i h1 h2
      have hmoved : idx < ((n + 1 : Nat) : Int) - 1 := by omega
      have hbehind : idx ≤ (i : Int) ∧ (i : Int) < ((n + 1 : Nat) : Int) - 1 := by omega
      rw [if_pos hmoved, compact, if_pos hbehind]
      rfl
  refine ⟨⟨?_, ?_, ?_⟩, hconns⟩
  · have hlen' : (openFds (removeClient idx s)).length = (openFds s).length - 1 := by
      rw [hopen, List.length_eraseIdx_of_lt hi]
    rw [openFds, List.length_map] at hlen'
    show s.numClients - 1 = _
    omega
  · rw [htable, hopen, h.rows]
  · rw [hopen]
    exact h.nodup.sublist (List.eraseIdx_sublist _ _)

/-- An event of a client in place is handled right, and closes no other descriptor. -/
theorem Exact.serve (h : Exact s) {fd : Nat} (hfd : fd ∈ openFds s)
    (hidx : ((openFds s).idxOf fd : Int) = ev.data) (received : Option Bytes) :
    Exact (serveClient ev received s) ∧
      ∀ c ∈ s.conns, c.fd ≠ fd → c ∈ (serveClient ev received s).conns := by
  rcases serveClient_cases ev received s with he | ⟨bytes, he⟩ | he | ⟨bytes, he⟩
  · rw [he]
    exact ⟨h, fun c hc _ => hc⟩
  · rw [he]
    exact ⟨h.receive bytes, fun c hc _ => hc⟩
  · obtain ⟨hexact, hconns⟩ := h.remove hfd hidx
    rw [he, hconns]
    exact ⟨hexact, fun c hc hne => List.mem_filter.mpr ⟨hc, by simpa using hne⟩⟩
  · obtain ⟨hexact, hconns⟩ := (h.receive bytes).remove hfd hidx
    rw [he, hconns]
    exact ⟨hexact, fun c hc hne => List.mem_filter.mpr ⟨hc, by simpa using hne⟩⟩

theorem serveClient_frame (ev : Event) (received : Option Bytes) (s : State) :
    (serveClient ev received s).batch = s.batch ∧ (serveClient ev received s).srv = s.srv := by
  rcases serveClient_cases ev received s with he | ⟨bytes, he⟩ | he | ⟨bytes, he⟩ <;>
    (rw [he]; exact ⟨rfl, rfl⟩)

end Serve

theorem acceptClient_frame {s : State} (accepted : Option Nat) :
    (acceptClient accepted s).batch = s.batch ∧ (acceptClient accepted s).srv = s.srv ∧
      ∀ c ∈ s.conns, c ∈ (acceptClient accepted s).conns := by
  unfold acceptClient
  cases accepted with
  | none => exact ⟨rfl, rfl, fun _ h => h⟩
  | some cfd =>
    split_ifs <;> exact ⟨rfl, rfl, fun _ h => List.mem_append_left _ h⟩

/-! ## The steps -/

section Step

variable {s s' : State} {ev : Event} {rest : List Event} {r : Results}

theorem step_handle (hs : step s (.handle r) = some s') :
    ∃ ev rest, s.batch = ev :: rest ∧ Possible s ev r ∧
      s' = handleEvent ev r { s with batch := rest } := by
  simp only [step] at hs
  split at hs
  · cases hs
  · rename_i ev rest hb
    split_ifs at hs with hp
    cases hs
    exact ⟨ev, rest, hb, hp, rfl⟩

theorem Reported.mono (h : Reported s ev) (hsrv : s'.srv = s.srv)
    (hconns : ∀ c ∈ s.conns, ev.src = some c.fd → c ∈ s'.conns) : Reported s' ev := by
  unfold Reported at h ⊢
  split
  · rename_i hsrc
    simp only [hsrc] at h
    rw [hsrv]
    exact h
  · rename_i fd hsrc
    simp only [hsrc] at h
    exact hconns _ h hsrc

theorem Inv.wait (h : Inv s) {evs : List Event} (hb : Batch s evs) :
    Inv { s with batch := evs } where
  count := h.count
  rows := h.rows
  nodup := h.nodup
  batch := hb.1
  srcs := hb.2.1

theorem Inv.pop (h : Inv s) (hb : s.batch = ev :: rest) :
    Inv { s with batch := rest } ∧ Reported s ev ∧ ∀ ev' ∈ rest, ev'.src ≠ ev.src := by
  have hbatch := h.batch
  have hsrcs := h.srcs
  rw [hb] at hbatch hsrcs
  simp only [List.map_cons, List.nodup_cons] at hsrcs
  refine ⟨⟨⟨h.count, h.rows, h.nodup⟩, fun ev' h' => hbatch ev' (List.mem_cons_of_mem _ h'),
    hsrcs.2⟩, hbatch ev List.mem_cons_self, ?_⟩
  intro ev' h' he
  refine hsrcs.1 ?_
  rw [← he]
  exact List.mem_map_of_mem h'

theorem Inv.accept (h : Inv s) {cfd : Nat} (hnew : cfd ∉ openFds s)
    (hroom : s.numClients < maxClients) : Inv (acceptClient (some cfd) s) := by
  obtain ⟨hbatch, hsrv, hconns⟩ := acceptClient_frame (s := s) (some cfd)
  refine ⟨h.toExact.accept hnew hroom, ?_, by rw [hbatch]; exact h.srcs⟩
  intro ev' hev'
  rw [hbatch] at hev'
  exact (h.batch ev' hev').mono hsrv (fun c hc _ => hconns c hc)

/-- Serving a client in place, where no other event of the batch is for it. -/
theorem Inv.serve (h : Inv s) {fd : Nat} (hfd : fd ∈ openFds s)
    (hidx : ((openFds s).idxOf fd : Int) = ev.data) (hother : ∀ ev' ∈ s.batch, ev'.src ≠ some fd)
    (received : Option Bytes) : Inv (serveClient ev received s) := by
  obtain ⟨hexact, hconns⟩ := h.toExact.serve hfd hidx received
  obtain ⟨hbatch, hsrv⟩ := serveClient_frame ev received s
  refine ⟨hexact, ?_, by rw [hbatch]; exact h.srcs⟩
  intro ev' hev'
  rw [hbatch] at hev'
  refine (h.batch ev' hev').mono hsrv ?_
  intro c hc hsrc'
  refine hconns c hc ?_
  rintro rfl
  exact hother ev' hev' hsrc'

/-- Handling an event that is in place, with room for a new client, keeps the invariant. -/
theorem Inv.handle (h : Inv s) (hb : s.batch = ev :: rest) (hp : Possible s ev r)
    (hplace : InPlace s ev) (hroom : HasRoom s ev (.handle r)) :
    Inv (handleEvent ev r { s with batch := rest }) := by
  obtain ⟨hpop, hrep, hother⟩ := h.pop hb
  cases hsrc : ev.src with
  | none =>
    have hdata : ev.data = s.srv := by simpa [Reported, hsrc] using hrep
    rw [handleEvent, if_pos hdata]
    cases hacc : r.accepted with
    | none => exact hpop
    | some cfd => exact hpop.accept (hp.1 cfd hacc).2 (hroom hsrc (by simp [hacc]))
  | some fd =>
    obtain ⟨hdata, hidx⟩ : ev.data ≠ s.srv ∧ ((openFds s).idxOf fd : Int) = ev.data := by
      simpa [InPlace, hsrc] using hplace
    rw [handleEvent, if_neg hdata]
    refine hpop.serve (hrep.mem_openFds hsrc) hidx ?_ r.received
    intro ev' hev'
    rw [← hsrc]
    exact hother ev' hev'

theorem inv_step {a : Act} (h : Inv s) (hc : Undisturbed s a) (hs : step s a = some s') :
    Inv s' := by
  cases a with
  | wait evs =>
    simp only [step] at hs
    split_ifs at hs with hb
    cases hs
    exact h.wait hb.2
  | handle r =>
    obtain ⟨ev, rest, hb, hp, rfl⟩ := step_handle hs
    obtain ⟨hplace, hroom⟩ := hc ev (by simp [handled, hb])
    exact h.handle hb hp hplace hroom

theorem not_lists_of_full {cfd : Nat} (h : Exact s) (hnew : cfd ∉ openFds s)
    (hfull : ¬ s.numClients < maxClients) : ¬ Lists (acceptClient (some cfd) s) := by
  rw [acceptClient_full hfull]
  rintro ⟨-, hmem⟩
  have hin : cfd ∈ table s := (hmem cfd).mpr (by simp [openFds])
  rw [h.rows] at hin
  exact hnew hin

theorem right_iff {a : Act} (h : Inv s) (hs : step s a = some s') :
    Right s a ↔ Undisturbed s a := by
  constructor
  · rintro ⟨hrouted, hlists⟩ ev hev
    have hrep : Reported s ev := by
      cases a with
      | wait evs => simp [handled] at hev
      | handle r => exact h.batch ev (List.mem_of_mem_head? hev)
    refine ⟨(h.toExact.routed_iff hrep).mp (hrouted ev hev), ?_⟩
    cases a with
    | wait evs => trivial
    | handle r =>
      intro hsrc hacc
      obtain ⟨ev', rest, hb, hp, rfl⟩ := step_handle hs
      obtain rfl : ev' = ev := by simpa [handled, hb] using hev
      obtain ⟨cfd, hcfd⟩ := Option.ne_none_iff_exists'.mp hacc
      have hdata : ev'.data = s.srv := by simpa [Reported, hsrc] using hrep
      have hl := hlists _ hs
      rw [handleEvent, if_pos hdata, hcfd] at hl
      by_contra hfull
      exact not_lists_of_full (h.pop hb).1.toExact (hp.1 cfd hcfd).2 hfull hl
  · intro hc
    refine ⟨fun ev hev => ?_, fun t ht => ?_⟩
    · have hrep : Reported s ev := by
        cases a with
        | wait evs => simp [handled] at hev
        | handle r => exact h.batch ev (List.mem_of_mem_head? hev)
      exact (h.toExact.routed_iff hrep).mpr (hc ev hev).1
    · exact (inv_step h hc ht).toExact.lists

end Step

/-- **Exactly the undisturbed runs dispatch right.** In every run of the daemon, every event is
handled with the record of its descriptor, only the listening socket reaches `accept`, and the
table lists the open descriptors after every step, if and only if every event comes from a client
in place or from the listening socket with room for the new client. -/
theorem dispatch_iff (srv : Nat) (acts : List Act) (s : State)
    (hrun : run step (init srv) acts = some s) :
    Meets step Right (init srv) acts ↔ Meets step Undisturbed (init srv) acts :=
  meets_iff_of_invariant (P := Right) (Q := Undisturbed) (I := Inv)
    (fun _ _ _ h hs => right_iff h hs) (fun _ _ _ h hc hs => inv_step h hc hs) (inv_init srv) hrun

/-! ## Two runs -/

/-- A client connects and gets descriptor `fd`. -/
def connect (fd : Nat) : List Act :=
  [.wait [{ src := none, data := 3, readable := true, hangup := false }],
    .handle { accepted := some fd, received := none }]

/-- The client registered with `data` sends a line. -/
def sends (fd : Nat) (data : Int) (line : String) : List Act :=
  [.wait [{ src := some fd, data := data, readable := true, hangup := false }],
    .handle { accepted := none, received := some (ascii line) }]

/-- The client registered with `data` hangs up. -/
def hangsUp (fd : Nat) (data : Int) : List Act :=
  [.wait [{ src := some fd, data := data, readable := true, hangup := true }],
    .handle { accepted := none, received := none }]

/-- Two clients, one message, and the younger one hangs up first. -/
theorem dispatch_two :
    ∃ s, run step (init 3)
        (connect 5 ++ connect 6 ++ sends 5 0 "PING\n" ++ hangsUp 6 1 ++ hangsUp 5 0) = some s ∧
      s.sent = [{ fd := 5, msg := ascii "PONG\n" }] ∧
      Meets step Right (init 3)
        (connect 5 ++ connect 6 ++ sends 5 0 "PING\n" ++ hangsUp 6 1 ++ hangsUp 5 0) := by
  obtain ⟨s, hs, hsent⟩ : ∃ s, run step (init 3)
      (connect 5 ++ connect 6 ++ sends 5 0 "PING\n" ++ hangsUp 6 1 ++ hangsUp 5 0) = some s ∧
      s.sent = [{ fd := 5, msg := ascii "PONG\n" }] := ⟨_, rfl, rfl⟩
  exact ⟨s, hs, hsent, (dispatch_iff 3 _ s hs).mpr (by decide)⟩

/-- Three clients, and the first hangs up. The event of the second makes the daemon read from the
third: the line is the third's, so is the answer, and what the second sent stays unread. -/
theorem line_of_another_client :
    ∃ s, run step (init 3) (connect 5 ++ connect 6 ++ connect 7 ++ hangsUp 5 0 ++
        sends 6 1 "PING\n") = some s ∧
      s.sent = [{ fd := 7, msg := ascii "PONG\n" }] ∧
      ¬ Meets step Right (init 3) (connect 5 ++ connect 6 ++ connect 7 ++ hangsUp 5 0 ++
        sends 6 1 "PING\n") :=
  ⟨_, rfl, rfl, by decide⟩

end Busd
end BuildingBlocks
