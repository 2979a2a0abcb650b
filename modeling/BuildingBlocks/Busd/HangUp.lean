import BuildingBlocks.Busd.Chunks

/-!
# BuildingBlocks.Busd.HangUp

A client that sends lines and closes its socket, and when the daemon has handed all of them to
`handle_line` before it removes the client.

* `Peer` is the connection of one client: the daemon, the bytes in the socket, what was sent and
  what was handed over. Other events of the daemon may come between.
* `Complete` is the law of a step: where the client is removed, every complete line it sent was
  handed over, in order.
* `Drained` is the condition: a hang-up is handled when what stays in the socket ends no line.
-/

namespace BuildingBlocks
namespace Busd

open Lib

/-! ## The connection -/

/-- `idx` is the record of the client; `isOpen` until the client closes its socket, `live` until
`remove_client` closes the descriptor. -/
structure Peer where
  state : State
  queue : Bytes
  sent : Bytes
  handed : List Bytes
  isOpen : Bool
  live : Bool

inductive Move where
  /-- The client sends bytes. -/
  | send (bytes : Bytes)
  /-- The client closes its socket. -/
  | close
  /-- An event of the client is handled; where it is readable, `recv` gives `n` bytes. -/
  | event (readable hangup : Bool) (n : Nat)
  /-- Events of other clients leave the record as it is. -/
  | other (state : State)

/-- The client just accepted as record `idx`. -/
def Peer.start (state : State) : Peer where
  state := state
  queue := []
  sent := []
  handed := []
  isOpen := true
  live := true

/-- What `recv` returns. -/
def received (queue : Bytes) (n : Nat) : Option Bytes := if n = 0 then none else some (queue.take n)

/-- The lines handed over behind that `recv`. -/
def handedOf (idx : Int) (state : State) : Option Bytes → List Bytes
  | none => []
  | some bytes => handed state (idx, bytes)

def eventOf (idx : Int) (readable hangup : Bool) (s : Peer) : Event where
  src := some (s.state.clients idx).fd
  data := idx
  readable := readable
  hangup := hangup

/-- The lines keep the limit of the daemon; a flag is only reported where there is something to
report; `recv` gives no bytes only at the end of what was sent. The client is removed where the
count of clients goes down. -/
def Peer.step (idx : Int) (s : Peer) : Move → Option Peer
  | .send bytes =>
    if s.isOpen ∧ 0 ∉ bytes ∧ Fits 0x0a (bufferSize - 1) (s.sent ++ bytes) then
      some { s with queue := s.queue ++ bytes, sent := s.sent ++ bytes }
    else none
  | .close => some { s with isOpen := false }
  | .event readable hangup n =>
    if s.live ∧ (hangup → ¬ s.isOpen) ∧ (readable → s.queue ≠ [] ∨ ¬ s.isOpen) ∧
        n ≤ s.queue.length ∧ n ≤ avail (s.state.clients idx) ∧
        (readable → n = 0 → s.queue = []) ∧ (¬ readable → n = 0) then
      let state := serveClient (eventOf idx readable hangup s) (received s.queue n) s.state
      some
        { s with
          state := state
          queue := s.queue.drop n
          handed := s.handed ++ handedOf idx s.state (received s.queue n)
          live := decide (state.numClients = s.state.numClients) }
    else none
  | .other state =>
    if state.clients idx = s.state.clients idx then some { s with state := state } else none

/-! ## The law and the condition -/

/-- Where the client is removed, every complete line it sent was handed over. -/
def Complete (idx : Int) (s : Peer) (a : Move) : Prop :=
  ∀ s' ∈ s.step idx a, s.live → ¬ s'.live → s'.handed = (cut 0x0a s'.sent).1

/-- A hang-up is handled when the bytes that stay in the socket end no line. -/
def Drained (s : Peer) : Move → Prop
  | .event _ hangup n => hangup → 0x0a ∉ s.queue.drop n
  | .send _ => True
  | .close => True
  | .other _ => True

instance (s : Peer) (a : Move) : Decidable (Drained s a) :=
  match a with
  | .event _ _ _ => inferInstanceAs (Decidable (_ → _))
  | .send _ => .isTrue trivial
  | .close => .isTrue trivial
  | .other _ => .isTrue trivial

/-! ## The invariant -/

/-- While the client is there, what it sent is what was received and what is in the socket; the
lines of the first are handed over and its rest is in the record. -/
structure Tracked (idx : Int) (xs : Bytes) (s : Peer) : Prop where
  sent : s.sent = xs ++ s.queue
  text : 0 ∉ s.sent
  handed : s.handed = (cut 0x0a xs).1
  buf : (s.state.clients idx).buf = (cut 0x0a xs).2

section Tracked

variable {idx : Int} {xs : Bytes} {s s' : Peer} {a : Move} {readable hangup : Bool} {n : Nat}

theorem tracked_start {state : State} (h : (state.clients idx).buf = []) :
    Tracked idx [] (Peer.start state) where
  sent := rfl
  text := List.not_mem_nil
  handed := rfl
  buf := h

theorem event_eq_some (hs : s.step idx (.event readable hangup n) = some s') :
    s.live = true ∧ (readable = true → n = 0 → s.queue = []) ∧ (¬ readable = true → n = 0) ∧
      s'.sent = s.sent ∧ s'.queue = s.queue.drop n ∧
      s'.handed = s.handed ++ handedOf idx s.state (received s.queue n) ∧
      s'.state = serveClient (eventOf idx readable hangup s) (received s.queue n) s.state ∧
      s'.live = decide (s'.state.numClients = s.state.numClients) := by
  simp only [Peer.step] at hs
  split_ifs at hs with hc
  cases hs
  obtain ⟨hlive, -, -, -, -, hread, hnone⟩ := hc
  exact ⟨hlive, hread, hnone, rfl, rfl, rfl, rfl, rfl⟩

/-- The client is removed on a hang-up, and where `recv` gives nothing. -/
theorem live_event (hs : s.step idx (.event readable hangup n) = some s') :
    s'.live = true ↔ hangup = false ∧ (readable = true → n ≠ 0) := by
  obtain ⟨-, -, -, -, -, -, hstate, hlive⟩ := event_eq_some hs
  rw [hlive, hstate, decide_eq_true_eq]
  by_cases hn : n = 0
  · cases readable <;> cases hangup <;>
      simp [serveClient, eventOf, received, hn, removeClient]
  · cases readable <;> cases hangup <;>
      simp [serveClient, eventOf, received, hn, removeClient, receive]

theorem Tracked.text_buf (h : Tracked idx xs s) (n : Nat) :
    0 ∉ (s.state.clients idx).buf ++ s.queue.take n := by
  have h0 := h.text
  rw [h.sent, List.mem_append, not_or] at h0
  rw [h.buf, List.mem_append, not_or]
  exact ⟨fun hm => h0.1 (mem_of_mem_rest hm), fun hm => h0.2 (List.mem_of_mem_take hm)⟩

/-- What the lines of an event add. -/
theorem Tracked.handed_event (h : Tracked idx xs s)
    (hs : s.step idx (.event readable hangup n) = some s') :
    s'.handed = (cut 0x0a (xs ++ s.queue.take n)).1 ∧
      s'.sent = (xs ++ s.queue.take n) ++ s'.queue := by
  obtain ⟨-, -, -, hsent, hqueue, hhanded, -, -⟩ := event_eq_some hs
  refine ⟨?_, ?_⟩
  · rw [hhanded, h.handed, received]
    by_cases hn : n = 0
    · rw [if_pos hn, hn, List.take_zero, handedOf, List.append_nil, List.append_nil]
    · rw [if_neg hn, handedOf, Busd.handed, lines_eq_cut (h.text_buf n), h.buf, cut_append xs]
  · rw [hsent, h.sent, hqueue, List.append_assoc, List.take_append_drop]

theorem Tracked.event (h : Tracked idx xs s)
    (hs : s.step idx (.event readable hangup n) = some s') (hlive' : s'.live = true) :
    Tracked idx (xs ++ s.queue.take n) s' := by
  obtain ⟨hhanded, hsent⟩ := h.handed_event hs
  obtain ⟨-, -, hn, hsame, -, -, hstate, -⟩ := event_eq_some hs
  obtain ⟨hhangup, hread⟩ := (live_event hs).mp hlive'
  refine ⟨hsent, by rw [hsame]; exact h.text, hhanded, ?_⟩
  subst hhangup
  cases readable with
  | false =>
    obtain rfl : n = 0 := hn (by decide)
    rw [hstate]
    simpa [serveClient, eventOf] using h.buf
  | true =>
    have hrecv : s'.state = receive idx (s.queue.take n) s.state := by
      rw [hstate]
      simp [serveClient, eventOf, received, hread rfl]
    rw [hrecv, receive_clients s.state (idx, s.queue.take n), Function.update_self]
    simp only
    rw [lines_eq_cut (h.text_buf n), h.buf, cut_append xs]

/-- One step while the client is there. -/
theorem Tracked.step (h : Tracked idx xs s) (hs : s.step idx a = some s')
    (hlive' : s'.live = true) : ∃ ys, Tracked idx ys s' := by
  cases a with
  | send bytes =>
    simp only [Peer.step] at hs
    split_ifs at hs with hc
    cases hs
    refine ⟨xs, ?_, ?_, h.handed, h.buf⟩
    · simp only [h.sent, List.append_assoc]
    · rw [List.mem_append, not_or]
      exact ⟨h.text, hc.2.1⟩
  | close =>
    cases hs
    exact ⟨xs, h.sent, h.text, h.handed, h.buf⟩
  | event readable hangup n => exact ⟨_, h.event hs hlive'⟩
  | other state =>
    simp only [Peer.step] at hs
    split_ifs at hs with hc
    cases hs
    refine ⟨xs, h.sent, h.text, h.handed, ?_⟩
    simp only [hc]
    exact h.buf

/-- Only an event removes the client. -/
theorem live_of_step (hs : s.step idx a = some s') (hlive' : s'.live = true) : s.live = true := by
  cases a with
  | event readable hangup n => exact (event_eq_some hs).1
  | send bytes =>
    simp only [Peer.step] at hs
    split_ifs at hs
    cases hs
    exact hlive'
  | close =>
    cases hs
    exact hlive'
  | other state =>
    simp only [Peer.step] at hs
    split_ifs at hs
    cases hs
    exact hlive'

/-- An event that removes the client has handed over every line exactly when none stays behind. -/
theorem Tracked.event_iff (h : Tracked idx xs s)
    (hs : s.step idx (.event readable hangup n) = some s') :
    s'.handed = (cut 0x0a s'.sent).1 ↔ 0x0a ∉ s.queue.drop n := by
  obtain ⟨hhanded, hsent⟩ := h.handed_event hs
  obtain ⟨-, -, -, -, hqueue, -⟩ := event_eq_some hs
  rw [hhanded, hsent, hqueue, frames_eq_iff]

theorem Tracked.complete_iff (h : s.live = true → ∃ xs, Tracked idx xs s)
    (hs : s.step idx a = some s') : Complete idx s a ↔ Drained s a := by
  unfold Complete
  simp only [Option.mem_def, hs, Option.some.injEq, forall_eq']
  cases a with
  | send bytes =>
    refine iff_of_true (fun hl hl' => absurd ?_ hl') trivial
    simp only [Peer.step] at hs
    split_ifs at hs
    cases hs
    exact hl
  | close =>
    refine iff_of_true (fun hl hl' => absurd ?_ hl') trivial
    cases hs
    exact hl
  | other state =>
    refine iff_of_true (fun hl hl' => absurd ?_ hl') trivial
    simp only [Peer.step] at hs
    split_ifs at hs
    cases hs
    exact hl
  | event readable hangup n =>
    obtain ⟨hlive, hread, -, -, -, -⟩ := event_eq_some hs
    obtain ⟨xs, hx⟩ := h hlive
    have hiff := hx.event_iff hs
    rw [live_event hs, hiff]
    unfold Drained
    cases hangup with
    | true => simp [hlive]
    | false =>
      refine iff_of_true (fun _ hgone => ?_) (fun hh => nomatch hh)
      -- without a hang-up the client is removed at the end of what it sent
      obtain ⟨hr, hzero⟩ : readable = true ∧ n = 0 := by simpa using hgone
      rw [hread hr hzero, List.drop_nil]
      exact List.not_mem_nil

end Tracked

/-- **Exactly the drained hang-ups lose no line.** For every client of the daemon, every data it
sends within the line limit before it closes, every way it is received in and every combination of
flags reported, the client is only removed when all its complete lines were handed over, if and
only if every hang-up is handled when what stays in the socket ends no line. -/
theorem hangUp_iff (state : State) (idx : Int) (acts : List Move) (s : Peer)
    (hfresh : (state.clients idx).buf = [])
    (hrun : run (Peer.step idx) (Peer.start state) acts = some s) :
    Meets (Peer.step idx) (Complete idx) (Peer.start state) acts ↔
      Meets (Peer.step idx) Drained (Peer.start state) acts :=
  meets_iff_of_invariant (I := fun s => s.live = true → ∃ xs, Tracked idx xs s)
    (fun _ _ _ h hs => Tracked.complete_iff h hs)
    (fun _ _ _ h _ hs hlive' =>
      (h (live_of_step hs hlive')).elim fun _ ht => ht.step hs hlive')
    (fun _ => ⟨[], tracked_start hfresh⟩) hrun

/-! ## Two clients -/

/-- A client connects, sends a line, and closes. -/
def polite : List Move := [.send (ascii "SUB a\n"), .close, .event true true 6]

theorem polite_complete :
    ∃ s, run (Peer.step 0) (Peer.start (acceptClient (some 5) (init 3))) polite = some s ∧
      s.live = false ∧
      Meets (Peer.step 0) (Complete 0) (Peer.start (acceptClient (some 5) (init 3))) polite := by
  obtain ⟨s, hs, hlive⟩ : ∃ s,
      run (Peer.step 0) (Peer.start (acceptClient (some 5) (init 3))) polite = some s ∧
      s.live = false := ⟨_, rfl, rfl⟩
  exact ⟨s, hs, hlive, (hangUp_iff _ 0 polite s rfl hs).mpr (by decide)⟩

/-- Data of which more is queued than one `recv` has space for, with a line that ends behind it: the
hang-up of the same event removes the client with that line unread. -/
theorem lost_behind {data : Bytes} (h0 : 0 ∉ data) (hfits : Fits 0x0a (bufferSize - 1) data)
    (hnl : 0x0a ∈ data.drop (bufferSize - 1)) :
    ∃ s, run (Peer.step 0) (Peer.start (acceptClient (some 5) (init 3)))
        [.send data, .close, .event true true (bufferSize - 1)] = some s ∧ s.live = false ∧
      ¬ Meets (Peer.step 0) (Complete 0) (Peer.start (acceptClient (some 5) (init 3)))
        [.send data, .close, .event true true (bufferSize - 1)] := by
  have hstart : Tracked 0 [] (Peer.start (acceptClient (some 5) (init 3))) := tracked_start rfl
  obtain ⟨s₁, h₁, hqueue₁, hstate₁, hlive₁⟩ : ∃ s₁,
      (Peer.start (acceptClient (some 5) (init 3))).step 0 (.send data) = some s₁ ∧
        s₁.queue = data ∧ s₁.state = acceptClient (some 5) (init 3) ∧ s₁.live = true :=
    ⟨_, if_pos ⟨rfl, h0, hfits⟩, rfl, rfl, rfl⟩
  obtain ⟨s₂, h₂, hqueue₂, hstate₂, hlive₂, hclosed₂⟩ : ∃ s₂, s₁.step 0 .close = some s₂ ∧
      s₂.queue = s₁.queue ∧ s₂.state = s₁.state ∧ s₂.live = s₁.live ∧ s₂.isOpen = false :=
    ⟨_, rfl, rfl, rfl, rfl, rfl⟩
  rw [hqueue₁] at hqueue₂
  rw [hstate₁] at hstate₂
  rw [hlive₁] at hlive₂
  have hle : bufferSize - 1 ≤ s₂.queue.length := by
    have hpos := List.length_pos_of_mem hnl
    rw [List.length_drop] at hpos
    rw [hqueue₂]
    omega
  have hroom : bufferSize - 1 ≤ avail (s₂.state.clients 0) := by
    rw [hstate₂]
    decide
  obtain ⟨s₃, h₃⟩ : ∃ s₃, s₂.step 0 (.event true true (bufferSize - 1)) = some s₃ :=
    ⟨_, if_pos ⟨hlive₂, fun _ => by simp [hclosed₂], fun _ => Or.inr (by simp [hclosed₂]), hle,
      hroom, fun _ h => absurd h (by decide), fun h => absurd rfl h⟩⟩
  have hgone : ¬ s₃.live = true := by
    rw [live_event h₃]
    rintro ⟨h, -⟩
    exact nomatch h
  obtain ⟨xs, htracked⟩ := hstart.step h₁ hlive₁
  obtain ⟨ys, htracked⟩ := htracked.step h₂ hlive₂
  refine ⟨s₃, ?_, by simpa using hgone, ?_⟩
  · exact run_cons_eq_some.mpr ⟨s₁, h₁, run_cons_eq_some.mpr ⟨s₂, h₂,
      run_cons_eq_some.mpr ⟨s₃, h₃, rfl⟩⟩⟩
  · rintro ⟨-, hm₁⟩
    obtain ⟨-, hm₂⟩ := hm₁ s₁ h₁
    obtain ⟨hcomplete, -⟩ := hm₂ s₂ h₂
    have hall := hcomplete s₃ h₃ hlive₂ hgone
    rw [htracked.event_iff h₃, hqueue₂] at hall
    exact hall hnl

/-- Two lines of `n` bytes and a newline each. -/
def twoLines (n : Nat) : Bytes := join 0x0a [List.replicate n 0x61, List.replicate n 0x61]

theorem notMem_replicate {b : UInt8} (hb : b ≠ 0x61) (n : Nat) : b ∉ List.replicate n 0x61 :=
  fun h => hb (List.eq_of_mem_replicate h)

/-- A client sends two lines of 4201 bytes, newline included, and closes. -/
theorem line_lost :
    ∃ s, run (Peer.step 0) (Peer.start (acceptClient (some 5) (init 3)))
        [.send (twoLines 4200), .close, .event true true (bufferSize - 1)] = some s ∧
      s.live = false ∧
      ¬ Meets (Peer.step 0) (Complete 0) (Peer.start (acceptClient (some 5) (init 3)))
        [.send (twoLines 4200), .close, .event true true (bufferSize - 1)] := by
  have hline : ∀ f ∈ [List.replicate 4200 (0x61 : UInt8), List.replicate 4200 0x61], 0x0a ∉ f := by
    intro f hf
    obtain rfl : f = List.replicate 4200 0x61 := by
      rcases List.mem_cons.mp hf with hf | hf
      · exact hf
      · exact List.mem_singleton.mp hf
    exact notMem_replicate (by decide) _
  have hcut := cut_join hline (List.not_mem_nil (a := (0x0a : UInt8)))
  rw [List.append_nil] at hcut
  refine lost_behind ?_ ?_ ?_
  · simp only [twoLines, join_cons, join_nil, List.mem_append, List.mem_cons, List.not_mem_nil,
      or_false, not_or]
    exact ⟨notMem_replicate (by decide) _, by decide, notMem_replicate (by decide) _, by decide⟩
  · intro f hf
    rw [pieces, twoLines, hcut] at hf
    have hlen : f.length ≤ 4200 := by
      simp only [List.cons_append, List.nil_append, List.mem_cons, List.not_mem_nil, or_false] at hf
      rcases hf with rfl | rfl | rfl
      · exact List.length_replicate.le
      · exact List.length_replicate.le
      · exact Nat.zero_le _
    exact hlen.trans_lt (by decide)
  · have hsplit : twoLines 4200 =
        (List.replicate 4200 0x61 ++ 0x0a :: List.replicate 4200 0x61) ++ [0x0a] := by
      simp only [twoLines, join_cons, join_nil, List.append_assoc, List.cons_append]
    have hlen : bufferSize - 1 ≤
        (List.replicate 4200 (0x61 : UInt8) ++ 0x0a :: List.replicate 4200 0x61).length := by
      rw [List.length_append, List.length_cons, List.length_replicate]
      decide
    rw [hsplit, List.drop_append_of_le_length hlen]
    exact List.mem_append_right _ (List.mem_singleton_self _)

end Busd
end BuildingBlocks
