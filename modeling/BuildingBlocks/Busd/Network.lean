import BuildingBlocks.Busd.Chunks
import BuildingBlocks.Busd.Session

/-!
# BuildingBlocks.Busd.Network

The daemon and its clients, each a process with one connection, and the streams between them.

* `Network` is the state; clients are named by the descriptor the daemon has for them. A descriptor
  that is given out again starts afresh.
* `Deed` has what the clients do, and the calls of the daemon's event loop: the step of the daemon
  is the one of `Daemon`, with the results the streams give (`step_daemon`).
* `Route` is a publication the daemon has handled, with the table it was handled with; `due` are
  the calls a client is owed for them.
-/

namespace BuildingBlocks
namespace Busd

open Lib

/-! ## Publications -/

/-- What a client may publish: a topic of 1 to 127 bytes without blanks, and a payload of at most
4095 bytes that is not blank. -/
structure Publishable (m : Message) : Prop where
  topic_pos : 0 < m.topic.length
  topic_le : m.topic.length ≤ 127
  payload_le : m.payload.length ≤ 4095
  not_blank : ∃ b ∈ m.payload, isSpace b = false

instance (m : Message) : Decidable (Publishable m) :=
  decidable_of_iff (0 < m.topic.length ∧ m.topic.length ≤ 127 ∧ m.payload.length ≤ 4095 ∧
      ∃ b ∈ m.payload, isSpace b = false)
    ⟨fun h => ⟨h.1, h.2.1, h.2.2.1, h.2.2.2⟩,
      fun h => ⟨h.topic_pos, h.topic_le, h.payload_le, h.not_blank⟩⟩

/-- What the daemon is asked to publish by a line. -/
def lineCall (line : Bytes) : Option Call :=
  match request line with
  | .pub topic rest payload => if Blank rest then none else some (topic, payload)
  | .sub _ => none
  | .unsub _ => none
  | .ping => none
  | .none => none

/-- A publication handled: who sent it, what was read of it, and the table at that time. -/
structure Route where
  sender : Nat
  call : Call
  subs : List Sub

/-- The publications among the lines handed to `handle_line`. -/
def routes (fd : Nat) : List Bytes → List Sub → List Route
  | [], _ => []
  | line :: lines, subs =>
    ((lineCall line).map (fun call => { sender := fd, call := call, subs := subs })).toList ++
      routes fd lines (handleLine fd line subs).1

/-- The copies a client is owed: one for every matching subscription, none of its own. -/
def Route.copies (r : Route) (fd : Nat) : Nat :=
  if fd = r.sender then 0 else (listing r.subs fd r.call.1).length

/-! ## The system -/

/-- `backlog` counts the connections the daemon has not accepted yet. `up` and `down` are the bytes
on the way to and from it, `bufs` and `calls` those of each client, `published` what it published,
and `hungUp` says whether it has closed its end. `since` is where the publications handled stood
when it was accepted. -/
structure Network where
  daemon : State
  backlog : Nat
  hungUp : Nat → Bool
  up : Nat → Bytes
  down : Nat → Bytes
  bufs : Nat → Bytes
  calls : Nat → List Call
  published : Nat → List Call
  routed : List Route
  since : Nat → Nat

inductive Deed where
  /-- `bb_bus_connect`: the connection waits to be accepted. What the client sends until then counts
  as sent when it is. -/
  | connect
  | publish (fd : Nat) (m : Message)
  | subscribe (fd : Nat) (topic : Bytes)
  | unsubscribe (fd : Nat) (topic : Bytes)
  /-- `bb_bus_close`, or the end of the process. -/
  | hangUp (fd : Nat)
  /-- `epoll_wait` returns. -/
  | wait (evs : List Event)
  /-- The next event reaches `accept`, which gives a descriptor or fails. -/
  | accept (cfd : Option Nat)
  /-- The next event reaches `recv`, which gives `n` bytes where there are any. -/
  | recv (n : Nat)
  /-- `bb_bus_poll` of a client; `recv` gives `n` bytes. -/
  | poll (fd n : Nat)

def Network.init (srv : Nat) : Network where
  daemon := Busd.init srv
  backlog := 0
  hungUp := fun _ => false
  up := fun _ => []
  down := fun _ => []
  bufs := fun _ => []
  calls := fun _ => []
  published := fun _ => []
  routed := []
  since := fun _ => 0

/-- The client has a connection and has not closed it. -/
def Network.Live (s : Network) (fd : Nat) : Prop :=
  fd ∈ s.daemon.conns.map Conn.fd ∧ s.hungUp fd = false

instance (s : Network) (fd : Nat) : Decidable (s.Live fd) := inferInstanceAs (Decidable (_ ∧ _))

/-- A client sends; the socket takes all of it. -/
def Network.send (s : Network) (fd : Nat) (bytes : Bytes) : Network :=
  { s with up := Function.update s.up fd (s.up fd ++ bytes) }

/-- A client sends, or has hung up. -/
def Network.Pending (s : Network) (fd : Nat) : Prop := s.up fd ≠ [] ∨ s.hungUp fd = true

instance (s : Network) (fd : Nat) : Decidable (s.Pending fd) := inferInstanceAs (Decidable (_ ∨ _))

/-- What epoll has to report. The end of a stream is readable, too. -/
def Network.Ready (s : Network) (ev : Event) : Prop :=
  match ev.src with
  | none => 0 < s.backlog
  | some fd => ev.readable = true ∧ ev.hangup = s.hungUp fd ∧ s.Pending fd

instance (s : Network) (ev : Event) : Decidable (s.Ready ev) :=
  match ev with
  | ⟨none, _, _, _⟩ => inferInstanceAs (Decidable (0 < s.backlog))
  | ⟨some _, _, _, _⟩ => inferInstanceAs (Decidable (_ ∧ _ ∧ _))

/-- A connection accepted as `fd`. -/
def Network.connected (s : Network) (fd : Nat) : Network :=
  { s with
    backlog := s.backlog - 1
    hungUp := Function.update s.hungUp fd false
    up := Function.update s.up fd []
    down := Function.update s.down fd []
    bufs := Function.update s.bufs fd []
    calls := Function.update s.calls fd []
    published := Function.update s.published fd []
    since := Function.update s.since fd s.routed.length }

/-- What `recv` returns for a record: no bytes of a descriptor that is closed, without room, and at
the end of the stream. Else it waits for bytes (`none`). -/
def Network.received (s : Network) (c : Client) (n : Nat) : Option (Option Bytes) :=
  if c.fd ∉ s.daemon.conns.map Conn.fd ∨ avail c = 0 then some none
  else if s.up c.fd = [] then if s.hungUp c.fd then some none else none
  else if 0 < n ∧ n ≤ (s.up c.fd).length ∧ n ≤ avail c then some (some ((s.up c.fd).take n))
  else none

/-- The bytes sent to a descriptor. -/
def bytesTo (fd : Nat) (out : List Sent) : Bytes := (out.filter (·.fd = fd)).flatMap (·.msg)

/-- The publications among what is received for the record `idx`. -/
def publications (d : State) (idx : Int) (received : Option Bytes) : List Route :=
  match received with
  | none => []
  | some bytes => routes (d.clients idx).fd (handed d (idx, bytes)) d.subs

/-- What `recv` gave for the record `idx` is taken from its stream, and what the daemon sends is on
its way. -/
def Network.passOn (s : Network) (idx : Int) (received : Option Bytes) (daemon : State) : Network :=
  let fd := (s.daemon.clients idx).fd
  { s with
    daemon := daemon
    up := Function.update s.up fd ((s.up fd).drop (received.getD []).length)
    down := fun dst => s.down dst ++ bytesTo dst (daemon.sent.drop s.daemon.sent.length)
    routed := s.routed ++ publications s.daemon idx received }

/-- A poll of the client. -/
def Network.pollClient (s : Network) (fd n : Nat) : Network :=
  { s with
    down := Function.update s.down fd ((s.down fd).drop n)
    bufs := Function.update s.bufs fd (poll (s.bufs fd) ((s.down fd).take n)).1
    calls := Function.update s.calls fd
      (s.calls fd ++ (poll (s.bufs fd) ((s.down fd).take n)).2.1) }

/-- The next event of the daemon's batch reaches `accept`. -/
def Network.acceptNext (s : Network) (cfd : Option Nat) : Option Network :=
  match s.daemon.batch with
  | [] => none
  | ev :: _ =>
    -- without a connection it waits for one
    if ev.data = s.daemon.srv ∧ 0 < s.backlog then
      (Busd.step s.daemon (.handle { accepted := cfd, received := none })).map fun daemon =>
        match cfd with
        | none => { s with daemon := daemon }
        | some fd => { s.connected fd with daemon := daemon }
    else none

/-- The next event of the daemon's batch reaches `recv`. -/
def Network.recvNext (s : Network) (n : Nat) : Option Network :=
  match s.daemon.batch with
  | [] => none
  | ev :: _ =>
    if ev.data = s.daemon.srv then none
    else
      (s.received (s.daemon.clients ev.data) n).bind fun received =>
        (Busd.step s.daemon (.handle { accepted := none, received := received })).map
          (s.passOn ev.data received)

def Network.step (s : Network) : Deed → Option Network
  | .connect => some { s with backlog := s.backlog + 1 }
  | .publish fd m =>
    if s.Live fd ∧ Publishable m then
      some
        { s.send fd (busPublish m.topic m.payload) with
          published := Function.update s.published fd (s.published fd ++ [m.call]) }
    else none
  | .subscribe fd topic =>
    if s.Live fd ∧ 0 ∉ topic ∧ 0x0a ∉ topic then some (s.send fd (busSubscribe topic)) else none
  | .unsubscribe fd topic =>
    if s.Live fd ∧ 0 ∉ topic ∧ 0x0a ∉ topic then some (s.send fd (busUnsubscribe topic)) else none
  | .hangUp fd =>
    if s.Live fd then some { s with hungUp := Function.update s.hungUp fd true } else none
  | .wait evs =>
    if ∀ ev ∈ evs, s.Ready ev then
      (Busd.step s.daemon (.wait evs)).map fun daemon => { s with daemon := daemon }
    else none
  | .accept cfd => s.acceptNext cfd
  | .recv n => s.recvNext n
  | .poll fd n =>
    if s.Live fd ∧ 0 < n ∧ n ≤ (s.down fd).length ∧ n ≤ pollSpace (s.bufs fd) then
      some (s.pollClient fd n)
    else none

/-- The publications handled since the client was accepted. -/
def Network.recent (s : Network) (fd : Nat) : List Route := s.routed.drop (s.since fd)

/-- Those of the client itself. -/
def Network.routedFrom (s : Network) (fd : Nat) : List Call :=
  ((s.recent fd).filter (·.sender = fd)).map Route.call

/-- The calls a client is owed for all of them. -/
def Network.due (s : Network) (fd : Nat) : List Call :=
  (s.recent fd).flatMap (fun r => List.replicate (r.copies fd) r.call)

/-- The daemon in a network does what the daemon does. -/
theorem Network.step_daemon {s s' : Network} {d : Deed} (h : s.step d = some s') :
    s'.daemon = s.daemon ∨ ∃ a, Busd.step s.daemon a = some s'.daemon := by
  cases d with
  | connect =>
    cases h
    exact Or.inl rfl
  | publish | subscribe | unsubscribe | hangUp | poll =>
    simp only [Network.step] at h
    split_ifs at h
    cases h
    exact Or.inl rfl
  | wait evs =>
    simp only [Network.step] at h
    split_ifs at h
    obtain ⟨daemon, hd, rfl⟩ := Option.map_eq_some_iff.mp h
    exact Or.inr ⟨_, hd⟩
  | accept cfd =>
    simp only [Network.step, acceptNext] at h
    split at h
    · cases h
    · split_ifs at h
      obtain ⟨daemon, hd, rfl⟩ := Option.map_eq_some_iff.mp h
      cases cfd <;> exact Or.inr ⟨_, hd⟩
  | recv n =>
    simp only [Network.step, recvNext] at h
    split at h
    · cases h
    · split_ifs at h
      obtain ⟨received, -, hs⟩ := Option.bind_eq_some_iff.mp h
      obtain ⟨daemon, hd, rfl⟩ := Option.map_eq_some_iff.mp hs
      exact Or.inr ⟨_, hd⟩

/-- So every run of the network is one of the daemon. -/
theorem Network.run_daemon {s s' : Network} {ds : List Deed}
    (h : run Network.step s ds = some s') :
    ∃ acts, run Busd.step s.daemon acts = some s'.daemon := by
  induction ds generalizing s with
  | nil =>
    cases h
    exact ⟨[], rfl⟩
  | cons d ds ih =>
    obtain ⟨s₁, h₁, h₂⟩ := run_cons_eq_some.mp h
    obtain ⟨acts, hacts⟩ := ih h₂
    rcases step_daemon h₁ with hsame | ⟨a, ha⟩
    · rw [hsame] at hacts
      exact ⟨acts, hacts⟩
    · exact ⟨a :: acts, run_cons_eq_some.mpr ⟨s₁.daemon, ha, hacts⟩⟩

/-! ## The lines clients send -/

/-- A line a client may send: a publication, or a change of its subscriptions. -/
structure Asks (line : Bytes) : Prop where
  text : 0 ∉ line
  single : 0x0a ∉ line
  short : line.length ≤ maxLine - 1
  kind : (∃ m, Publishable m ∧ line = m.line) ∨ ascii "SUB " <+: line ∨ ascii "UNSUB " <+: line

section Lines

variable {m : Message} {subs : List Sub} {fd : Nat} {line : Bytes}

theorem length_line (m : Message) : m.line.length = m.topic.length + m.payload.length + 5 := by
  simp only [Message.line, List.length_append, List.length_singleton]
  have hpub : (ascii "PUB ").length = 4 := rfl
  omega

theorem Publishable.length_le (h : Publishable m) : m.line.length ≤ maxLine - 1 := by
  have htopic := h.topic_le
  have hpayload := h.payload_le
  have hmax : maxLine = 4288 := rfl
  rw [length_line]
  omega

/-- `bb_bus_publish` sends the whole message. -/
theorem busPublish_eq (h : Publishable m) :
    busPublish m.topic m.payload = m.line ++ [0x0a] := by
  have hline : ascii "PUB " ++ m.topic ++ [0x20] ++ m.payload = m.line := rfl
  rw [busPublish, hline, List.take_of_length_le h.length_le]
  rfl

theorem asks_publish (h : Publishable m) : Asks m.line where
  text := m.notMem_line.1
  single := m.notMem_line.2
  short := h.length_le
  kind := Or.inl ⟨m, h, rfl⟩

/-- What is left of a prefix and a topic in the line buffer. -/
theorem asks_of_prefix {pre topic : Bytes} (hpre : pre.length ≤ maxLine - 1) (h0 : 0 ∉ pre ++ topic)
    (hnl : 0x0a ∉ pre ++ topic)
    (hkind : ∀ line, pre <+: line → ascii "SUB " <+: line ∨ ascii "UNSUB " <+: line) :
    Asks ((pre ++ topic).take (maxLine - 1)) where
  text := fun h => h0 (List.mem_of_mem_take h)
  single := fun h => hnl (List.mem_of_mem_take h)
  short := by
    rw [List.length_take]
    exact min_le_left _ _
  kind := by
    refine Or.inr (hkind _ ?_)
    rw [List.take_append, List.take_of_length_le hpre]
    exact List.prefix_append _ _

theorem asks_subscribe {topic : Bytes} (h0 : 0 ∉ topic) (hnl : 0x0a ∉ topic) :
    Asks ((ascii "SUB " ++ topic).take (maxLine - 1)) := by
  refine asks_of_prefix (by decide) ?_ ?_ (fun _ h => Or.inl h)
  · rw [List.mem_append, not_or]
    exact ⟨by decide, h0⟩
  · rw [List.mem_append, not_or]
    exact ⟨by decide, hnl⟩

theorem asks_unsubscribe {topic : Bytes} (h0 : 0 ∉ topic) (hnl : 0x0a ∉ topic) :
    Asks ((ascii "UNSUB " ++ topic).take (maxLine - 1)) := by
  refine asks_of_prefix (by decide) ?_ ?_ (fun _ h => Or.inr h)
  · rw [List.mem_append, not_or]
    exact ⟨by decide, h0⟩
  · rw [List.mem_append, not_or]
    exact ⟨by decide, hnl⟩

/-- `sscanf` reads the topic of a message whole. -/
theorem scanWord_topic {topic rest : Bytes} {n : Nat} (hpos : 0 < topic.length)
    (hle : topic.length ≤ n) (hword : ∀ b ∈ topic, isSpace b = false) :
    scanWord n (topic ++ 0x20 :: rest) = some (topic, 0x20 :: rest) := by
  obtain ⟨b, topic, rfl⟩ := List.exists_cons_of_length_pos hpos
  have hdrop : ((b :: topic) ++ 0x20 :: rest).dropWhile isSpace = (b :: topic) ++ 0x20 :: rest := by
    rw [List.cons_append, List.dropWhile_cons_of_neg]
    simpa using hword b List.mem_cons_self
  have htake : (((b :: topic) ++ 0x20 :: rest).take n).takeWhile (fun b => !isSpace b) =
      b :: topic := by
    rw [List.take_append, List.take_of_length_le hle, List.takeWhile_append_of_pos]
    · cases hk : n - (b :: topic).length with
      | zero => rw [List.take_zero, List.takeWhile_nil, List.append_nil]
      | succ k =>
        rw [List.take_succ_cons, List.takeWhile_cons_of_neg (by decide), List.append_nil]
    · intro b' hb'
      simpa using hword b' hb'
  rw [scanWord]
  simp only [hdrop, htake, List.isEmpty_cons, List.drop_left]
  rfl

theorem payloadOf_topic {topic payload : Bytes} (hspace : ∀ b ∈ topic, b ≠ 0x20) :
    payloadOf (topic ++ 0x20 :: payload) = payload := by
  have hdrop : (topic ++ 0x20 :: payload).dropWhile (fun b => decide (b ≠ 0x20)) =
      0x20 :: payload := by
    rw [List.dropWhile_append_of_pos, List.dropWhile_cons_of_neg (by decide)]
    intro b hb
    exact decide_eq_true (hspace b hb)
  rw [payloadOf, hdrop]
  rfl

/-- The daemon reads a publication as it was made. -/
theorem request_line (h : Publishable m) :
    request m.line = .pub m.topic (0x20 :: m.payload) m.payload := by
  have hpre : (ascii "PUB ").isPrefixOf m.line = true := by
    rw [List.isPrefixOf_iff_prefix, Message.line, List.append_assoc, List.append_assoc]
    exact List.prefix_append _ _
  have hdrop : m.line.drop 4 = m.topic ++ 0x20 :: m.payload := by
    simp [Message.line, ascii]
  have hscan : scanWord 255 (m.topic ++ 0x20 :: m.payload) = some (m.topic, 0x20 :: m.payload) :=
    scanWord_topic h.topic_pos (h.topic_le.trans (by decide)) (fun b hb => (m.topic_word b hb).1)
  rw [request, if_pos hpre, hdrop, hscan, payloadOf_topic (fun b hb => (m.topic_space b hb).1)]

theorem not_blank_payload (h : Publishable m) : ¬ Blank (0x20 :: m.payload) := by
  obtain ⟨b, hb, hword⟩ := h.not_blank
  intro hblank
  rw [Blank, List.isEmpty_iff, List.dropWhile_eq_nil_iff] at hblank
  rw [hblank b (List.mem_cons_of_mem _ hb)] at hword
  cases hword

theorem lineCall_line (h : Publishable m) : lineCall m.line = some m.call := by
  rw [lineCall, request_line h]
  exact if_neg (not_blank_payload h)

theorem request_change (h : ascii "SUB " <+: line ∨ ascii "UNSUB " <+: line) :
    (∃ topic, request line = .sub topic) ∨ (∃ topic, request line = .unsub topic) ∨
      request line = .none := by
  rcases h with ⟨rest, rfl⟩ | ⟨rest, rfl⟩
  · have hpub : (ascii "PUB ").isPrefixOf (ascii "SUB " ++ rest) = false := rfl
    have hsub : (ascii "SUB ").isPrefixOf (ascii "SUB " ++ rest) = true := rfl
    simp only [request, hpub, hsub, if_true, if_false, Bool.false_eq_true]
    cases scanWord 255 ((ascii "SUB " ++ rest).drop 4) with
    | none => exact Or.inr (Or.inr rfl)
    | some w => exact Or.inl ⟨w.1, rfl⟩
  · have hpub : (ascii "PUB ").isPrefixOf (ascii "UNSUB " ++ rest) = false := rfl
    have hsub : (ascii "SUB ").isPrefixOf (ascii "UNSUB " ++ rest) = false := rfl
    have hunsub : (ascii "UNSUB ").isPrefixOf (ascii "UNSUB " ++ rest) = true := rfl
    have hping : ascii "UNSUB " ++ rest ≠ ascii "PING" := fun h => by cases h
    simp only [request, hpub, hsub, hunsub, if_true, if_false, Bool.false_eq_true]
    cases scanWord 255 ((ascii "UNSUB " ++ rest).drop 6) with
    | none => exact Or.inr (Or.inr rfl)
    | some w => exact Or.inr (Or.inl ⟨w.1, rfl⟩)

/-- A change of subscriptions publishes nothing. -/
theorem lineCall_change (h : ascii "SUB " <+: line ∨ ascii "UNSUB " <+: line) :
    lineCall line = none := by
  rw [lineCall]
  rcases request_change h with ⟨topic, hr⟩ | ⟨topic, hr⟩ | hr <;> rw [hr]

theorem lineCall_subscribe (topic : Bytes) :
    lineCall ((ascii "SUB " ++ topic).take (maxLine - 1)) = none := by
  refine lineCall_change (Or.inl ?_)
  rw [List.take_append, List.take_of_length_le (by decide)]
  exact List.prefix_append _ _

theorem lineCall_unsubscribe (topic : Bytes) :
    lineCall ((ascii "UNSUB " ++ topic).take (maxLine - 1)) = none := by
  refine lineCall_change (Or.inr ?_)
  rw [List.take_append, List.take_of_length_le (by decide)]
  exact List.prefix_append _ _

/-- Nor does it send anything. -/
theorem handleLine_change (h : ascii "SUB " <+: line ∨ ascii "UNSUB " <+: line) (fd : Nat)
    (subs : List Sub) : (handleLine fd line subs).2 = [] := by
  rw [handleLine_eq]
  rcases request_change h with ⟨topic, hr⟩ | ⟨topic, hr⟩ | hr <;> rw [hr]

/-- What a line publishes is what a client may publish. -/
theorem lineCall_eq_some {call : Call} (hline : Asks line) (h : lineCall line = some call) :
    ∃ m, Publishable m ∧ call = m.call := by
  rcases hline.kind with ⟨m, hm, rfl⟩ | hchange
  · rw [lineCall_line hm] at h
    exact ⟨m, hm, (Option.some.inj h).symm⟩
  · rw [(lineCall_change hchange)] at h
    cases h

/-! ## A batch of lines -/

/-- The line a call was sent as. -/
def callLine (c : Call) : Bytes := ascii "PUB " ++ c.1 ++ [0x20] ++ c.2

theorem bytesTo_append (out out' : List Sent) :
    bytesTo fd (out ++ out') = bytesTo fd out ++ bytesTo fd out' := by
  rw [bytesTo, List.filter_append, List.flatMap_append]
  rfl

theorem flatMap_replicate (k : Nat) (fd : Nat) (line : Bytes) :
    (List.replicate k ({ fd := fd, msg := line ++ [0x0a] } : Sent)).flatMap (·.msg) =
      join 0x0a (List.replicate k line) := by
  induction k with
  | zero => rfl
  | succ k ih =>
    rw [List.replicate_succ, List.replicate_succ, List.flatMap_cons, join_cons, ih,
      List.append_assoc]
    rfl

/-- What one line sends to a client: the copies it is owed for what the line publishes. -/
theorem handleLine_bytesTo (hline : Asks line) (hids : ∀ e ∈ subs, e.clientIds.Nodup)
    (sender dst : Nat) :
    bytesTo dst (handleLine sender line subs).2 =
      join 0x0a
        ((((lineCall line).map
            (fun call => ({ sender := sender, call := call, subs := subs } : Route))).toList.flatMap
          (fun r => List.replicate (r.copies dst) r.call)).map callLine) := by
  rcases hline.kind with ⟨m, hm, rfl⟩ | hchange
  · have hsmall : ¬ bufferSize ≤ (pubLine m.topic m.payload).length := by
      have hle := hm.length_le
      have hmax : maxLine - 1 = 4287 := rfl
      have hsize : bufferSize = 8192 := rfl
      rw [m.pubLine_eq, List.length_append, List.length_singleton]
      omega
    rw [handleLine_eq, request_line hm, lineCall_line hm]
    simp only [if_neg (not_blank_payload hm)]
    rw [bytesTo, publish_filter hids]
    simp only [hsmall, or_false, Option.map_some, Option.toList_some, List.flatMap_cons,
      List.flatMap_nil, List.append_nil, Route.copies, List.map_replicate]
    exact flatMap_replicate _ _ _
  · rw [lineCall_change hchange, handleLine_change hchange]
    rfl

/-- A batch of lines: what it publishes, what it sends to a client, and the table it leaves. -/
theorem handleLines_routes {lines : List Bytes} (hlines : ∀ l ∈ lines, Asks l)
    (hids : ∀ e ∈ subs, e.clientIds.Nodup) (sender : Nat) :
    (routes sender lines subs).map Route.call = lines.filterMap lineCall ∧
      (∀ r ∈ routes sender lines subs, r.sender = sender) ∧
      (∀ dst, bytesTo dst (handleLines sender lines subs).2 =
        join 0x0a (((routes sender lines subs).flatMap
          (fun r => List.replicate (r.copies dst) r.call)).map callLine)) ∧
      ∀ e ∈ (handleLines sender lines subs).1, e.clientIds.Nodup := by
  induction lines generalizing subs with
  | nil => exact ⟨rfl, fun _ h => absurd h List.not_mem_nil, fun _ => rfl, hids⟩
  | cons line lines ih =>
    have hline := hlines line List.mem_cons_self
    obtain ⟨hcalls, hsender, hbytes, hids'⟩ := ih
      (fun l hl => hlines l (List.mem_cons_of_mem line hl))
      ((kept_nodup sender).handleLine hids line)
    refine ⟨?_, ?_, ?_, hids'⟩
    · rw [routes, List.map_append, hcalls]
      cases hcall : lineCall line with
      | none => rw [List.filterMap_cons_none hcall]; rfl
      | some call => rw [List.filterMap_cons_some hcall]; rfl
    · intro r hr
      rcases List.mem_append.mp hr with hr | hr
      · rw [Option.mem_toList, Option.map_eq_some_iff] at hr
        obtain ⟨call, -, rfl⟩ := hr
        rfl
      · exact hsender r hr
    · intro dst
      have hsplit : (handleLines sender (line :: lines) subs).2 = (handleLine sender line subs).2 ++
          (handleLines sender lines (handleLine sender line subs).1).2 := rfl
      rw [hsplit, bytesTo_append, handleLine_bytesTo hline hids, hbytes, routes,
        List.flatMap_append, List.map_append, join_append]

/-- What a line keeps of every entry holds of the table each publication is handled with. -/
theorem Kept.routes {P : List Nat → Prop} (hP : Kept fd P) (lines : List Bytes)
    (h : ∀ e ∈ subs, P e.clientIds) :
    (∀ r ∈ routes fd lines subs, ∀ e ∈ r.subs, P e.clientIds) ∧
      ∀ e ∈ (handleLines fd lines subs).1, P e.clientIds := by
  induction lines generalizing subs with
  | nil => exact ⟨fun _ hr => absurd hr List.not_mem_nil, h⟩
  | cons line lines ih =>
    obtain ⟨hroutes, hafter⟩ := ih (hP.handleLine h line)
    refine ⟨?_, hafter⟩
    intro r hr
    rcases List.mem_append.mp hr with hr | hr
    · rw [Option.mem_toList, Option.map_eq_some_iff] at hr
      obtain ⟨call, -, rfl⟩ := hr
      exact h
    · exact hroutes r hr

end Lines

end Busd
end BuildingBlocks
