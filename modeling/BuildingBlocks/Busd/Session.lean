import BuildingBlocks.Busd.Daemon
import BuildingBlocks.Busd.Table

/-!
# BuildingBlocks.Busd.Session

The subscription table over a whole session: clients connect, send lines and are removed, in any
order.

* `request` is what a line asks for; `handleLine_eq` reads `handleLine` off it.
* `record` is the history: the set of pairs of a descriptor and a pattern after each event.
* `table_represents` — after every session the table represents the history, and a publication
  sends what the history says.
-/

namespace BuildingBlocks
namespace Busd

open Lib

/-! ## Requests -/

/-- What a line asks for; `rest` is the text behind the topic. -/
inductive Request where
  | pub (topic rest payload : Bytes)
  | sub (topic : Bytes)
  | unsub (topic : Bytes)
  | ping
  | none
deriving DecidableEq, Repr

def request (line : Bytes) : Request :=
  if (ascii "PUB ").isPrefixOf line then
    match scanWord 255 (line.drop 4) with
    | some (topic, rest) => .pub topic rest (payloadOf (line.drop 4))
    | _ => .none
  else if (ascii "SUB ").isPrefixOf line then
    match scanWord 255 (line.drop 4) with
    | some (topic, _) => .sub topic
    | _ => .none
  else if (ascii "UNSUB ").isPrefixOf line then
    match scanWord 255 (line.drop 6) with
    | some (topic, _) => .unsub topic
    | _ => .none
  else if line = ascii "PING" then .ping
  else .none

/-- Only blanks: `sscanf` reads no second item. -/
def Blank (text : Bytes) : Prop := (text.dropWhile isSpace).isEmpty = true

instance (text : Bytes) : Decidable (Blank text) := inferInstanceAs (Decidable (_ = _))

theorem not_unsub_of_sub {line : Bytes} (h : (ascii "SUB ").isPrefixOf line = true) :
    (ascii "UNSUB ").isPrefixOf line = false ∧ line ≠ ascii "PING" := by
  obtain ⟨rest, rfl⟩ := List.isPrefixOf_iff_prefix.mp h
  exact ⟨rfl, fun hping => nomatch (List.cons.inj hping).1⟩

theorem handleLine_eq (fd : Nat) (line : Bytes) (subs : List Sub) :
    handleLine fd line subs =
      match request line with
      | .pub topic rest payload => (subs, if Blank rest then [] else publish subs topic payload fd)
      | .sub topic => (subscribe fd topic subs, [])
      | .unsub topic => (unsubscribe fd topic subs, [])
      | .ping => (subs, [{ fd := fd, msg := ascii "PONG\n" }])
      | .none => (subs, []) := by
  unfold handleLine request
  split
  · rw [scanPub]
    cases scanWord 255 (line.drop 4) with
    | none => rfl
    | some w =>
      obtain ⟨topic, rest⟩ := w
      by_cases hb : (rest.dropWhile isSpace).isEmpty
      · simp [hb, Blank]
      · simp [hb, Blank]
  · by_cases hsub : (ascii "SUB ").isPrefixOf line
    · obtain ⟨hunsub, hping⟩ := not_unsub_of_sub hsub
      cases hw : scanWord 255 (line.drop 4) with
      | none => simp [hsub, hunsub, hping]
      | some w => simp [hsub]
    · by_cases hunsub : (ascii "UNSUB ").isPrefixOf line
      · have hping : line ≠ ascii "PING" := by
          rintro rfl
          exact absurd hunsub (by decide)
        cases hw : scanWord 255 (line.drop 6) with
        | none => simp [hsub, hunsub, hping]
        | some w => simp [hsub, hunsub]
      · simp only [Bool.not_eq_true] at hsub hunsub
        by_cases hping : line = ascii "PING"
        · subst hping
          rfl
        · simp only [hsub, hunsub, hping, Bool.false_eq_true, if_false]

/-- A line keeps what adding and dropping its sender keep of every entry. -/
theorem Kept.handleLine {P : List Nat → Prop} {fd : Nat} (hP : Kept fd P) {subs : List Sub}
    (h : ∀ s ∈ subs, P s.clientIds) (line : Bytes) :
    ∀ s ∈ (handleLine fd line subs).1, P s.clientIds := by
  rw [handleLine_eq]
  cases request line with
  | pub topic rest payload => exact h
  | sub topic => exact hP.subscribe h
  | unsub topic => exact hP.unsubscribe h
  | ping => exact h
  | none => exact h

/-! ## Sessions -/

/-- The connected descriptors and the subscription table. -/
structure Session where
  connected : List Nat
  subs : List Sub
deriving DecidableEq, Repr

inductive Op where
  | connect (fd : Nat)
  | line (fd : Nat) (text : Bytes)
  | remove (fd : Nat)
deriving DecidableEq, Repr

/-- A descriptor in use is not given out again, and at `maxClients` a client is not taken in; only
connected clients send lines and are removed. -/
def Session.step (s : Session) : Op → Option Session
  | .connect fd =>
    if fd ∉ s.connected ∧ s.connected.length < maxClients then
      some { s with connected := s.connected ++ [fd] }
    else none
  | .line fd text =>
    if fd ∈ s.connected then some { s with subs := (handleLine fd text s.subs).1 } else none
  | .remove fd =>
    if fd ∈ s.connected then
      some { connected := s.connected.filter (· ≠ fd), subs := dropClient fd s.subs }
    else none

/-- What `remove_client` does to the table depends on the descriptor of the record only. -/
theorem removeClient_subs (idx : Int) (s : State) :
    (removeClient idx s).subs = dropClient (s.clients idx).fd s.subs := rfl

/-! ## The history -/

/-- The pairs of a descriptor and a pattern after one event. -/
def record (pairs : Finset (Nat × Bytes)) : Op → Finset (Nat × Bytes)
  | .connect _ => pairs
  | .line fd text =>
    match request text with
    | .sub topic => insert (fd, topic) pairs
    | .unsub topic => pairs.erase (fd, topic)
    | _ => pairs
  | .remove fd => pairs.filter (·.1 ≠ fd)

def pairsAfter (ops : List Op) : Finset (Nat × Bytes) := ops.foldl record ∅

/-- The topic an event subscribes to. -/
def Op.subscribes : Op → Option Bytes
  | .line _ text =>
    match request text with
    | .sub topic => some topic
    | _ => none
  | _ => none

/-- The table represents the pairs, which are of connected clients and of topics seen so far. -/
structure Tracks (s : Session) (pairs : Finset (Nat × Bytes)) (seen : List Bytes) : Prop where
  represents : Represents s.subs pairs
  nodup : s.connected.Nodup
  few : s.connected.length ≤ maxClients
  connected : ∀ fd topic, (fd, topic) ∈ pairs → fd ∈ s.connected
  seen : ∀ topic ∈ s.subs.map Sub.topic, topic ∈ seen

section Step

variable {s s' : Session} {pairs : Finset (Nat × Bytes)} {seen : List Bytes} {fd : Nat}

theorem Tracks.init : Tracks { connected := [], subs := [] } ∅ [] where
  represents := Represents.nil
  nodup := List.nodup_nil
  few := Nat.zero_le _
  connected := by simp
  seen := by simp

/-- A connected client that is not in an entry leaves room there. -/
theorem Tracks.roomFor (h : Tracks s pairs seen) (hfd : fd ∈ s.connected) :
    RoomFor fd s.subs := by
  refine roomFor_of_connected hfd h.few h.represents.ids ?_
  intro e he x hx
  exact h.connected x e.topic ((h.represents.mem_ids he x).mp hx)

theorem Tracks.connect (h : Tracks s pairs seen) (hnew : fd ∉ s.connected)
    (hroom : s.connected.length < maxClients) :
    Tracks { s with connected := s.connected ++ [fd] } pairs seen where
  represents := h.represents
  nodup := h.nodup.append (List.nodup_singleton fd) (by simpa using hnew)
  few := by simpa using hroom
  connected := fun fd' topic hp => List.mem_append_left _ (h.connected fd' topic hp)
  seen := h.seen

theorem Tracks.remove (h : Tracks s pairs seen) (fd : Nat) :
    Tracks { connected := s.connected.filter (· ≠ fd), subs := dropClient fd s.subs }
      (pairs.filter (·.1 ≠ fd)) seen where
  represents := h.represents.dropClient fd
  nodup := h.nodup.filter _
  few := (List.length_filter_le _ _).trans h.few
  connected := by
    intro fd' topic hp
    obtain ⟨hp, hne⟩ := Finset.mem_filter.mp hp
    exact List.mem_filter.mpr ⟨h.connected fd' topic hp, by simpa using hne⟩
  seen := by
    rw [dropClient_topics]
    exact h.seen

theorem Tracks.subscribe (h : Tracks s pairs seen) (hfd : fd ∈ s.connected) {topic : Bytes}
    (hlen : topic.length ≤ 127) (hfew : (topic :: seen).toFinset.card ≤ maxSubs) :
    Tracks { s with subs := subscribe fd topic s.subs } (insert (fd, topic) pairs)
      (topic :: seen) where
  represents := by
    refine h.represents.subscribe (h.roomFor hfd) hlen ?_
    intro hnew
    have hnodup : (topic :: s.subs.map Sub.topic).Nodup :=
      List.nodup_cons.mpr ⟨hnew, h.represents.topics⟩
    have hsub : (topic :: s.subs.map Sub.topic).toFinset ⊆ (topic :: seen).toFinset := by
      intro t ht
      rw [List.mem_toFinset, List.mem_cons] at ht ⊢
      exact ht.imp_right (h.seen t)
    have hle := Finset.card_le_card hsub
    rw [List.toFinset_card_of_nodup hnodup, List.length_cons, List.length_map] at hle
    omega
  nodup := h.nodup
  few := h.few
  connected := by
    intro fd' topic' hp
    rcases Finset.mem_insert.mp hp with he | hp
    · cases he
      exact hfd
    · exact h.connected fd' topic' hp
  seen := by
    intro t ht
    rcases subscribe_topics hlen t ht with ht | rfl
    · exact List.mem_cons_of_mem _ (h.seen t ht)
    · exact List.mem_cons_self

theorem Tracks.unsubscribe (h : Tracks s pairs seen) (fd : Nat) (topic : Bytes) :
    Tracks { s with subs := unsubscribe fd topic s.subs } (pairs.erase (fd, topic)) seen where
  represents := h.represents.unsubscribe fd topic
  nodup := h.nodup
  few := h.few
  connected := fun fd' topic' hp => h.connected fd' topic' (Finset.mem_of_mem_erase hp)
  seen := by
    have htopics : (Busd.unsubscribe fd topic s.subs).map Sub.topic = s.subs.map Sub.topic :=
      updateSub_topics (fun _ => rfl)
    rw [htopics]
    exact h.seen

theorem Tracks.step (h : Tracks s pairs seen) {op : Op} (hs : s.step op = some s')
    (hlen : ∀ topic ∈ op.subscribes, topic.length ≤ 127)
    (hfew : (op.subscribes.toList ++ seen).toFinset.card ≤ maxSubs) :
    Tracks s' (record pairs op) (op.subscribes.toList ++ seen) := by
  cases op with
  | connect fd =>
    simp only [Session.step] at hs
    split_ifs at hs with hc
    cases hs
    exact h.connect hc.1 hc.2
  | remove fd =>
    simp only [Session.step] at hs
    split_ifs at hs with hc
    cases hs
    exact h.remove fd
  | line fd text =>
    simp only [Session.step, handleLine_eq] at hs
    split_ifs at hs with hc
    cases hs
    simp only [Op.subscribes, record] at hlen hfew ⊢
    cases hreq : request text with
    | pub topic rest payload => simpa [hreq] using h
    | ping => simpa [hreq] using h
    | none => simpa [hreq] using h
    | unsub topic => simpa [hreq] using h.unsubscribe fd topic
    | sub topic =>
      rw [hreq] at hlen hfew
      exact h.subscribe hc (hlen topic rfl) hfew

theorem Tracks.run (h : Tracks s pairs seen) {ops : List Op}
    (hrun : run Session.step s ops = some s')
    (hlen : ∀ op ∈ ops, ∀ topic ∈ op.subscribes, topic.length ≤ 127)
    (hfew : (ops.filterMap Op.subscribes ++ seen).toFinset.card ≤ maxSubs) :
    ∃ seen', Tracks s' (ops.foldl record pairs) seen' := by
  induction ops generalizing s pairs seen with
  | nil =>
    cases hrun
    exact ⟨seen, h⟩
  | cons op ops ih =>
    obtain ⟨s₁, hs, hr⟩ := run_cons_eq_some.mp hrun
    have hsplit : (ops.filterMap Op.subscribes ++ (op.subscribes.toList ++ seen)).toFinset =
        ((op :: ops).filterMap Op.subscribes ++ seen).toFinset := by
      ext t
      cases hsub : op.subscribes <;> simp [hsub]
    rw [← hsplit] at hfew
    have hfirst : (op.subscribes.toList ++ seen).toFinset.card ≤ maxSubs := by
      refine (Finset.card_le_card ?_).trans hfew
      intro t ht
      rw [List.mem_toFinset] at ht ⊢
      exact List.mem_append_right _ ht
    have h₁ := h.step hs (hlen op List.mem_cons_self) hfirst
    exact ih h₁ hr (fun op' h' => hlen op' (List.mem_cons_of_mem op h')) hfew

end Step

/-- **The table is the history, and publishing follows it.** After every session whose topics have
at most 127 bytes and are at most 256, the table represents the pairs of the history, a descriptor
that is not connected has none, and a publication sends every other descriptor one copy per pattern
of its own that matches, unless its payload is blank or its line does not fit the buffer. -/
theorem table_represents (ops : List Op) (s : Session)
    (hrun : run Session.step { connected := [], subs := [] } ops = some s)
    (hlen : ∀ op ∈ ops, ∀ topic ∈ op.subscribes, topic.length ≤ 127)
    (hfew : (ops.filterMap Op.subscribes).toFinset.card ≤ maxSubs) :
    Represents s.subs (pairsAfter ops) ∧
      (∀ fd topic, fd ∉ s.connected → (fd, topic) ∉ pairsAfter ops) ∧
      ∀ sender line topic rest payload, request line = .pub topic rest payload →
        ∀ fd, (handleLine sender line s.subs).2.filter (fun m => m.fd = fd) =
          List.replicate
            (if fd = sender ∨ Blank rest ∨ bufferSize ≤ (pubLine topic payload).length then 0
              else copies (pairsAfter ops) fd topic)
            { fd := fd, msg := pubLine topic payload } := by
  obtain ⟨seen, h⟩ := Tracks.init.run hrun hlen (by simpa using hfew)
  refine ⟨h.represents, fun fd topic hfd hp => hfd (h.connected fd topic hp), ?_⟩
  intro sender line topic rest payload hreq fd
  rw [handleLine_eq, hreq]
  by_cases hb : Blank rest
  · simp [hb]
  · simp only [hb, if_false, false_or]
    exact h.represents.publish_filter sender fd topic payload

/-! ## Two sessions -/

def twoClients : List Op :=
  [.connect 5, .connect 6, .line 6 (ascii "SUB led/#"), .line 6 (ascii "SUB led/cmd"),
    .line 5 (ascii "SUB led/cmd"), .remove 5, .connect 5]

theorem two_copies :
    ∃ s, run Session.step { connected := [], subs := [] } twoClients = some s ∧
      (handleLine 5 (ascii "PUB led/cmd on") s.subs).2.filter (fun m => m.fd = 6) =
        List.replicate 2 { fd := 6, msg := ascii "PUB led/cmd on\n" } := by
  obtain ⟨s, hs⟩ : ∃ s, run Session.step { connected := [], subs := [] } twoClients = some s :=
    ⟨_, rfl⟩
  obtain ⟨-, -, hpub⟩ := table_represents twoClients s hs (by decide) (by decide)
  have h := hpub 5 (ascii "PUB led/cmd on") (ascii "led/cmd") (ascii " on") (ascii "on") rfl 6
  rw [if_neg (by decide)] at h
  exact ⟨s, hs, h⟩

/-- A client is subscribed to `a`, and a publication of `a` with nothing behind it is not sent. -/
theorem blank_not_sent :
    ∃ s, run Session.step { connected := [], subs := [] }
        [.connect 5, .connect 6, .line 6 (ascii "SUB a")] = some s ∧
      (6, ascii "a") ∈ pairsAfter [.connect 5, .connect 6, .line 6 (ascii "SUB a")] ∧
      handleLine 5 (ascii "PUB a ") s.subs = (s.subs, []) :=
  ⟨_, rfl, by decide, by decide⟩

end Busd
end BuildingBlocks
