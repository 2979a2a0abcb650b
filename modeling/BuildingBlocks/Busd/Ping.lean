import BuildingBlocks.Busd.Client

/-!
# BuildingBlocks.Busd.Ping

A subscribed connection on which `bb_bus_ping` and `bb_bus_poll` take turns. Both read the one
stream on which the daemon sends messages and replies.

* `Link` is the connection; `Turn` has the steps of the daemon and of the client, with the number
  of bytes each `recv` gives.
* `Sound` is the law: messages are delivered once and in order, and no ping fails.
* `Alone` is the condition: the `recv` of a ping gives its reply and nothing else.
-/

namespace BuildingBlocks
namespace Busd

open Lib

/-! ## The code -/

/-- `sent` are the messages published so far, `asked` the pings not yet answered, `waiting` is set
while `bb_bus_ping` is in its `recv`, and `results` are the values it returned. -/
structure Link where
  queue : Bytes
  buf : Bytes
  calls : List Call
  sent : List Message
  asked : Nat
  waiting : Bool
  results : List Int

inductive Turn where
  /-- The daemon sends a message. -/
  | publish (m : Message)
  /-- The daemon answers a `PING`. -/
  | pong
  /-- `bb_bus_ping` up to its `recv`. -/
  | ping
  /-- That `recv` gives `n` bytes, and `bb_bus_ping` returns. -/
  | pingRecv (n : Nat)
  /-- `bb_bus_poll` whose `recv` gives `n` bytes. -/
  | poll (n : Nat)

def Link.init : Link where
  queue := []
  buf := []
  calls := []
  sent := []
  asked := 0
  waiting := false
  results := []

/-- The size of the buffer of `bb_bus_ping`. -/
def pingSize : Nat := 64

def Link.step (s : Link) : Turn → Option Link
  | .publish m =>
    some { s with queue := s.queue ++ pubLine m.topic m.payload, sent := s.sent ++ [m] }
  | .pong =>
    if 0 < s.asked then some { s with queue := s.queue ++ ascii "PONG\n", asked := s.asked - 1 }
    else none
  | .ping => if s.waiting then none else some { s with asked := s.asked + 1, waiting := true }
  | .pingRecv n =>
    if s.waiting ∧ 0 < n ∧ n ≤ s.queue.length ∧ n ≤ pingSize - 1 then
      some
        { s with
          queue := s.queue.drop n
          waiting := false
          results := s.results ++ [pingResult (s.queue.take n)] }
    else none
  | .poll n =>
    if ¬ s.waiting ∧ 0 < n ∧ n ≤ s.queue.length ∧ n ≤ pollSpace s.buf then
      some
        { s with
          queue := s.queue.drop n
          buf := (Busd.poll s.buf (s.queue.take n)).1
          calls := s.calls ++ (Busd.poll s.buf (s.queue.take n)).2.1 }
    else none

/-! ## The law and the condition -/

/-- What was delivered is what was sent, as far as it was read, and every ping returned 0. -/
def Sound (s : Link) : Prop :=
  s.calls <+: s.sent.map Message.call ∧ (s.queue = [] → s.calls = s.sent.map Message.call) ∧
    ∀ r ∈ s.results, r = 0

/-- The `recv` of a ping finds the reply next in the stream, at the start of a line, and gives it
whole and nothing of what is behind it. -/
def Alone (s : Link) : Turn → Prop
  | .pingRecv n => s.buf = [] ∧ (s.queue.take n = ascii "PONG" ∨ s.queue.take n = ascii "PONG\n")
  | .publish _ => True
  | .pong => True
  | .ping => True
  | .poll _ => True

instance (s : Link) (t : Turn) : Decidable (Alone s t) :=
  match t with
  | .pingRecv _ => inferInstanceAs (Decidable (_ ∧ _))
  | .publish _ => .isTrue trivial
  | .pong => .isTrue trivial
  | .ping => .isTrue trivial
  | .poll _ => .isTrue trivial

/-! ## The invariant -/

/-- A line of the stream: a message, a reply, or what is left of a reply without its newline. -/
def OnWire (line : Bytes) : Prop := line = [] ∨ line = ascii "PONG" ∨ ∃ m : Message, line = m.line

/-- What is not yet read, behind the fragment in the buffer, is lines of messages and replies, and
its messages are those not yet delivered. -/
structure Pending (ls : List Bytes) (s : Link) : Prop where
  stream : s.buf ++ s.queue = join 0x0a ls
  onWire : ∀ l ∈ ls, OnWire l
  fragment : 0x0a ∉ s.buf
  calls : s.calls ++ ls.filterMap pollLine = s.sent.map Message.call
  results : ∀ r ∈ s.results, r = 0

section Pending

variable {ls : List Bytes} {s s' : Link} {n : Nat}

theorem OnWire.notMem {l : Bytes} (h : OnWire l) : 0 ∉ l ∧ 0x0a ∉ l := by
  rcases h with rfl | rfl | ⟨m, rfl⟩
  · exact ⟨List.not_mem_nil, List.not_mem_nil⟩
  · decide
  · exact m.notMem_line

theorem notMem_join {ls : List Bytes} (h : ∀ l ∈ ls, OnWire l) : 0 ∉ join 0x0a ls := by
  induction ls with
  | nil => exact List.not_mem_nil
  | cons l ls ih =>
    rw [join_cons, List.mem_append, List.mem_cons, not_or, not_or]
    exact ⟨(h l List.mem_cons_self).notMem.1, by decide,
      ih (fun l' h' => h l' (List.mem_cons_of_mem l h'))⟩

theorem pending_init : Pending [] Link.init where
  stream := rfl
  onWire := fun _ h => absurd h List.not_mem_nil
  fragment := List.not_mem_nil
  calls := rfl
  results := fun _ h => absurd h List.not_mem_nil

theorem Pending.publish (h : Pending ls s) (m : Message) :
    Pending (ls ++ [m.line])
      { s with queue := s.queue ++ pubLine m.topic m.payload, sent := s.sent ++ [m] } where
  stream := by
    rw [join_append, ← h.stream, m.pubLine_eq]
    simp
  onWire := by
    intro l hl
    rcases List.mem_append.mp hl with hl | hl
    · exact h.onWire l hl
    · rw [List.mem_singleton.mp hl]
      exact Or.inr (Or.inr ⟨m, rfl⟩)
  fragment := h.fragment
  calls := by
    rw [List.filterMap_append, ← List.append_assoc, h.calls, List.map_append,
      List.filterMap_cons_some (pollLine_line m)]
    rfl
  results := h.results

theorem Pending.pong (h : Pending ls s) (asked : Nat) :
    Pending (ls ++ [ascii "PONG"])
      { s with queue := s.queue ++ ascii "PONG\n", asked := asked } where
  stream := by
    have hline : ascii "PONG\n" = ascii "PONG" ++ [0x0a] := rfl
    rw [join_append, ← h.stream, hline]
    simp
  onWire := by
    intro l hl
    rcases List.mem_append.mp hl with hl | hl
    · exact h.onWire l hl
    · rw [List.mem_singleton.mp hl]
      exact Or.inr (Or.inl rfl)
  fragment := h.fragment
  calls := by
    have hnone : [ascii "PONG"].filterMap pollLine = [] := rfl
    rw [List.filterMap_append, hnone, List.append_nil]
    exact h.calls
  results := h.results

/-- A poll takes the lines it completes off what is pending. -/
theorem Pending.poll (h : Pending ls s) (hpos : 0 < n) (hle : n ≤ s.queue.length) :
    ∃ ls', Pending ls'
      { s with
        queue := s.queue.drop n
        buf := (Busd.poll s.buf (s.queue.take n)).1
        calls := s.calls ++ (Busd.poll s.buf (s.queue.take n)).2.1 } := by
  have hne : s.queue.take n ≠ [] := by
    refine List.ne_nil_of_length_pos ?_
    rw [List.length_take]
    omega
  have hstream : s.buf ++ s.queue.take n ++ s.queue.drop n = join 0x0a ls := by
    rw [List.append_assoc, List.take_append_drop, h.stream]
  have h0 : 0 ∉ s.buf ++ s.queue.take n := by
    have hall := notMem_join h.onWire
    rw [← hstream, List.mem_append, not_or] at hall
    exact hall.1
  have hcut : cut 0x0a (join 0x0a ls) = (ls, []) := by
    have hlines := cut_join (fun l hl => (h.onWire l hl).notMem.2)
      (List.not_mem_nil (a := (0x0a : UInt8)))
    rwa [List.append_nil] at hlines
  rw [← hstream, cut_append] at hcut
  obtain ⟨hls, hrest⟩ := Prod.mk.inj hcut
  rw [poll_eq hne, lines_eq_cut h0]
  refine ⟨(cut 0x0a ((cut 0x0a (s.buf ++ s.queue.take n)).2 ++ s.queue.drop n)).1, ?_, ?_, ?_, ?_,
    h.results⟩
  · have hjoin := join_cut (d := (0x0a : UInt8))
      ((cut 0x0a (s.buf ++ s.queue.take n)).2 ++ s.queue.drop n)
    rw [hrest, List.append_nil] at hjoin
    exact hjoin.symm
  · intro l hl
    refine h.onWire l ?_
    rw [← hls]
    exact List.mem_append_right _ hl
  · exact notMem_rest _
  · have hcalls := h.calls
    rw [← hls, List.filterMap_append, ← List.append_assoc] at hcalls
    exact hcalls

/-- A line that starts with a reply is one. -/
theorem OnWire.eq_pong {l rest tail : Bytes} (h : OnWire l)
    (hpong : ascii "PONG" ++ tail = l ++ 0x0a :: rest) : l = ascii "PONG" := by
  rcases h with rfl | rfl | ⟨m, rfl⟩
  · exact absurd (List.cons.inj hpong).1 (by decide)
  · rfl
  · have hsecond := (List.cons.inj (List.cons.inj hpong).2).1
    exact absurd hsecond (by decide)

/-- A ping that gets its reply alone leaves the messages as they were. -/
theorem Pending.pingRecv (h : Pending ls s) (halone : Alone s (.pingRecv n)) :
    ∃ ls', Pending ls'
      { s with
        queue := s.queue.drop n
        waiting := false
        results := s.results ++ [pingResult (s.queue.take n)] } := by
  obtain ⟨hbuf, hreply⟩ := halone
  have hstream := h.stream
  rw [hbuf, List.nil_append] at hstream
  obtain ⟨tail, htail⟩ : ∃ tail, s.queue = ascii "PONG" ++ tail := by
    have hq := (List.take_append_drop n s.queue).symm
    rcases hreply with hr | hr <;> rw [hr] at hq
    · exact ⟨_, hq⟩
    · exact ⟨[0x0a] ++ s.queue.drop n, hq⟩
  obtain ⟨ls', rfl⟩ : ∃ ls', ls = ascii "PONG" :: ls' := by
    cases ls with
    | nil =>
      rw [htail] at hstream
      exact nomatch hstream
    | cons l ls' =>
      rw [htail, join_cons] at hstream
      exact ⟨ls', by rw [(h.onWire l List.mem_cons_self).eq_pong hstream]⟩
  have honWire : ∀ l ∈ ls', OnWire l := fun l hl => h.onWire l (List.mem_cons_of_mem _ hl)
  have hcalls : s.calls ++ ls'.filterMap pollLine = s.sent.map Message.call := h.calls
  have hzero : ∀ r ∈ s.results ++ [pingResult (s.queue.take n)], r = 0 := by
    intro r hr
    rcases List.mem_append.mp hr with hr | hr
    · exact h.results r hr
    · rw [List.mem_singleton.mp hr]
      rcases hreply with hr | hr <;> (rw [hr]; rfl)
  have hsplit : s.queue.take n ++ s.queue.drop n = ascii "PONG" ++ 0x0a :: join 0x0a ls' := by
    rw [List.take_append_drop, hstream, join_cons]
  rcases hreply with hr | hr
  · -- the newline stays in the socket as a line of its own
    refine ⟨[] :: ls', ?_, ?_, h.fragment, hcalls, hzero⟩
    · rw [hr] at hsplit
      rw [hbuf, List.nil_append, join_cons, List.nil_append]
      exact List.append_cancel_left hsplit
    · intro l hl
      rcases List.mem_cons.mp hl with rfl | hl
      · exact Or.inl rfl
      · exact honWire l hl
  · refine ⟨ls', ?_, honWire, h.fragment, hcalls, hzero⟩
    have hline : ascii "PONG\n" = ascii "PONG" ++ [0x0a] := rfl
    rw [hr, hline, List.append_assoc] at hsplit
    rw [hbuf, List.nil_append]
    exact (List.cons.inj (List.append_cancel_left hsplit)).2

theorem Pending.step (h : Pending ls s) {t : Turn} (halone : Alone s t) (hs : s.step t = some s') :
    ∃ ls', Pending ls' s' := by
  cases t with
  | publish m =>
    cases hs
    exact ⟨_, h.publish m⟩
  | pong =>
    simp only [Link.step] at hs
    split_ifs at hs
    cases hs
    exact ⟨_, h.pong _⟩
  | ping =>
    simp only [Link.step] at hs
    split_ifs at hs
    cases hs
    exact ⟨ls, h.stream, h.onWire, h.fragment, h.calls, h.results⟩
  | pingRecv n =>
    simp only [Link.step] at hs
    split_ifs at hs
    cases hs
    exact h.pingRecv halone
  | poll n =>
    simp only [Link.step] at hs
    split_ifs at hs with hc
    cases hs
    exact h.poll hc.2.1 hc.2.2.1

theorem Pending.sound (h : Pending ls s) : Sound s := by
  refine ⟨?_, ?_, h.results⟩
  · rw [← h.calls]
    exact List.prefix_append _ _
  · intro hq
    have hstream := h.stream
    rw [hq, List.append_nil] at hstream
    have hls : ls = [] := by
      cases ls with
      | nil => rfl
      | cons l ls =>
        have hfragment := h.fragment
        rw [hstream, join_cons] at hfragment
        exact absurd (List.mem_append_right l List.mem_cons_self) hfragment
    have hcalls := h.calls
    rw [hls] at hcalls
    simpa using hcalls

end Pending

/-- **A ping that gets its reply alone does not disturb the subscription.** In every run in which
the `recv` of each ping gives its reply, whole and without anything behind its newline, every
message is delivered exactly once and in order, and every ping returns 0. -/
theorem ping_sound (ts : List Turn) (s : Link) (halone : Meets Link.step Alone Link.init ts)
    (hrun : run Link.step Link.init ts = some s) : Sound s := by
  obtain ⟨ls, h⟩ := run_invariant_of_meets (I := fun s => ∃ ls, Pending ls s)
    (fun _ _ _ h hc hs => h.elim fun _ hp => hp.step hc hs) ⟨[], pending_init⟩ halone hrun
  exact h.sound

/-! ## Two runs -/

/-- A message on topic `a`. -/
def note : Message where
  topic := ascii "a"
  payload := ascii "x"
  topic_word := by
    intro b hb
    obtain rfl : b = 0x61 := List.mem_singleton.mp hb
    decide
  payload_line := by decide

/-- A ping between two messages, answered before the second is sent. -/
def answered : List Turn :=
  [.publish note, .poll 8, .ping, .pong, .pingRecv 5, .publish note, .poll 3, .poll 5]

theorem answered_sound :
    ∃ s, run Link.step Link.init answered = some s ∧ s.queue = [] ∧ s.results = [0] ∧
      s.calls = [note.call, note.call] := by
  obtain ⟨s, hs, hq, hr, hsent⟩ : ∃ s, run Link.step Link.init answered = some s ∧ s.queue = [] ∧
    s.results = [0] ∧ s.sent = [note, note] := ⟨_, rfl, rfl, rfl, rfl⟩
  have h := (ping_sound answered s (by decide) hs).2.1 hq
  rw [hsent] at h
  exact ⟨s, hs, hq, hr, h⟩

/-- A message is queued in front of the reply: the ping takes both, fails, and the message is not
delivered. -/
theorem ping_takes_message :
    ∃ s, run Link.step Link.init [.publish note, .ping, .pong, .pingRecv 13] = some s ∧
      s.queue = [] ∧ s.calls = [] ∧ s.results = [-1] ∧ ¬ Sound s := by
  refine ⟨_, rfl, rfl, rfl, rfl, ?_⟩
  rintro ⟨-, hall, -⟩
  exact nomatch hall rfl

end Busd
end BuildingBlocks
