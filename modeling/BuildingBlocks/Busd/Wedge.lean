import BuildingBlocks.Busd.Client

/-!
# BuildingBlocks.Busd.Wedge

A connection polled to its end, and the messages that stop it.

* `Inbox` is one connection as its client sees it; a step is one `bb_bus_poll` while bytes are
  queued. Without space `recv` gives nothing, and nothing changes.
* `Serves ms` is the law: no state is reached in which no further line can be dispatched, and every
  message the line buffer can hold is delivered.
* `serves_iff` — the law holds of exactly the lists all of whose messages the line buffer can hold
  with their newline and a NUL.
-/

namespace BuildingBlocks
namespace Busd

open Lib

/-! ## The connection -/

/-- What is queued in the socket, what `bb_bus_poll` has in its buffer, and the calls made. -/
structure Inbox where
  queue : Bytes
  buf : Bytes
  calls : List Call
deriving DecidableEq, Repr

/-- A fresh connection on which the daemon has sent the messages. -/
def inbox (ms : List Message) : Inbox := { queue := wire ms, buf := [], calls := [] }

/-- A `bb_bus_poll` whose `recv` gives `n` of the bytes queued, none only when no space is offered
to it. -/
def inboxStep (s : Inbox) (n : Nat) : Option Inbox :=
  if n ≤ s.queue.length ∧ n ≤ pollSpace s.buf ∧ (n = 0 → pollSpace s.buf = 0) then
    some
      { queue := s.queue.drop n
        buf := (poll s.buf (s.queue.take n)).1
        calls := s.calls ++ (poll s.buf (s.queue.take n)).2.1 }
  else none

/-! ## The law -/

/-- No poll makes another call. -/
def Wedged (s : Inbox) : Prop :=
  ∀ ns s', run inboxStep s ns = some s' → s'.calls = s.calls

/-- The message fits the line buffer, with its newline and a NUL. -/
def Short (m : Message) : Prop := m.line.length + 1 < maxLine

instance (m : Message) : Decidable (Short m) := inferInstanceAs (Decidable (_ < _))

/-- However the messages arrive, the loop is not wedged while bytes are queued, and when all are
read every message that fits was delivered, in order, and nothing that was not sent. -/
def Serves (ms : List Message) : Prop :=
  ∀ ns s, run inboxStep (inbox ms) ns = some s →
    (s.queue ≠ [] → ¬ Wedged s) ∧
      (s.queue = [] → ((ms.filter Short).map Message.call).Sublist s.calls ∧
        s.calls.Sublist (ms.map Message.call))

/-! ## What has been received -/

/-- The part `xs` of the messages has been received: the buffer holds what is unfinished of it. -/
structure Received (ms : List Message) (xs : Bytes) (s : Inbox) : Prop where
  stream : xs ++ s.queue = wire ms
  buf : s.buf = (cut 0x0a xs).2
  calls : s.calls = (cut 0x0a xs).1.filterMap pollLine

section Received

variable {ms pre post : List Message} {m : Message} {xs : Bytes} {s s' : Inbox} {n : Nat}

theorem Received.init (ms : List Message) : Received ms [] (inbox ms) where
  stream := rfl
  buf := rfl
  calls := rfl

theorem Received.notMem (h : Received ms xs s) : 0 ∉ xs := by
  have h0 := notMem_wire ms
  rw [← h.stream, List.mem_append, not_or] at h0
  exact h0.1

theorem inboxStep_eq_some (h : inboxStep s n = some s') :
    n ≤ s.queue.length ∧ n ≤ pollSpace s.buf ∧ (n = 0 → pollSpace s.buf = 0) ∧
      s' =
        { queue := s.queue.drop n
          buf := (poll s.buf (s.queue.take n)).1
          calls := s.calls ++ (poll s.buf (s.queue.take n)).2.1 } := by
  unfold inboxStep at h
  split_ifs at h with hc
  exact ⟨hc.1, hc.2.1, hc.2.2, (Option.some.inj h).symm⟩

theorem Received.step (h : Received ms xs s) (hs : inboxStep s n = some s') :
    Received ms (xs ++ s.queue.take n) s' := by
  obtain ⟨-, -, -, rfl⟩ := inboxStep_eq_some hs
  have hstream : xs ++ s.queue.take n ++ s.queue.drop n = wire ms := by
    rw [List.append_assoc, List.take_append_drop, h.stream]
  have h0 : 0 ∉ xs ++ s.queue.take n := by
    have hall := notMem_wire ms
    rw [← hstream, List.mem_append, not_or] at hall
    exact hall.1
  by_cases hn : s.queue.take n = []
  · rw [hn, List.append_nil]
    rw [hn, List.append_nil] at hstream
    refine ⟨hstream, ?_, ?_⟩
    · simpa [poll] using h.buf
    · simpa [poll] using h.calls
  · have hbuf : s.buf = (lines xs).2 := by rw [h.buf, lines_eq_cut h.notMem]
    have hcalls : s.calls = decode xs := by rw [h.calls, decode, lines_eq_cut h.notMem]
    obtain ⟨hrest, hdecode⟩ := poll_stream hn xs
    refine ⟨hstream, ?_, ?_⟩
    · rw [hbuf, hrest, lines_eq_cut h0]
    · rw [hbuf, hcalls, ← hdecode, decode, lines_eq_cut h0]

theorem Received.steps (h : Received ms xs s) {ns : List Nat} (hr : run inboxStep s ns = some s') :
    ∃ ys, Received ms (xs ++ ys) s' := by
  induction ns generalizing xs s with
  | nil =>
    cases hr
    exact ⟨[], by rwa [List.append_nil]⟩
  | cons n ns ih =>
    obtain ⟨s₁, hs, hr⟩ := run_cons_eq_some.mp hr
    obtain ⟨ys, hys⟩ := ih (h.step hs) hr
    exact ⟨s.queue.take n ++ ys, by rwa [← List.append_assoc]⟩

/-- The lines received are the first of those sent. -/
theorem Received.prefix (h : Received ms xs s) : (cut 0x0a xs).1 <+: ms.map Message.line := by
  have hpre := frames_prefix (d := (0x0a : UInt8)) xs s.queue
  rwa [h.stream, cut_wire] at hpre

/-- While bytes are queued, a message is yet to be delivered. -/
theorem Received.calls_lt (h : Received ms xs s) (hq : s.queue ≠ []) :
    s.calls.length < ms.length := by
  obtain ⟨rest, hrest⟩ := h.prefix
  have hlen : (cut 0x0a xs).1.length + rest.length = ms.length := by
    rw [← List.length_append, hrest, List.length_map]
  have hcalls : s.calls.length ≤ (cut 0x0a xs).1.length := by
    rw [h.calls]
    exact List.length_filterMap_le _ _
  have hne : rest ≠ [] := by
    rintro rfl
    rw [List.append_nil] at hrest
    have htotal := length_cut (d := (0x0a : UInt8)) xs
    have hwire := congrArg List.length h.stream
    rw [hrest] at htotal
    rw [List.length_append, wire] at hwire
    have hpos := List.length_pos_of_ne_nil hq
    omega
  have hpos := List.length_pos_of_ne_nil hne
  omega

theorem Received.done (h : Received ms xs s) (hq : s.queue = []) :
    s.calls = ms.map Message.call := by
  have hxs := h.stream
  rw [hq, List.append_nil] at hxs
  rw [h.calls, hxs, cut_wire, filterMap_lines]

/-! ## Short messages -/

/-- With short messages only there is always space. -/
theorem Received.space (h : Received ms xs s) (hshort : ∀ m ∈ ms, Short m) :
    0 < pollSpace s.buf := by
  have hfits : Fits 0x0a (maxLine - 1) (xs ++ s.queue) := by
    rw [h.stream]
    intro f hf
    rw [pieces, cut_wire] at hf
    rcases List.mem_append.mp hf with hf | hf
    · obtain ⟨m, hm, rfl⟩ := List.mem_map.mp hf
      have hlt := hshort m hm
      unfold Short at hlt
      omega
    · rw [List.mem_singleton.mp hf]
      exact Nat.succ_pos _
  have hlt := hfits.rest_lt
  rw [← h.buf] at hlt
  unfold pollSpace
  omega

/-- One byte at a time, everything is read. -/
theorem Received.drain (h : Received ms xs s) (hshort : ∀ m ∈ ms, Short m) :
    ∃ ns s', run inboxStep s ns = some s' ∧ s'.queue = [] := by
  obtain ⟨ns, s', hr, -, hq⟩ : ∃ ns s', run inboxStep s ns = some s' ∧
      (∃ xs, Received ms xs s') ∧ s'.queue = [] := by
    refine exists_run_of_rank (I := fun s => ∃ xs, Received ms xs s) (fun s => s.queue.length) ?_
      ⟨xs, h⟩
    rintro t ⟨ys, ht⟩ hq
    have hpos := List.length_pos_of_ne_nil hq
    have hspace := ht.space hshort
    obtain ⟨t', hs⟩ : ∃ t', inboxStep t 1 = some t' :=
      ⟨_, if_pos ⟨hpos, hspace, fun h1 => absurd h1 (by decide)⟩⟩
    refine ⟨1, t', hs, ⟨_, ht.step hs⟩, ?_⟩
    obtain ⟨-, -, -, rfl⟩ := inboxStep_eq_some hs
    simp only [List.length_drop]
    omega
  exact ⟨ns, s', hr, hq⟩

theorem serves_of_short (hshort : ∀ m ∈ ms, Short m) : Serves ms := by
  intro ns s hr
  obtain ⟨xs, hrec⟩ := (Received.init ms).steps hr
  refine ⟨?_, ?_⟩
  · intro hq hwedged
    obtain ⟨ns', s', hr', hq'⟩ := hrec.drain hshort
    obtain ⟨ys, hrec'⟩ := hrec.steps hr'
    have hlt := hrec.calls_lt hq
    have hsame := hwedged ns' s' hr'
    rw [hrec'.done hq'] at hsame
    rw [← hsame, List.length_map] at hlt
    exact absurd hlt (lt_irrefl _)
  · intro hq
    rw [hrec.done hq]
    exact ⟨List.filter_sublist.map _, List.Sublist.refl _⟩

/-! ## A long message -/

/-- Without space nothing changes any more. -/
theorem wedged_of_full (h : pollSpace s.buf = 0) : Wedged s := by
  intro ns s' hr
  have hsame : s' = s := by
    refine run_invariant (I := fun t => t = s) ?_ rfl hr
    rintro t n t' rfl hs
    obtain ⟨-, hn, -, rfl⟩ := inboxStep_eq_some hs
    obtain rfl : n = 0 := by omega
    simp [poll]
  rw [hsame]

/-- What is received never reaches the end of a long message. -/
theorem Received.stuck_step (h : Received (pre ++ m :: post) xs s) (hlong : ¬ Short m)
    (hle : xs.length ≤ (wire pre).length + (maxLine - 1)) (hs : inboxStep s n = some s') :
    (xs ++ s.queue.take n).length ≤ (wire pre).length + (maxLine - 1) := by
  obtain ⟨hqueue, hn, -, -⟩ := inboxStep_eq_some hs
  have hwire : wire (pre ++ m :: post) = (wire pre ++ m.line) ++ (0x0a :: wire post) := by
    simp [wire]
  have hxs : xs <+: wire pre ++ m.line := by
    have hleft : xs <+: wire (pre ++ m :: post) := by
      rw [← h.stream]
      exact List.prefix_append _ _
    have hright : wire pre ++ m.line <+: wire (pre ++ m :: post) := by
      rw [hwire]
      exact List.prefix_append _ _
    refine List.prefix_of_prefix_length_le hleft hright ?_
    unfold Short at hlong
    rw [List.length_append]
    omega
  obtain ⟨ys, hys⟩ := hxs
  have hframes := frames_prefix (d := (0x0a : UInt8)) xs ys
  have hcut : cut 0x0a (wire pre ++ m.line) = (pre.map Message.line, m.line) := by
    rw [cut_append, cut_wire, List.nil_append, cut_of_notMem m.notMem_line.2, List.append_nil]
  rw [hys, hcut] at hframes
  have hjoin := length_join_le (d := (0x0a : UInt8)) hframes
  have htotal := length_cut (d := (0x0a : UInt8)) xs
  rw [← h.buf] at htotal
  simp only [pollSpace] at hn
  change _ ≤ (wire pre).length at hjoin
  rw [List.length_append, List.length_take]
  omega

theorem not_serves_of_long (hm : m ∈ ms) (hlong : ¬ Short m) : ¬ Serves ms := by
  intro hserves
  obtain ⟨pre, post, rfl⟩ := List.append_of_mem hm
  obtain ⟨ns, s, hr, ⟨xs, hrec, hle⟩, hend⟩ : ∃ ns s,
      run inboxStep (inbox (pre ++ m :: post)) ns = some s ∧
        (∃ xs, Received (pre ++ m :: post) xs s ∧
          xs.length ≤ (wire pre).length + (maxLine - 1)) ∧
        (s.queue = [] ∨ pollSpace s.buf = 0) := by
    refine exists_run_of_rank (I := fun s => ∃ xs, Received (pre ++ m :: post) xs s ∧
      xs.length ≤ (wire pre).length + (maxLine - 1)) (fun s => s.queue.length) ?_
      ⟨[], Received.init _, Nat.zero_le _⟩
    rintro t ⟨ys, ht, hle⟩ hq
    rw [not_or] at hq
    have hpos := List.length_pos_of_ne_nil hq.1
    obtain ⟨t', hs⟩ : ∃ t', inboxStep t 1 = some t' :=
      ⟨_, if_pos ⟨hpos, Nat.pos_of_ne_zero hq.2, fun h1 => absurd h1 (by decide)⟩⟩
    refine ⟨1, t', hs, ⟨_, ht.step hs, ht.stuck_step hlong hle hs⟩, ?_⟩
    obtain ⟨-, -, -, rfl⟩ := inboxStep_eq_some hs
    simp only [List.length_drop]
    omega
  have hq : s.queue ≠ [] := by
    intro hq
    have hlen := congrArg List.length hrec.stream
    unfold Short at hlong
    rw [hq, List.append_nil] at hlen
    simp only [wire, List.map_append, List.map_cons, join_append, join_cons, List.length_append,
      List.length_cons] at hlen hle
    have hmax : 0 < maxLine := by decide
    omega
  exact (hserves ns s hr).1 hq (wedged_of_full (hend.resolve_left hq))

end Received

/-- **Exactly the messages the line buffer can hold are safe.** The receive loop serves a list of
messages if and only if each of them has at most `BB_MAX_LINE - 1` bytes with its newline. -/
theorem serves_iff (ms : List Message) : Serves ms ↔ ∀ m ∈ ms, m.line.length + 1 < maxLine := by
  constructor
  · intro hserves m hm
    by_contra hlong
    exact not_serves_of_long hm hlong hserves
  · exact serves_of_short

/-- A message of `n` bytes on topic `t`. -/
def filled (n : Nat) : Message where
  topic := ascii "t"
  payload := List.replicate n 0x61
  topic_word := by
    intro b hb
    obtain rfl : b = 0x74 := List.mem_singleton.mp hb
    decide
  payload_line := by
    constructor <;> (intro h; exact absurd (List.eq_of_mem_replicate h) (by decide))

theorem length_filled (n : Nat) : (filled n).line.length = n + 6 := by
  simp [Message.line, filled, ascii]

/-- A line as long as `bb_bus_publish` sends it, from a payload that has no room for more. -/
theorem longest_wedges :
    busPublish (ascii "t") (List.replicate (maxLine - 1) 0x61) =
        pubLine (filled (maxLine - 7)).topic (filled (maxLine - 7)).payload ∧
      ¬ Serves [filled (maxLine - 7)] := by
  have hmax : maxLine - 7 + 6 = maxLine - 1 := rfl
  have hlen := length_filled (maxLine - 7)
  rw [hmax] at hlen
  refine ⟨?_, not_serves_of_long (List.mem_singleton_self _) ?_⟩
  · have htext : ascii "PUB " ++ ascii "t" ++ [0x20] ++ List.replicate (maxLine - 1) 0x61 =
        (filled (maxLine - 7)).line ++ List.replicate 6 0x61 := by
      have hsplit : maxLine - 1 = (maxLine - 7) + 6 := rfl
      rw [hsplit, List.replicate_add, Message.line, List.append_assoc]
      rfl
    rw [busPublish, htext, ← hlen, List.take_left]
    rfl
  · unfold Short
    rw [hlen]
    decide

end Busd
end BuildingBlocks
