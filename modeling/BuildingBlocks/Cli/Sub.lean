import BuildingBlocks.Busd.Chunks
import BuildingBlocks.Cli.Commands

/-!
# BuildingBlocks.Cli.Sub

What `bb-cli sub` prints.

* `subStep` is one pass of the loop of `cmd_sub`: a `recv` into the buffer, the lines that are ended
  printed, the rest moved to the front.
* `sub_iff` — the loop goes on for exactly the streams whose lines fit its buffer, and prints the
  lines that were received whole, however the stream was cut.
* `pub_sub` — what is published while it listens is printed, topic and payload as they were.
-/

namespace BuildingBlocks
namespace Cli

open Busd hiding Bytes init
open Json hiding init
open Lib

/-! ## The code -/

/-- One line: a publication as `[topic] payload`, anything else as it is. -/
def printLine (line : Bytes) : Bytes :=
  if (ascii "PUB ").isPrefixOf line then
    let topic := (line.drop 4).takeWhile (· ≠ 0x20)
    match (line.drop 4).drop topic.length with
    | [] => line ++ [0x0a]
    | _ :: payload => ascii "[" ++ topic ++ ascii "] " ++ payload ++ [0x0a]
  else line ++ [0x0a]

/-- The buffer and what was printed. -/
structure Listener where
  buf : Bytes
  out : Bytes
deriving DecidableEq, Repr

def Listener.init : Listener := { buf := [], out := [] }

/-- The space offered to `recv`; without any it returns zero, which ends the loop. -/
def Listener.space (s : Listener) : Nat := lineSize - 1 - s.buf.length

/-- One pass of the loop, with what `recv` gives. -/
def subStep (s : Listener) (received : Bytes) : Option Listener :=
  if 0 < received.length ∧ received.length ≤ s.space then
    some
      { buf := (lines (s.buf ++ received)).2
        out := s.out ++ (lines (s.buf ++ received)).1.flatMap printLine }
  else none

/-! ## The loop -/

section Loop

variable {s s' : Listener} {chunks : List Bytes} {stream : Bytes}

/-- The loop is a receiver of lines. -/
theorem sub_receiver (handed : List Bytes) (hbuf : 0 ∉ s.buf) (h0 : 0 ∉ chunks.flatten)
    (hout : s.out = handed.flatMap printLine) (hrun : run subStep s chunks = some s') :
    ∃ handed', run (Receiver.recv 0x0a (lineSize - 1)) { handed := handed, held := s.buf } chunks =
        some { handed := handed', held := s'.buf } ∧ s'.out = handed'.flatMap printLine := by
  induction chunks generalizing s handed with
  | nil =>
    cases hrun
    exact ⟨handed, rfl, hout⟩
  | cons chunk chunks ih =>
    obtain ⟨s₁, hstep, hr⟩ := run_cons_eq_some.mp hrun
    unfold subStep at hstep
    split_ifs at hstep with hc
    cases hstep
    rw [List.flatten_cons, List.mem_append, not_or] at h0
    have htext : 0 ∉ s.buf ++ chunk := by
      rw [List.mem_append, not_or]
      exact ⟨hbuf, h0.1⟩
    have hcut := lines_eq_cut htext
    have hrest : 0 ∉ (cut 0x0a (s.buf ++ chunk)).2 := fun hmem => htext (mem_of_mem_rest hmem)
    simp only [hcut] at hr
    rw [run, Receiver.recv_eq hc.1 hc.2]
    refine ih _ hrest h0.2 ?_ hr
    rw [hout, List.flatMap_append]

/-- Every receiver of lines is a run of the loop. -/
theorem receiver_sub {r : Receiver UInt8} (hbuf : 0 ∉ s.buf) (h0 : 0 ∉ chunks.flatten)
    (handed : List Bytes)
    (hrun : run (Receiver.recv 0x0a (lineSize - 1)) { handed := handed, held := s.buf } chunks =
      some r) : ∃ s', run subStep s chunks = some s' := by
  induction chunks generalizing s handed with
  | nil => exact ⟨s, rfl⟩
  | cons chunk chunks ih =>
    obtain ⟨r₁, hstep, hr⟩ := run_cons_eq_some.mp hrun
    unfold Receiver.recv at hstep
    split_ifs at hstep with hc
    cases hstep
    rw [List.flatten_cons, List.mem_append, not_or] at h0
    have htext : 0 ∉ s.buf ++ chunk := by
      rw [List.mem_append, not_or]
      exact ⟨hbuf, h0.1⟩
    have hcut := lines_eq_cut htext
    have hrest : 0 ∉ (cut 0x0a (s.buf ++ chunk)).2 := fun hmem => htext (mem_of_mem_rest hmem)
    have hstep : subStep s chunk =
        some { buf := (cut 0x0a (s.buf ++ chunk)).2
               out := s.out ++ (cut 0x0a (s.buf ++ chunk)).1.flatMap printLine } := by
      have hspace : 0 < chunk.length ∧ chunk.length ≤ s.space := hc
      rw [subStep, if_pos hspace, hcut]
    obtain ⟨s', hs'⟩ := ih (s := { buf := (cut 0x0a (s.buf ++ chunk)).2
                                   out := s.out ++ (cut 0x0a (s.buf ++ chunk)).1.flatMap
                                     printLine }) hrest h0.2 _ hr
    exact ⟨s', run_cons_eq_some.mpr ⟨_, hstep, hs'⟩⟩

/-- What is printed of a stream, and what is left of it in the buffer. -/
theorem sub_run (h0 : 0 ∉ chunks.flatten) (hrun : run subStep .init chunks = some s) :
    s.out = (cut 0x0a chunks.flatten).1.flatMap printLine ∧
      s.buf = (cut 0x0a chunks.flatten).2 := by
  obtain ⟨handed, hr, hout⟩ := sub_receiver [] (s := .init) List.not_mem_nil h0 rfl hrun
  obtain ⟨hhanded, hheld⟩ := recv_run List.not_mem_nil hr
  simp only [Listener.init, List.nil_append] at hhanded hheld
  rw [hout, hhanded]
  exact ⟨rfl, hheld⟩

/-- There is room for the rest of a stream whose lines fit. -/
theorem sub_space_pos {more : Bytes} (h0 : 0 ∉ chunks.flatten)
    (hfits : Lib.Fits 0x0a (lineSize - 1) (chunks.flatten ++ more))
    (hrun : run subStep .init chunks = some s) : 0 < s.space := by
  obtain ⟨handed, hr, -⟩ := sub_receiver [] (s := .init) List.not_mem_nil h0 rfl hrun
  exact recv_room hfits hr

/-- There is room for more exactly when every line fits. -/
theorem sub_space_iff (h0 : 0 ∉ chunks.flatten) (hrun : run subStep .init chunks = some s) :
    0 < s.space ↔ Lib.Fits 0x0a (lineSize - 1) chunks.flatten := by
  constructor
  · intro hspace
    obtain ⟨handed, hr, -⟩ := sub_receiver [] (s := .init) List.not_mem_nil h0 rfl hrun
    have hroom : s.buf.length < lineSize - 1 := by
      unfold Listener.space at hspace
      omega
    exact fits_of_recv_run (s := { handed := [], held := [] }) List.not_mem_nil hr hroom
  · intro hfits
    have hall : Lib.Fits 0x0a (lineSize - 1) (chunks.flatten ++ []) := by rwa [List.append_nil]
    exact sub_space_pos h0 hall hrun

end Loop

/-- **Listening.** For every NUL-free stream: however `recv` cuts it, the loop prints exactly the
lines that have been received whole, in order, and keeps the rest; and it can read the stream and
go on if and only if every line with its newline, the unfinished one too, fits the buffer. -/
theorem sub_iff (stream : Bytes) (h0 : 0 ∉ stream) :
    (∀ chunks s, chunks.flatten = stream → run subStep .init chunks = some s →
        s.out = (cut 0x0a stream).1.flatMap printLine ∧ s.buf = (cut 0x0a stream).2) ∧
      ((∃ chunks s, chunks.flatten = stream ∧ run subStep .init chunks = some s ∧ 0 < s.space) ↔
        Lib.Fits 0x0a (lineSize - 1) stream) := by
  refine ⟨?_, ?_, ?_⟩
  · rintro chunks s rfl hrun
    exact sub_run h0 hrun
  · rintro ⟨chunks, s, rfl, hrun, hroom⟩
    exact (sub_space_iff h0 hrun).mp hroom
  · intro hfits
    have hall : Lib.Fits 0x0a (lineSize - 1) (stream ++ []) := by rwa [List.append_nil]
    obtain ⟨r, hr⟩ := exists_recv_run hall
    have hflat := flatten_singletons stream
    obtain ⟨s, hs⟩ := receiver_sub (s := .init) List.not_mem_nil (by rwa [hflat]) [] hr
    refine ⟨_, s, hflat, hs, (sub_space_iff (by rwa [hflat]) hs).mpr ?_⟩
    rwa [hflat]

/-- Two lines in three pieces: the first one is printed while the second is on its way. -/
theorem sub_iff_pieces :
    ∃ s, run subStep .init [ascii "PUB /a 1", ascii "\nPU", ascii "B /b"] = some s ∧
      s.out = ascii "[/a] 1\n" ∧ s.buf = ascii "PUB /b" := by
  have hread : (run subStep .init
      [ascii "PUB /a 1", ascii "\nPU", ascii "B /b"]).isSome = true := by decide
  obtain ⟨s, hs⟩ := Option.isSome_iff_exists.mp hread
  have hrun := (sub_iff (ascii "PUB /a 1\nPUB /b") (by decide)).1 _ s (by decide) hs
  refine ⟨s, hs, ?_, ?_⟩
  · rw [hrun.1]
    decide
  · rw [hrun.2]
    decide

/-! ## Publications -/

/-- A publication as it is printed. -/
def shown (m : Message) : Bytes :=
  ascii "[" ++ m.topic ++ ascii "] " ++ m.payload ++ [0x0a]

/-- What the daemon with the table `subs` sends to `fd` for publications by `bb-cli pub`, each with
the descriptor of its connection. -/
def relayed (subs : List Sub) (fd : Nat) (ps : List (Nat × Message)) : Bytes :=
  ps.flatMap fun p =>
    bytesTo fd (handleLines p.1 (lines (cmdPub p.2.topic p.2.payload)).1 subs).2

/-- The publications `fd` is to hear: a copy for each of its matching subscriptions. -/
def audible (subs : List Sub) (fd : Nat) (ps : List (Nat × Message)) : List Message :=
  ps.flatMap fun p => if fd = p.1 then [] else
    List.replicate (listing subs fd p.2.topic).length p.2

section Publications

variable {subs : List Sub} {fd : Nat} {ps : List (Nat × Message)}

theorem printLine_line (m : Message) : printLine m.line = shown m := by
  have hdrop : m.line.drop 4 = m.topic ++ 0x20 :: m.payload := by
    simp [Message.line, ascii]
  have htopic : (m.topic ++ 0x20 :: m.payload).takeWhile (fun b => decide (b ≠ 0x20)) =
      m.topic := by
    rw [List.takeWhile_append_of_pos, List.takeWhile_cons_of_neg (by decide), List.append_nil]
    intro b hb
    exact decide_eq_true (m.topic_space b hb).1
  have hpre : (ascii "PUB ").isPrefixOf m.line = true := by
    rw [List.isPrefixOf_iff_prefix, Message.line, List.append_assoc, List.append_assoc]
    exact List.prefix_append _ _
  rw [printLine, if_pos hpre, hdrop]
  simp only [htopic, List.drop_left]
  rfl

/-- One publication is passed on in as many copies as it is to be heard. -/
theorem relayed_one {m : Message} (hm : Publishable m) (hids : ∀ e ∈ subs, e.clientIds.Nodup)
    (sender : Nat) :
    bytesTo fd (handleLines sender (lines (cmdPub m.topic m.payload)).1 subs).2 =
      wire (audible subs fd [(sender, m)]) := by
  have hlines : (lines (m.line ++ [0x0a])).1 = [m.line] := by
    rw [lines_line m.notMem_line.1 m.notMem_line.2]
    rfl
  have hone : (handleLines sender [m.line] subs).2 = (handleLine sender m.line subs).2 := by
    simp [handleLines]
  rw [cmdPub_eq hm, busPublish_eq hm, hlines, hone,
    handleLine_bytesTo (asks_publish hm) hids sender fd, lineCall_line hm]
  simp only [Option.map_some, Option.toList_some, List.flatMap_cons, List.flatMap_nil,
    List.append_nil, audible, Route.copies, wire]
  split_ifs
  · rfl
  · rw [List.map_replicate, List.map_replicate]
    rfl

theorem relayed_eq (hpub : ∀ p ∈ ps, Publishable p.2) (hids : ∀ e ∈ subs, e.clientIds.Nodup) :
    relayed subs fd ps = wire (audible subs fd ps) := by
  induction ps with
  | nil => rfl
  | cons p ps ih =>
    have hrest := ih (fun q hq => hpub q (List.mem_cons_of_mem p hq))
    rw [relayed, List.flatMap_cons, relayed_one (hpub p List.mem_cons_self) hids p.1]
    rw [relayed] at hrest
    rw [hrest, audible, audible, audible, List.flatMap_cons, List.flatMap_cons, List.flatMap_nil,
      List.append_nil, wire, wire, wire, List.map_append, join_append]

theorem audible_publishable (hpub : ∀ p ∈ ps, Publishable p.2) :
    ∀ m ∈ audible subs fd ps, Publishable m := by
  intro m hm
  obtain ⟨p, hp, hmem⟩ := List.mem_flatMap.mp hm
  split_ifs at hmem
  · exact absurd hmem List.not_mem_nil
  · rw [List.eq_of_mem_replicate hmem]
    exact hpub p hp

/-- What can be published fits the buffer of the listener. -/
theorem fits_wire {ms : List Message} (h : ∀ m ∈ ms, Publishable m) :
    Lib.Fits 0x0a (lineSize - 1) (wire ms) := by
  intro f hf
  rw [pieces, cut_wire] at hf
  have hsize : lineSize = 8192 := rfl
  have hmax : maxLine = 4288 := rfl
  rcases List.mem_append.mp hf with hf | hf
  · obtain ⟨m, hm, rfl⟩ := List.mem_map.mp hf
    have hle := (h m hm).length_le
    omega
  · rw [List.mem_singleton.mp hf, List.length_nil]
    omega

end Publications

/-- **Publish and listen.** For every table and all publications by `bb-cli pub` that are
`Publishable` (a topic of 1 to 127 bytes without blanks, and one line of at most 4095 bytes that is
not blank), however the bytes that the daemon passes on to a `bb-cli sub` are cut: at any time the
listener has printed `[topic] payload` for the first so many of the publications it is to hear, in
the order in which the daemon handled them and once for each of its matching subscriptions; there is
room to go on; and when all bytes have arrived it has printed all of them. -/
theorem pub_sub (subs : List Sub) (hids : ∀ e ∈ subs, e.clientIds.Nodup) (fd : Nat)
    (ps : List (Nat × Message)) (hpub : ∀ p ∈ ps, Publishable p.2) (chunks : List Bytes)
    (more : Bytes) (hstream : chunks.flatten ++ more = relayed subs fd ps) (s : Listener)
    (hrun : run subStep .init chunks = some s) :
    (∃ k, s.out = ((audible subs fd ps).take k).flatMap shown) ∧ 0 < s.space ∧
      (more = [] → s.out = (audible subs fd ps).flatMap shown) := by
  rw [relayed_eq hpub hids] at hstream
  have hall : 0 ∉ chunks.flatten ++ more := by
    rw [hstream]
    exact notMem_wire _
  have h0 : 0 ∉ chunks.flatten := fun h => hall (List.mem_append_left _ h)
  have hprint : ∀ ms : List Message,
      (ms.map Message.line).flatMap printLine = ms.flatMap shown := by
    intro ms
    rw [List.flatMap_map]
    exact congrArg (List.flatMap · ms) (funext printLine_line)
  have hpre := frames_prefix (d := (0x0a : UInt8)) chunks.flatten more
  rw [hstream, cut_wire] at hpre
  obtain ⟨k, hk⟩ : ∃ k, (cut 0x0a chunks.flatten).1 =
      ((audible subs fd ps).take k).map Message.line :=
    ⟨_, by rw [List.map_take]; exact List.prefix_iff_eq_take.mp hpre⟩
  have hout := (sub_run h0 hrun).1
  refine ⟨⟨k, ?_⟩, ?_, ?_⟩
  · rw [hout, hk, hprint]
  · have hfits : Lib.Fits 0x0a (lineSize - 1) (wire (audible subs fd ps)) :=
      fits_wire (audible_publishable hpub)
    exact sub_space_pos h0 (by rwa [hstream]) hrun
  · rintro rfl
    rw [List.append_nil] at hstream
    rw [hout, hstream, cut_wire, hprint]

theorem sendable_stop : Sendable (ascii "stop") [] := by decide

/-- `bb-cli led stop`, heard by another `bb-cli sub`. -/
def ledStop : Message := ledMessage sendable_stop

theorem pub_sub_stop :
    ∃ s, run subStep .init [relayed [{ topic := ascii "/dev/#", clientIds := [6] }] 6
        [(5, ledStop)]] = some s ∧
      s.out = ascii "[/dev/bb-led/cmd] \x7b\"cmd\":\"stop\"\x7d\n" := by
  have hread : (run subStep .init [relayed [{ topic := ascii "/dev/#", clientIds := [6] }] 6
      [(5, ledStop)]]).isSome = true := by decide
  obtain ⟨s, hs⟩ := Option.isSome_iff_exists.mp hread
  refine ⟨s, hs, ?_⟩
  have hpub : ∀ p ∈ [(5, ledStop)], Publishable p.2 :=
    List.forall_mem_singleton.mpr (publishable_ledMessage sendable_stop)
  rw [(pub_sub [{ topic := ascii "/dev/#", clientIds := [6] }] (by decide) 6 [(5, ledStop)] hpub
    _ [] (by simp) s hs).2.2 rfl]
  decide

end Cli
end BuildingBlocks
