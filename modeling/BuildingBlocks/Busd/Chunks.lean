import BuildingBlocks.Busd.Client
import BuildingBlocks.Busd.Daemon

/-!
# BuildingBlocks.Busd.Chunks

The receive loops of the daemon and of the client as receivers of `Lib.Framing`.

* `recvStep` is a `recv` of the event loop for one record, `handleCalls` the calls of `handle_line`
  a run of them makes; `run_serve` ties these calls to the table and to what is sent.
* `pollStep` is a `bb_bus_poll` with the lines it examines.
* `chunks_irrelevant` — both loops see the lines of the stream, however it is cut, and always have
  room for more.
-/

namespace BuildingBlocks
namespace Busd

open Lib

/-! ## The daemon -/

/-- A `recv` for the record `r.1` that gives the bytes `r.2`. -/
def recvStep (s : State) (r : Int × Bytes) : Option State :=
  if 0 < r.2.length ∧ r.2.length ≤ avail (s.clients r.1) then some (receive r.1 r.2 s) else none

/-- The lines handed to `handle_line` behind one `recv`. -/
def handed (s : State) (r : Int × Bytes) : List Bytes := (lines ((s.clients r.1).buf ++ r.2)).1

/-- The calls of `handle_line` in a run, each with the record it is made for. -/
def handleCalls : State → List (Int × Bytes) → List (Int × Bytes)
  | _, [] => []
  | s, r :: rs => (handed s r).map (fun line => (r.1, line)) ++ handleCalls (receive r.1 r.2 s) rs

/-- `handle_line` called for each line in order. -/
def serve (fds : Int → Nat) : List (Int × Bytes) → List Sub × List Sent → List Sub × List Sent
  | [], t => t
  | (idx, line) :: calls, (subs, sent) =>
    let (subs, out) := handleLine (fds idx) line subs
    serve fds calls (subs, sent ++ out)

/-- What is received for one record. -/
def chunksOf (idx : Int) (rs : List (Int × Bytes)) : List Bytes :=
  (rs.filter (·.1 = idx)).map (·.2)

/-- The lines handed over for one record. -/
def linesOf (idx : Int) (calls : List (Int × Bytes)) : List Bytes :=
  (calls.filter (·.1 = idx)).map (·.2)

section Daemon

variable {s s' : State} {rs : List (Int × Bytes)} {idx : Int}

theorem serve_append (fds : Int → Nat) (xs ys : List (Int × Bytes)) (t : List Sub × List Sent) :
    serve fds (xs ++ ys) t = serve fds ys (serve fds xs t) := by
  induction xs generalizing t with
  | nil => rfl
  | cons x xs ih =>
    rw [List.cons_append, serve, serve]
    exact ih _

theorem serve_lines (fds : Int → Nat) (idx : Int) (ls : List Bytes) (subs : List Sub)
    (sent : List Sent) :
    serve fds (ls.map (fun line => (idx, line))) (subs, sent) =
      ((handleLines (fds idx) ls subs).1, sent ++ (handleLines (fds idx) ls subs).2) := by
  induction ls generalizing subs sent with
  | nil => rw [List.map_nil, serve, handleLines, List.append_nil]
  | cons line ls ih =>
    rw [List.map_cons, serve, handleLines]
    simp only
    rw [ih, List.append_assoc]

theorem receive_serve (s : State) (r : Int × Bytes) :
    ((receive r.1 r.2 s).subs, (receive r.1 r.2 s).sent) =
      serve (fun i => (s.clients i).fd) ((handed s r).map (fun line => (r.1, line)))
        (s.subs, s.sent) := by
  rw [serve_lines]
  rfl

theorem receive_clients (s : State) (r : Int × Bytes) :
    (receive r.1 r.2 s).clients = Function.update s.clients r.1
      { s.clients r.1 with buf := (lines ((s.clients r.1).buf ++ r.2)).2 } := rfl

theorem receive_fds (s : State) (r : Int × Bytes) :
    (fun i => ((receive r.1 r.2 s).clients i).fd) = fun i => (s.clients i).fd := by
  funext i
  rw [receive_clients]
  by_cases hi : i = r.1
  · subst hi
    simp
  · rw [Function.update_of_ne hi]

theorem recvStep_eq_some {r : Int × Bytes} (h : recvStep s r = some s') :
    0 < r.2.length ∧ r.2.length ≤ avail (s.clients r.1) ∧ s' = receive r.1 r.2 s := by
  unfold recvStep at h
  split_ifs at h with hc
  exact ⟨hc.1, hc.2, (Option.some.inj h).symm⟩

/-- A run does what `handle_line` does for the lines it is called with. -/
theorem run_serve (hrun : run recvStep s rs = some s') :
    (s'.subs, s'.sent) =
      serve (fun i => (s.clients i).fd) (handleCalls s rs) (s.subs, s.sent) := by
  induction rs generalizing s with
  | nil =>
    cases hrun
    rfl
  | cons r rs ih =>
    obtain ⟨s₁, hs, hr⟩ := run_cons_eq_some.mp hrun
    obtain ⟨-, -, rfl⟩ := recvStep_eq_some hs
    rw [ih hr, handleCalls, serve_append, ← receive_serve, receive_fds]

/-- One record in a run is a receiver with room for all but the last byte of its buffer. -/
theorem recv_receiver (hs : List Bytes) (hbuf : 0 ∉ (s.clients idx).buf)
    (h0 : 0 ∉ (chunksOf idx rs).flatten) (hrun : run recvStep s rs = some s') :
    run (Receiver.recv 0x0a (bufferSize - 1)) { handed := hs, held := (s.clients idx).buf }
        (chunksOf idx rs) =
      some { handed := hs ++ linesOf idx (handleCalls s rs), held := (s'.clients idx).buf } := by
  induction rs generalizing s hs with
  | nil =>
    cases hrun
    simp [chunksOf, linesOf, handleCalls]
  | cons r rs ih =>
    obtain ⟨i, bytes⟩ := r
    obtain ⟨s₁, hstep, hr⟩ := run_cons_eq_some.mp hrun
    obtain ⟨hpos, hroom, rfl⟩ := recvStep_eq_some hstep
    by_cases hi : i = idx
    · subst hi
      have hchunks : chunksOf i ((i, bytes) :: rs) = bytes :: chunksOf i rs := by
        simp [chunksOf]
      rw [hchunks, List.flatten_cons, List.mem_append, not_or] at h0
      have htext : 0 ∉ (s.clients i).buf ++ bytes := by
        rw [List.mem_append, not_or]
        exact ⟨hbuf, h0.1⟩
      have hcut := lines_eq_cut htext
      have hclient : ((receive i bytes s).clients i).buf =
          (cut 0x0a ((s.clients i).buf ++ bytes)).2 := by
        rw [receive_clients s (i, bytes), Function.update_self]
        exact congrArg Prod.snd hcut
      have hrest : 0 ∉ ((receive i bytes s).clients i).buf := by
        rw [hclient]
        exact fun hmem => htext (mem_of_mem_rest hmem)
      have hlines : linesOf i (handleCalls s ((i, bytes) :: rs)) =
          (cut 0x0a ((s.clients i).buf ++ bytes)).1 ++
            linesOf i (handleCalls (receive i bytes s) rs) := by
        simp [handleCalls, linesOf, handed, hcut, List.filter_map, Function.comp_def]
      have hle : bytes.length ≤ bufferSize - 1 - (s.clients i).buf.length := by
        simp only [avail] at hroom
        omega
      rw [hchunks, run, Receiver.recv_eq hpos hle]
      simp only
      rw [← hclient, ih _ hrest h0.2 hr, hlines, List.append_assoc]
    · have hchunks : chunksOf idx ((i, bytes) :: rs) = chunksOf idx rs := by
        simp [chunksOf, hi]
      have hclient : (receive i bytes s).clients idx = s.clients idx := by
        rw [receive_clients s (i, bytes), Function.update_of_ne (Ne.symm hi)]
      have hlines : linesOf idx (handleCalls s ((i, bytes) :: rs)) =
          linesOf idx (handleCalls (receive i bytes s) rs) := by
        simp [handleCalls, linesOf, List.filter_map, Function.comp_def, hi]
      rw [hchunks] at h0 ⊢
      rw [hlines, ← ih hs (by rwa [hclient]) h0 hr, hclient]

end Daemon

/-! ## The client -/

/-- A connection polled from its start: the buffer, the lines examined and the calls made. -/
structure Polled where
  buf : Bytes
  examined : List Bytes
  calls : List Call
deriving DecidableEq, Repr

def Polled.init : Polled := { buf := [], examined := [], calls := [] }

/-- A `bb_bus_poll` whose `recv` gives bytes. -/
def pollStep (s : Polled) (received : Bytes) : Option Polled :=
  if 0 < received.length ∧ received.length ≤ pollSpace s.buf then
    some
      { buf := (poll s.buf received).1
        examined := s.examined ++ (lines (s.buf ++ received)).1
        calls := s.calls ++ (poll s.buf received).2.1 }
  else none

theorem poll_receiver {s s' : Polled} {chunks : List Bytes} (hbuf : 0 ∉ s.buf)
    (h0 : 0 ∉ chunks.flatten) (hcalls : s.calls = s.examined.filterMap pollLine)
    (hrun : run pollStep s chunks = some s') :
    run (Receiver.recv 0x0a (maxLine - 1)) { handed := s.examined, held := s.buf } chunks =
        some { handed := s'.examined, held := s'.buf } ∧
      s'.calls = s'.examined.filterMap pollLine := by
  induction chunks generalizing s with
  | nil =>
    cases hrun
    exact ⟨rfl, hcalls⟩
  | cons chunk chunks ih =>
    obtain ⟨s₁, hstep, hr⟩ := run_cons_eq_some.mp hrun
    unfold pollStep at hstep
    split_ifs at hstep with hc
    cases hstep
    have hne : chunk ≠ [] := List.ne_nil_of_length_pos hc.1
    rw [List.flatten_cons, List.mem_append, not_or] at h0
    have htext : 0 ∉ s.buf ++ chunk := by
      rw [List.mem_append, not_or]
      exact ⟨hbuf, h0.1⟩
    have hcut := lines_eq_cut htext
    have hrest : 0 ∉ (cut 0x0a (s.buf ++ chunk)).2 := fun hmem => htext (mem_of_mem_rest hmem)
    simp only [poll_eq hne, hcut] at hr
    rw [run, Receiver.recv_eq hc.1 hc.2]
    refine ih hrest h0.2 ?_ hr
    simp only [hcalls, List.filterMap_append]

/-! ## Both loops -/

/-- **Framing does not depend on the chunks.** For every stream without a NUL whose lines fit, and
every way it is received in, the daemon calls `handle_line` for exactly the lines of what a client
sent, in order, and the client examines exactly the lines it was sent; the unfinished rest stays in
the buffer, and there is room for more. -/
theorem chunks_irrelevant :
    (∀ (s s' : State) (rs : List (Int × Bytes)) (idx : Int) (more : Bytes),
      (s.clients idx).buf = [] → run recvStep s rs = some s' →
      0 ∉ (chunksOf idx rs).flatten ++ more →
      Fits 0x0a (bufferSize - 1) ((chunksOf idx rs).flatten ++ more) →
      linesOf idx (handleCalls s rs) = (cut 0x0a (chunksOf idx rs).flatten).1 ∧
        (s'.clients idx).buf = (cut 0x0a (chunksOf idx rs).flatten).2 ∧
        (s'.subs, s'.sent) =
          serve (fun i => (s.clients i).fd) (handleCalls s rs) (s.subs, s.sent) ∧
        0 < avail (s'.clients idx)) ∧
    ∀ (s' : Polled) (chunks : List Bytes) (more : Bytes),
      run pollStep Polled.init chunks = some s' → 0 ∉ chunks.flatten ++ more →
      Fits 0x0a (maxLine - 1) (chunks.flatten ++ more) →
      s'.examined = (cut 0x0a chunks.flatten).1 ∧ s'.buf = (cut 0x0a chunks.flatten).2 ∧
        s'.calls = s'.examined.filterMap pollLine ∧ 0 < pollSpace s'.buf := by
  constructor
  · intro s s' rs idx more hbuf hrun h0 hfits
    rw [List.mem_append, not_or] at h0
    have h0buf : 0 ∉ (s.clients idx).buf := by
      rw [hbuf]
      exact List.not_mem_nil
    have hrec := recv_receiver [] h0buf h0.1 hrun
    rw [hbuf] at hrec
    obtain ⟨hhanded, hheld⟩ := recv_run List.not_mem_nil hrec
    have hroom := recv_room hfits hrec
    refine ⟨by simpa using hhanded, by simpa using hheld, run_serve hrun, ?_⟩
    simp only [avail] at hroom ⊢
    omega
  · intro s' chunks more hrun h0 hfits
    rw [List.mem_append, not_or] at h0
    obtain ⟨hrec, hcalls⟩ := poll_receiver (s := Polled.init) (by simp [Polled.init]) h0.1 rfl hrun
    obtain ⟨hhanded, hheld⟩ := recv_run List.not_mem_nil hrec
    exact ⟨hhanded, hheld, hcalls, recv_room hfits hrec⟩

/-- Two lines of one client, the second cut in the middle, on both ends. -/
theorem chunks_two :
    (∃ s', run recvStep (acceptClient (some 5) (init 3))
        [(0, ascii "SUB a\nPI"), (0, ascii "NG\n")] = some s' ∧
      linesOf 0 (handleCalls (acceptClient (some 5) (init 3))
        [(0, ascii "SUB a\nPI"), (0, ascii "NG\n")]) = [ascii "SUB a", ascii "PING"] ∧
      0 < avail (s'.clients 0)) ∧
    ∃ s', run pollStep Polled.init [ascii "PONG\nPUB a", ascii " b\n"] = some s' ∧
      s'.examined = [ascii "PONG", ascii "PUB a b"] := by
  constructor
  · obtain ⟨s', hrun⟩ : ∃ s', run recvStep (acceptClient (some 5) (init 3))
        [(0, ascii "SUB a\nPI"), (0, ascii "NG\n")] = some s' := ⟨_, rfl⟩
    obtain ⟨hlines, -, -, hroom⟩ := chunks_irrelevant.1 (acceptClient (some 5) (init 3)) s'
      [(0, ascii "SUB a\nPI"), (0, ascii "NG\n")] 0 [] rfl hrun (by decide) (by decide)
    refine ⟨s', hrun, ?_, hroom⟩
    rw [hlines]
    rfl
  · obtain ⟨s', hrun⟩ : ∃ s', run pollStep Polled.init [ascii "PONG\nPUB a", ascii " b\n"] =
        some s' := ⟨_, rfl⟩
    obtain ⟨hexamined, -⟩ := chunks_irrelevant.2 s' [ascii "PONG\nPUB a", ascii " b\n"] [] hrun
      (by decide) (by decide)
    exact ⟨s', hrun, hexamined⟩

end Busd
end BuildingBlocks
