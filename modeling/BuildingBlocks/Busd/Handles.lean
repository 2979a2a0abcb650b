import BuildingBlocks.Busd.Client

/-!
# BuildingBlocks.Busd.Handles

The handles of one process. `bb_bus_poll` keeps its line buffer in static variables, which outlive
connections and are shared by all handles.

* `Process` holds the handles, the buffer and, for each connection, the bytes received on it and
  the calls made for it; a connection is numbered by the `bb_bus_connect` that opened it.
* `Clean` is the condition: no fragment of another connection is in the buffer when bytes arrive.
* `handles_apart` — in runs that meet it, the calls of a connection depend only on its bytes.
-/

namespace BuildingBlocks
namespace Busd

open Lib

/-! ## The code -/

/-- `handles h` is the connection of handle `h`, `none` when its descriptor is -1; `last` is the
connection `recv` last gave bytes of. -/
structure Process where
  handles : Nat → Option Nat
  opened : Nat
  buf : Bytes
  last : Option Nat
  received : Nat → Bytes
  calls : List (Nat × Call)

inductive Use where
  /-- `bb_bus_connect`, and `bb_bus_set_handler` behind it. -/
  | connect (h : Nat) (ok : Bool)
  /-- `bb_bus_poll`; no bytes where `select` or `recv` gives nothing. -/
  | poll (h : Nat) (bytes : Bytes)
  | close (h : Nat)
deriving DecidableEq, Repr

def Process.init : Process where
  handles := fun _ => none
  opened := 0
  buf := []
  last := none
  received := fun _ => []
  calls := []

/-- Bytes for connection `c`: into the one buffer, and the calls go to the handler of `c`. -/
def Process.recv (s : Process) (c : Nat) (bytes : Bytes) : Process :=
  { s with
    buf := (poll s.buf bytes).1
    last := some c
    received := Function.update s.received c (s.received c ++ bytes)
    calls := s.calls ++ (poll s.buf bytes).2.1.map (fun call => (c, call)) }

def Process.step (s : Process) : Use → Option Process
  | .connect h true =>
    some { s with handles := Function.update s.handles h (some s.opened), opened := s.opened + 1 }
  | .connect h false => some { s with handles := Function.update s.handles h none }
  | .poll h bytes =>
    match s.handles h with
    | none => if bytes = [] then some s else none
    | some c =>
      if bytes = [] then some s
      else if bytes.length ≤ pollSpace s.buf then some (s.recv c bytes)
      else none
  | .close h => some { s with handles := Function.update s.handles h none }

/-! ## The condition -/

/-- Where bytes arrive, the buffer is empty or holds a fragment of the same connection. -/
def Clean (s : Process) : Use → Prop
  | .poll h bytes => bytes ≠ [] → s.buf = [] ∨ s.last = s.handles h
  | .connect _ _ => True
  | .close _ => True

instance (s : Process) (u : Use) : Decidable (Clean s u) :=
  match u with
  | .poll _ _ => inferInstanceAs (Decidable (_ → _ ∨ _))
  | .connect _ _ => .isTrue trivial
  | .close _ => .isTrue trivial

/-! ## The calls of a connection -/

/-- The calls made for a connection. -/
def Process.callsOf (s : Process) (c : Nat) : List Call :=
  (s.calls.filter (·.1 = c)).map (·.2)

/-- Every connection was decoded on its own: its fragment is in the buffer when it was the last to
receive, and it has none otherwise. -/
structure Apart (s : Process) : Prop where
  calls : ∀ c, s.callsOf c = decode (s.received c)
  held : ∀ c, s.last = some c → s.buf = (lines (s.received c)).2
  others : ∀ c, s.last ≠ some c → (lines (s.received c)).2 = []
  fresh : s.last = none → s.buf = []

section Apart

variable {s s' : Process} {c : Nat} {bytes : Bytes} {u : Use}

theorem apart_init : Apart Process.init where
  calls := fun _ => rfl
  held := fun _ h => nomatch h
  others := fun _ _ => rfl
  fresh := fun _ => rfl

/-- With no fragment of another connection in it, the buffer is what the connection left. -/
theorem Apart.buf_eq (h : Apart s) (hclean : s.buf = [] ∨ s.last = some c) :
    s.buf = (lines (s.received c)).2 := by
  by_cases hlast : s.last = some c
  · exact h.held c hlast
  · rw [h.others c hlast]
    exact hclean.resolve_right hlast

theorem callsOf_recv_self (s : Process) (c : Nat) (bytes : Bytes) :
    (s.recv c bytes).callsOf c = s.callsOf c ++ (poll s.buf bytes).2.1 := by
  simp [Process.recv, Process.callsOf, List.filter_map, Function.comp_def]

theorem callsOf_recv_ne {c' : Nat} (hne : c ≠ c') (s : Process) (bytes : Bytes) :
    (s.recv c bytes).callsOf c' = s.callsOf c' := by
  simp [Process.recv, Process.callsOf, List.filter_map, Function.comp_def, hne]

theorem Apart.recv (h : Apart s) (hclean : s.buf = [] ∨ s.last = some c) (hne : bytes ≠ []) :
    Apart (s.recv c bytes) := by
  have hbuf := h.buf_eq hclean
  obtain ⟨hrest, hdecode⟩ := poll_stream hne (s.received c)
  rw [← hbuf] at hrest hdecode
  refine ⟨?_, ?_, ?_, ?_⟩
  · intro c'
    by_cases hc : c = c'
    · subst hc
      rw [callsOf_recv_self, h.calls]
      simp only [Process.recv, Function.update_self, hdecode]
    · rw [callsOf_recv_ne hc, h.calls]
      simp only [Process.recv, Function.update_of_ne (Ne.symm hc)]
  · intro c' hlast
    obtain rfl : c = c' := Option.some.inj hlast
    simp only [Process.recv, Function.update_self, hrest]
  · intro c' hlast
    have hc : c' ≠ c := by
      rintro rfl
      exact hlast rfl
    simp only [Process.recv, Function.update_of_ne hc]
    by_cases hold : s.last = some c'
    · rcases hclean with hempty | hsame
      · rw [← h.held c' hold, hempty]
      · rw [hold] at hsame
        exact absurd (Option.some.inj hsame) hc
    · exact h.others c' hold
  · intro hlast
    exact nomatch hlast

theorem Apart.step (h : Apart s) (hclean : Clean s u) (hs : s.step u = some s') : Apart s' := by
  cases u with
  | connect k ok =>
    cases ok <;> (cases hs; exact ⟨h.calls, h.held, h.others, h.fresh⟩)
  | close k =>
    cases hs
    exact ⟨h.calls, h.held, h.others, h.fresh⟩
  | poll k bytes =>
    simp only [Process.step] at hs
    split at hs
    · split_ifs at hs
      cases hs
      exact h
    · rename_i c hconn
      split_ifs at hs with hempty hroom
      · cases hs
        exact h
      · cases hs
        have hb := hclean hempty
        rw [hconn] at hb
        exact h.recv hb hempty

theorem Apart.steps {us : List Use} (hclean : Meets Process.step Clean Process.init us)
    (hrun : run Process.step Process.init us = some s) : Apart s :=
  run_invariant_of_meets (fun _ _ _ h hc hs => h.step hc hs) apart_init hclean hrun

end Apart

/-- **Connections stay apart while no fragment is left over.** In runs where bytes only arrive
while the buffer is empty or holds a fragment of the same connection, connections that received
the same bytes made the same calls, those the bytes decode to, whatever else the process did. -/
theorem handles_apart (us us' : List Use) (s s' : Process)
    (hclean : Meets Process.step Clean Process.init us)
    (hclean' : Meets Process.step Clean Process.init us')
    (hrun : run Process.step Process.init us = some s)
    (hrun' : run Process.step Process.init us' = some s') :
    ∀ c c', s.received c = s'.received c' →
      s.callsOf c = s'.callsOf c' ∧ s.callsOf c = decode (s.received c) := by
  intro c c' hsame
  have h := (Apart.steps hclean hrun).calls c
  have h' := (Apart.steps hclean' hrun').calls c'
  refine ⟨?_, h⟩
  rw [h, h', hsame]

/-- One handle, connected, polled for a line in two parts, and closed. -/
def once : List Use :=
  [.connect 0 true, .poll 0 (ascii "PUB a"), .poll 0 (ascii " x\n"), .close 0]

/-- The same line in one part, on the second of two connections. -/
def second : List Use :=
  [.connect 0 true, .poll 0 (ascii "PONG\n"), .connect 1 true, .poll 1 (ascii "PUB a x\n")]

theorem once_second :
    ∃ s s', run Process.step Process.init once = some s ∧
      run Process.step Process.init second = some s' ∧ s.callsOf 0 = s'.callsOf 1 := by
  obtain ⟨s, hs, hreceived⟩ : ∃ s, run Process.step Process.init once = some s ∧
    s.received 0 = ascii "PUB a x\n" := ⟨_, rfl, rfl⟩
  obtain ⟨s', hs', hreceived'⟩ : ∃ s, run Process.step Process.init second = some s ∧
    s.received 1 = ascii "PUB a x\n" := ⟨_, rfl, rfl⟩
  have hsame : s.received 0 = s'.received 1 := by rw [hreceived, hreceived']
  exact ⟨s, s', hs, hs',
    (handles_apart once second s s' (by decide) (by decide) hs hs' 0 1 hsame).1⟩

/-- A handle closed in the middle of a line and connected again. -/
def reconnected : List Use :=
  [.connect 0 true, .poll 0 (ascii "PUB a x"), .close 0, .connect 0 true,
    .poll 0 (ascii "PUB b y\n")]

/-- The second connection of one process and the first of another receive the same line, and make
different calls. -/
theorem fragment_mixes :
    ∃ s s', run Process.step Process.init reconnected = some s ∧
      run Process.step Process.init [.connect 0 true, .poll 0 (ascii "PUB b y\n")] = some s' ∧
      s.received 1 = s'.received 0 ∧ s.callsOf 1 = [(ascii "a", ascii "xPUB b y")] ∧
      s'.callsOf 0 = [(ascii "b", ascii "y")] :=
  ⟨_, _, rfl, rfl, rfl, rfl, rfl⟩

end Busd
end BuildingBlocks
