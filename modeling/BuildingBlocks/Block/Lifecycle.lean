import BuildingBlocks.Block.Publish
import BuildingBlocks.Lib.History
import BuildingBlocks.Lib.Liveness

/-!
# BuildingBlocks.Block.Lifecycle

The life of a building block, `libbb/bb_block.c`: the calling thread in `bb_block_start` and
`bb_block_main_loop`, with stop requests and the block's own publications at any point.

* `main` is one statement of the calling thread, `step` a statement or what comes between.
* `Keeps` — the states published are ready, running, stopped, and neither of the first two after a
  failure; a request to stop is followed.
* `heard_own` — what a subscriber hears of the states published.
* `lifecycle_iff` — a run keeps to this exactly when `init` does not fail, as its result is not
  looked at, and no request comes before `running` is set.
-/

namespace BuildingBlocks
namespace Lifecycle

open Lib

/-! ## The code -/

/-- The callbacks a block has; `on_cmd` is called only within `bb_bus_poll`. -/
structure Block where
  id : Bytes
  init : Bool
  run : Bool
  stop : Bool
deriving DecidableEq, Repr

/-- What the calls of a statement return: the result of `bb_bus_connect` or of a callback, the time,
and the stack memory a payload is written in. -/
structure Results where
  ret : Int
  time : Int
  mem : Nat → UInt8

/-- A publication: whether it is one of the two functions', its state, and what is sent. -/
structure Published where
  own : Bool
  state : BlockState
  line : Bytes
deriving DecidableEq, Repr

/-- The statement the calling thread is at. -/
inductive Pc where
  | enter
  | setRunning
  | setState
  | connect
  | subscribe
  | sigterm
  | sigint
  | init
  | ready
  | running
  | test
  | poll
  | run
  | stopping
  | stop
  | stopped
  | close
  -- `bb_block_start` failed, `bb_block_main_loop` returned, a signal ended the process
  | refused
  | returned
  | killed
deriving DecidableEq, Repr

structure State where
  pc : Pc
  /-- `g_current_block` is the block. -/
  current : Bool
  running : Int
  state : BlockState
  /-- `sig_handler` is installed for the signal. -/
  onTerm : Bool
  onInt : Bool
  published : List Published
  stopCalls : Nat
  /-- What `bb_block_start` returned. -/
  ret : Option Int
deriving DecidableEq, Repr

/-- A call of `bb_block_start`; the globals and the block are as they were left before. -/
def called (current : Bool) (running : Int) (state : BlockState) (onTerm onInt : Bool) : State :=
  { pc := .enter, current := current, running := running, state := state, onTerm := onTerm,
    onInt := onInt, published := [], stopCalls := 0, ret := none }

/-- `bb_block_publish_state`. -/
def State.publish (s : State) (b : Block) (x : Results) (own : Bool) (state : BlockState) : State :=
  { s with
    state := state
    published := s.published ++ [⟨own, state, stateLine b.id x.mem x.time state⟩] }

/-- A statement of `bb_block_start` or `bb_block_main_loop`. A callback is one statement, which ends
when it returns. -/
def main (b : Block) (x : Results) (s : State) : State :=
  match s.pc with
  | .enter => { s with current := true, pc := .setRunning }
  | .setRunning => { s with running := 1, pc := .setState }
  | .setState => { s with state := .init, pc := .connect }
  | .connect =>
    if x.ret < 0 then { s with ret := some (-1), pc := .refused } else { s with pc := .subscribe }
  | .subscribe => { s with pc := .sigterm }
  | .sigterm => { s with onTerm := true, pc := .sigint }
  | .sigint => { s with onInt := true, pc := .init }
  -- the result of `block->init` is not looked at
  | .init => { s with pc := .ready }
  | .ready => { s.publish b x true .ready with ret := some 0, pc := .running }
  | .running => { s.publish b x true .running with pc := .test }
  | .test => { s with pc := if s.running ≠ 0 then .poll else .stopping }
  | .poll => { s with pc := if b.run then .run else .test }
  | .run => { s with pc := if x.ret ≠ 0 then .stopping else .test }
  | .stopping => { s with state := .stopping, pc := if b.stop then .stop else .stopped }
  | .stop => { s with stopCalls := s.stopCalls + 1, pc := .stopped }
  | .stopped => { s.publish b x true .stopped with pc := .close }
  | .close => { s with pc := .returned }
  | .refused | .returned | .killed => s

inductive Sig where
  | term
  | int
deriving DecidableEq, Repr

def State.handles (s : State) : Sig → Bool
  | .term => s.onTerm
  | .int => s.onInt

/-- `sig_handler`, or the end of the process where it is not installed. -/
def signal (sig : Sig) (s : State) : State :=
  if s.handles sig then (if s.current then { s with running := 0 } else s)
  else { s with pc := .killed }

/-- A statement of the calling thread; or, between two of them or within a callback, a call of
`bb_block_stop`, a signal, or a state that the block publishes itself. -/
inductive Label where
  | main (x : Results)
  | stop
  | signal (sig : Sig)
  | publish (x : Results) (state : BlockState)

def Label.isMain : Label → Bool
  | .main _ => true
  | _ => false

def step (b : Block) (s : State) (a : Label) : Option State :=
  if s.pc = .killed then some s
  else
    match a with
    | .main x => some (main b x s)
    | .stop => some { s with running := 0 }
    | .signal sig => some (signal sig s)
    | .publish x state => some (s.publish b x false state)

/-! ## The law -/

/-- The states the two functions published. -/
def State.own (s : State) : List BlockState := (s.published.filter (·.own)).map (·.state)

/-- What happened: `bb_bus_connect` or `init` failed; the loop was asked to end. -/
structure Seen where
  failed : Bool
  asked : Bool
deriving DecidableEq, Repr

def Seen.none : Seen := { failed := false, asked := false }

/-- The label clears `running`. -/
def clears (s : State) : Label → Bool
  | .stop => true
  | .signal sig => s.handles sig && s.current
  | _ => false

/-- The label is the end of an `init` that fails. -/
def failsInit (b : Block) (fails : Int → Bool) (s : State) : Label → Bool
  | .main x => s.pc = .init && b.init && fails x.ret
  | _ => false

def refuses (s : State) : Label → Bool
  | .main x => s.pc = .connect && x.ret < 0
  | _ => false

/-- The label is the end of a `run` that does not return 0. -/
def breaks (s : State) : Label → Bool
  | .main x => s.pc = .run && x.ret ≠ 0
  | _ => false

def note (b : Block) (fails : Int → Bool) (s : State) (a : Label) (seen : Seen) : Seen :=
  { failed := seen.failed || refuses s a || failsInit b fails s a
    asked := seen.asked || clears s a || breaks s a }

def Pc.ended : Pc → Bool
  | .refused | .returned | .killed => true
  | _ => false

/-- The states published are in order, and the stop callback was called once before the last one;
after a failure neither ready nor running is ever published and `bb_block_start` returns another
value than zero; a loop that was asked to end ends. -/
structure Lawful (b : Block) (s : State × Seen) : Prop where
  order : s.1.own <+: [.ready, .running, .stopped]
  complete : s.1.pc = .returned → s.1.own = [.ready, .running, .stopped]
  once : s.1.stopCalls ≤ 1
  stop : .stopped ∈ s.1.own → s.1.stopCalls = if b.stop then 1 else 0
  silent : s.2.failed = true →
    Always (step b) (fun s => .ready ∉ s.own ∧ .running ∉ s.own) s.1
  nonzero : s.2.failed = true →
    Inevitable (step b) Label.isMain (fun s => s.pc = .killed ∨ ∃ r, s.ret = some r ∧ r ≠ 0) s.1
  ends : s.2.asked = true → Inevitable (step b) Label.isMain (fun s => s.pc.ended = true) s.1

/-- After the step the state is lawful. -/
def Keeps (b : Block) (fails : Int → Bool) (s : State × Seen) (a : Label) : Prop :=
  ∀ s' ∈ noted (step b) (note b fails) s a, Lawful b s'

/-- `init` does not fail, and no request comes before `running` is set. -/
def Careful (b : Block) (fails : Int → Bool) (s : State × Seen) (a : Label) : Prop :=
  failsInit b fails s.1 a = false ∧
    (clears s.1 a = true → s.1.pc ≠ .enter ∧ s.1.pc ≠ .setRunning)

instance (b : Block) (fails : Int → Bool) (s : State × Seen) (a : Label) :
    Decidable (Careful b fails s a) :=
  inferInstanceAs (Decidable (_ ∧ (_ → _)))

/-! ## Where the thread is -/

/-- The statement that comes next. -/
def Pc.next (b : Block) (x : Results) (running : Int) : Pc → Pc
  | .enter => .setRunning
  | .setRunning => .setState
  | .setState => .connect
  | .connect => if x.ret < 0 then .refused else .subscribe
  | .subscribe => .sigterm
  | .sigterm => .sigint
  | .sigint => .init
  | .init => .ready
  | .ready => .running
  | .running => .test
  | .test => if running ≠ 0 then .poll else .stopping
  | .poll => if b.run then .run else .test
  | .run => if x.ret ≠ 0 then .stopping else .test
  | .stopping => if b.stop then .stop else .stopped
  | .stop => .stopped
  | .stopped => .close
  | .close => .returned
  | .refused => .refused
  | .returned => .returned
  | .killed => .killed

/-- The states published on the way to a statement. -/
def Pc.own : Pc → List BlockState
  | .running => [.ready]
  | .test | .poll | .run | .stopping | .stop | .stopped => [.ready, .running]
  | .close | .returned => [.ready, .running, .stopped]
  | _ => []

def Pc.publishes : Pc → List BlockState
  | .ready => [.ready]
  | .running => [.running]
  | .stopped => [.stopped]
  | _ => []

/-- The calls of the stop callback on the way to a statement. -/
def Pc.stopCalls (b : Block) : Pc → Nat
  | .stopped | .close | .returned => if b.stop then 1 else 0
  | _ => 0

/-- The handlers may not be installed yet. -/
def Pc.bare : Pc → Bool
  | .enter | .setRunning | .setState | .connect | .subscribe | .sigterm | .sigint | .refused
  | .killed => true
  | _ => false

/-- The thread is out of the loop. -/
def Pc.out : Pc → Bool
  | .stopping | .stop | .stopped | .close | .refused | .returned | .killed => true
  | _ => false

/-- The statements left when the loop is not entered again. -/
def Pc.left : Pc → Nat
  | .enter => 15
  | .setRunning => 14
  | .setState => 13
  | .connect => 12
  | .subscribe => 11
  | .sigterm => 10
  | .sigint => 9
  | .init => 8
  | .ready => 7
  | .running => 6
  | .poll => 7
  | .run => 6
  | .test => 5
  | .stopping => 4
  | .stop => 3
  | .stopped => 2
  | .close => 1
  | .refused | .returned | .killed => 0

/-- What holds at each statement, whatever happened. -/
structure Base (b : Block) (s : State) : Prop where
  own : s.own = s.pc.own
  stopCalls : s.stopCalls = s.pc.stopCalls b
  term : s.pc = .sigint → s.onTerm = true
  handlers : s.pc.bare = false → s.onTerm = true ∧ s.onInt = true
  called : s.pc = .stop → b.stop = true

/-- `bb_block_start` has failed. -/
structure Refused (s : State) : Prop where
  own : s.own = []
  pc : s.pc = .killed ∨ s.pc = .refused ∧ s.ret = some (-1)

/-- The thread is out of the loop, or will not go through it again. -/
def Leaving (s : State) : Prop :=
  s.pc.out = true ∨ s.running = 0 ∧ s.pc ≠ .enter ∧ s.pc ≠ .setRunning

/-- `running` is set, or about to be, and the loop goes on. -/
def Looping (s : State) : Prop :=
  s.pc = .enter ∨ s.pc = .setRunning ∨ s.pc.out = false ∧ s.running = 1

section Pc

variable {b : Block} {x : Results} {running : Int}

theorem Pc.own_next (pc : Pc) : (pc.next b x running).own = pc.own ++ pc.publishes := by
  cases pc with
  | connect | test | poll | run | stopping =>
    simp only [Pc.next]
    split <;> rfl
  | _ => rfl

theorem Pc.stopCalls_next {pc : Pc} (h : pc = .stop → b.stop = true) :
    (pc.next b x running).stopCalls b = pc.stopCalls b + if pc = .stop then 1 else 0 := by
  cases pc with
  | connect | test | poll | run =>
    simp only [Pc.next]
    split <;> rfl
  | stopping =>
    simp only [Pc.next]
    split
    · rfl
    · next hstop => exact if_neg hstop
  | stop => exact if_pos (h rfl)
  | _ => rfl

theorem Pc.stop_next {pc : Pc} (h : pc.next b x running = .stop) : b.stop = true := by
  cases pc with
  | connect | test | poll | run =>
    simp only [Pc.next] at h
    split at h <;> cases h
  | stopping =>
    simp only [Pc.next] at h
    split at h
    · next hstop => exact hstop
    · cases h
  | _ => cases h

/-- The handlers are installed one after the other. -/
theorem Pc.bare_next {pc : Pc} (h : (pc.next b x running).bare = false) :
    pc.bare = false ∨ pc = .sigint := by
  cases pc with
  | connect =>
    simp only [Pc.next] at h
    split at h <;> cases h
  | sigint => exact Or.inr rfl
  | enter | setRunning | setState | subscribe | sigterm | refused | killed => cases h
  | _ => exact Or.inl rfl

theorem Pc.sigint_next {pc : Pc} (h : pc.next b x running = .sigint) : pc = .sigterm := by
  cases pc with
  | connect | test | poll | run | stopping =>
    simp only [Pc.next] at h
    split at h <;> cases h
  | sigterm => rfl
  | _ => cases h

theorem Pc.out_next {pc : Pc} (h : pc.out = true) : (pc.next b x running).out = true := by
  cases pc with
  | stopping =>
    simp only [Pc.next]
    split <;> rfl
  | stop | stopped | close | refused | returned | killed => rfl
  | _ => cases h

/-- Where the loop is not entered again, each statement brings the end nearer. -/
theorem Pc.left_next {pc : Pc} (h : pc.out = true ∨ running = 0) (hleft : 0 < pc.left) :
    (pc.next b x running).left < pc.left := by
  cases pc with
  | connect | poll | run | stopping =>
    simp only [Pc.next]
    split <;> decide
  | test =>
    have hzero : running = 0 := h.resolve_left Bool.false_ne_true
    rw [Pc.next, if_neg (not_not_intro hzero)]
    decide
  | refused | returned | killed => cases hleft
  | _ =>
    simp only [Pc.next]
    decide

theorem Pc.out_next_false {pc : Pc} (hpc : pc.out = false) (hrunning : running = 1)
    (hret : x.ret = 0) : (pc.next b x running).out = false := by
  cases pc with
  | connect =>
    rw [Pc.next, hret, if_neg (lt_irrefl 0)]
    rfl
  | test =>
    rw [Pc.next, hrunning, if_pos one_ne_zero]
    rfl
  | run =>
    rw [Pc.next, hret, if_neg (not_not_intro rfl)]
    rfl
  | poll =>
    simp only [Pc.next]
    split <;> rfl
  | stopping | stop | stopped | close | refused | returned | killed => cases hpc
  | _ => rfl

theorem Pc.next_past {pc : Pc} (h : pc ≠ .enter ∧ pc ≠ .setRunning) :
    pc.next b x running ≠ .enter ∧ pc.next b x running ≠ .setRunning := by
  cases pc with
  | enter => exact absurd rfl h.1
  | connect | test | poll | run | stopping =>
    simp only [Pc.next]
    split <;> decide
  | _ => exact ⟨Pc.noConfusion, Pc.noConfusion⟩

theorem Pc.next_ended {pc : Pc} (h : pc.left = 0) : pc.next b x running = pc := by
  cases pc with
  | refused | returned | killed => rfl
  | _ => cases h

theorem Pc.ended_of_left {pc : Pc} (h : pc.left = 0) : pc.ended = true := by
  cases pc with
  | refused | returned | killed => rfl
  | _ => cases h

theorem Pc.not_ended {pc : Pc} (h : pc.out = false) : pc.ended = false := by
  cases pc with
  | stopping | stop | stopped | close | refused | returned | killed => cases h
  | _ => rfl

/-- No state is published before the handlers are installed. -/
theorem Pc.own_bare {pc : Pc} (h : pc.bare = true) : pc.own = [] ∧ pc.stopCalls b = 0 := by
  cases pc with
  | enter | setRunning | setState | connect | subscribe | sigterm | sigint | refused | killed =>
    exact ⟨rfl, rfl⟩
  | _ => cases h

end Pc

section Step

variable {b : Block} {x : Results} {s s' : State} {a : Label}

@[simp] theorem own_publish (own : Bool) (state : BlockState) :
    (s.publish b x own state).own = if own then s.own ++ [state] else s.own := by
  cases own <;> simp [State.own, State.publish]

theorem step_some (b : Block) (s : State) (a : Label) : ∃ s', step b s a = some s' := by
  unfold step
  split
  · exact ⟨s, rfl⟩
  · cases a <;> exact ⟨_, rfl⟩

/-- What a step does. -/
theorem step_cases (h : step b s a = some s') :
    (s.pc = .killed ∧ s' = s) ∨
      s.pc ≠ .killed ∧ ((∃ x, a = .main x ∧ s' = main b x s) ∨
        (a = .stop ∧ s' = { s with running := 0 }) ∨
        (∃ sig, a = .signal sig ∧ s' = signal sig s) ∨
        ∃ x state, a = .publish x state ∧ s' = s.publish b x false state) := by
  unfold step at h
  split at h
  · next hkilled => exact Or.inl ⟨hkilled, (Option.some.inj h).symm⟩
  · next hkilled =>
    refine Or.inr ⟨hkilled, ?_⟩
    cases a with
    | main x => exact Or.inl ⟨x, rfl, (Option.some.inj h).symm⟩
    | stop => exact Or.inr (Or.inl ⟨rfl, (Option.some.inj h).symm⟩)
    | signal sig => exact Or.inr (Or.inr (Or.inl ⟨sig, rfl, (Option.some.inj h).symm⟩))
    | publish x state =>
      exact Or.inr (Or.inr (Or.inr ⟨x, state, rfl, (Option.some.inj h).symm⟩))

/-- What a signal does. -/
theorem signal_cases (sig : Sig) (s : State) :
    (s.handles sig = true ∧ s.current = true ∧ signal sig s = { s with running := 0 }) ∨
      (s.handles sig = true ∧ s.current = false ∧ signal sig s = s) ∨
      s.handles sig = false ∧ signal sig s = { s with pc := .killed } := by
  unfold signal
  cases hhandles : s.handles sig with
  | false => exact Or.inr (Or.inr ⟨rfl, if_neg Bool.false_ne_true⟩)
  | true =>
    rw [if_pos rfl]
    cases hcurrent : s.current with
    | false => exact Or.inr (Or.inl ⟨rfl, rfl, if_neg Bool.false_ne_true⟩)
    | true => exact Or.inl ⟨rfl, rfl, if_pos rfl⟩

theorem pc_main (b : Block) (x : Results) (s : State) :
    (main b x s).pc = s.pc.next b x s.running := by
  unfold main Pc.next
  cases hpc : s.pc with
  | connect => exact apply_ite State.pc _ _ _
  | refused | returned | killed => exact hpc
  | _ => rfl

/-- What a statement publishes. -/
theorem published_main (b : Block) (x : Results) (s : State) :
    (main b x s).published = s.published ++
      s.pc.publishes.map (fun state => ⟨true, state, stateLine b.id x.mem x.time state⟩) := by
  unfold main
  cases s.pc with
  | connect =>
    exact (apply_ite State.published _ _ _).trans ((ite_self _).trans (List.append_nil _).symm)
  | ready | running | stopped => rfl
  | _ => exact (List.append_nil s.published).symm

theorem own_main (b : Block) (x : Results) (s : State) :
    (main b x s).own = s.own ++ s.pc.publishes := by
  rw [State.own, published_main, List.filter_append, List.map_append, State.own]
  cases s.pc <;> rfl

theorem stopCalls_main (b : Block) (x : Results) (s : State) :
    (main b x s).stopCalls = s.stopCalls + if s.pc = .stop then 1 else 0 := by
  unfold main
  cases s.pc with
  | connect => exact (apply_ite State.stopCalls _ _ _).trans (ite_self _)
  | _ => rfl

theorem onTerm_main (b : Block) (x : Results) (s : State) :
    (main b x s).onTerm = (s.onTerm || s.pc = .sigterm) := by
  unfold main
  cases s.pc with
  | connect =>
    exact (apply_ite State.onTerm _ _ _).trans ((ite_self _).trans (Bool.or_false _).symm)
  | sigterm => exact (Bool.or_true _).symm
  | _ => exact (Bool.or_false _).symm

theorem onInt_main (b : Block) (x : Results) (s : State) :
    (main b x s).onInt = (s.onInt || s.pc = .sigint) := by
  unfold main
  cases s.pc with
  | connect =>
    exact (apply_ite State.onInt _ _ _).trans ((ite_self _).trans (Bool.or_false _).symm)
  | sigint => exact (Bool.or_true _).symm
  | _ => exact (Bool.or_false _).symm

theorem Base.main (h : Base b s) (x : Results) : Base b (main b x s) := by
  refine ⟨?_, ?_, ?_, ?_, ?_⟩
  · rw [own_main, h.own, pc_main, Pc.own_next]
  · rw [stopCalls_main, h.stopCalls, pc_main, Pc.stopCalls_next h.called]
  · intro hpc
    rw [pc_main] at hpc
    rw [onTerm_main, Pc.sigint_next hpc]
    exact Bool.or_true _
  · intro hbare
    rw [pc_main] at hbare
    rw [onTerm_main, onInt_main]
    rcases Pc.bare_next hbare with hbare | hpc
    · obtain ⟨hterm, hint⟩ := h.handlers hbare
      rw [hterm, hint]
      exact ⟨rfl, rfl⟩
    · rw [h.term hpc, hpc]
      exact ⟨rfl, Bool.or_true _⟩
  · intro hpc
    rw [pc_main] at hpc
    exact Pc.stop_next hpc

theorem running_main (h : s.pc ≠ .setRunning) : (main b x s).running = s.running := by
  unfold Lifecycle.main
  cases hpc : s.pc with
  | setRunning => exact absurd hpc h
  | connect => exact (apply_ite State.running _ _ _).trans (ite_self _)
  | _ => rfl

theorem Base.signal (h : Base b s) (sig : Sig) : Base b (signal sig s) := by
  rcases signal_cases sig s with ⟨-, -, hs⟩ | ⟨-, -, hs⟩ | ⟨hhandles, hs⟩
  · rw [hs]
    exact ⟨h.own, h.stopCalls, h.term, h.handlers, h.called⟩
  · rw [hs]
    exact h
  · -- a signal without a handler comes before the handlers are installed
    have hbare : s.pc.bare = true := by
      by_contra hbare
      obtain ⟨hterm, hint⟩ := h.handlers (Bool.eq_false_of_not_eq_true hbare)
      cases sig with
      | term => exact absurd (hterm.symm.trans hhandles) (by decide)
      | int => exact absurd (hint.symm.trans hhandles) (by decide)
    obtain ⟨hown, hcalls⟩ := Pc.own_bare (b := b) hbare
    rw [hs]
    exact ⟨h.own.trans hown, h.stopCalls.trans hcalls, Pc.noConfusion, Bool.noConfusion,
      Pc.noConfusion⟩

theorem Base.step (h : Base b s) (hs : step b s a = some s') : Base b s' := by
  rcases step_cases hs with
    ⟨-, rfl⟩ | ⟨-, ⟨x, -, rfl⟩ | ⟨-, rfl⟩ | ⟨sig, -, rfl⟩ | ⟨x, state, -, rfl⟩⟩
  · exact h
  · exact h.main x
  · exact ⟨h.own, h.stopCalls, h.term, h.handlers, h.called⟩
  · exact h.signal sig
  · exact ⟨(own_publish false state).trans h.own, h.stopCalls, h.term, h.handlers, h.called⟩

theorem base_called (b : Block) (current : Bool) (running : Int) (state : BlockState)
    (onTerm onInt : Bool) : Base b (called current running state onTerm onInt) :=
  ⟨rfl, rfl, Pc.noConfusion, Bool.noConfusion, Pc.noConfusion⟩

/-! ## After a failure -/

theorem Refused.step (h : Refused s) (hs : step b s a = some s') : Refused s' := by
  obtain ⟨hown, hpc⟩ := h
  rcases step_cases hs with ⟨-, rfl⟩ | ⟨hkilled, hcases⟩
  · exact ⟨hown, hpc⟩
  · have hrefused := hpc.resolve_left hkilled
    rcases hcases with ⟨x, -, rfl⟩ | ⟨-, rfl⟩ | ⟨sig, -, rfl⟩ | ⟨x, state, -, rfl⟩
    · have hmain : main b x s = s := by
        rw [Lifecycle.main, hrefused.1]
      rw [hmain]
      exact ⟨hown, hpc⟩
    · exact ⟨hown, hpc⟩
    · rcases signal_cases sig s with ⟨-, -, hs⟩ | ⟨-, -, hs⟩ | ⟨-, hs⟩
      · rw [hs]
        exact ⟨hown, hpc⟩
      · rw [hs]
        exact ⟨hown, hpc⟩
      · rw [hs]
        exact ⟨hown, Or.inl rfl⟩
    · exact ⟨(own_publish false state).trans hown, hpc⟩

/-! ## On the way out -/

theorem Leaving.step (h : Leaving s) (hs : step b s a = some s') :
    Leaving s' ∧ s'.pc.left ≤ s.pc.left := by
  rcases step_cases hs with
    ⟨-, rfl⟩ | ⟨-, ⟨x, -, rfl⟩ | ⟨-, rfl⟩ | ⟨sig, -, rfl⟩ | ⟨x, state, -, rfl⟩⟩
  · exact ⟨h, le_rfl⟩
  · rw [Leaving, pc_main]
    refine ⟨?_, ?_⟩
    · rcases h with hout | ⟨hzero, hpast⟩
      · exact Or.inl (Pc.out_next hout)
      · rw [running_main hpast.2]
        exact Or.inr ⟨hzero, Pc.next_past hpast⟩
    · rcases Nat.eq_zero_or_pos s.pc.left with hleft | hleft
      · rw [Pc.next_ended hleft]
      · exact (Pc.left_next (h.imp_right And.left) hleft).le
  · exact ⟨h.imp_right fun hpast => ⟨rfl, hpast.2⟩, le_rfl⟩
  · rcases signal_cases sig s with ⟨-, -, hs⟩ | ⟨-, -, hs⟩ | ⟨-, hs⟩
    · rw [hs]
      exact ⟨h.imp_right fun hpast => ⟨rfl, hpast.2⟩, le_rfl⟩
    · rw [hs]
      exact ⟨h, le_rfl⟩
    · rw [hs]
      exact ⟨Or.inl rfl, Nat.zero_le _⟩
  · exact ⟨h, le_rfl⟩

theorem Leaving.ends (h : Leaving s) :
    Inevitable (Lifecycle.step b) Label.isMain (fun s => s.pc.ended = true) s := by
  refine (inevitable_of_rank (I := Leaving) (fun s => s.pc.left)
    (fun _ _ _ ht hs => ht.step hs) ?_ h).mono (fun _ ht => Pc.ended_of_left ht.2)
  intro t a t' ht ha hs hleft
  rcases step_cases hs with
    ⟨hkilled, -⟩ | ⟨-, ⟨x, -, rfl⟩ | ⟨rfl, -⟩ | ⟨sig, rfl, -⟩ | ⟨x, state, rfl, -⟩⟩
  · rw [hkilled] at hleft
    cases hleft
  · rw [pc_main]
    exact Pc.left_next (ht.imp_right And.left) hleft
  · cases ha
  · cases ha
  · cases ha

/-! ## In the loop -/

/-- What a statement returns in a run without end. -/
def forever : Results := { ret := 0, time := 0, mem := fun _ => 0 }

theorem Looping.main (h : Looping s) : Looping (main b forever s) := by
  rw [Looping, pc_main]
  rcases h with hpc | hpc | ⟨hout, hrunning⟩
  · rw [hpc]
    exact Or.inr (Or.inl rfl)
  · rw [hpc, Lifecycle.main, hpc]
    exact Or.inr (Or.inr ⟨rfl, rfl⟩)
  · refine Or.inr (Or.inr ⟨Pc.out_next_false hout hrunning rfl, ?_⟩)
    by_cases hpc : s.pc = .setRunning
    · rw [Lifecycle.main, hpc]
    · rw [running_main hpc, hrunning]

theorem Looping.not_ended (h : Looping s) : s.pc.ended = false := by
  rcases h with hpc | hpc | ⟨hout, -⟩
  · rw [hpc]
    rfl
  · rw [hpc]
    rfl
  · exact Pc.not_ended hout

theorem Looping.never_ends (h : Looping s) :
    ¬ Inevitable (step b) Label.isMain (fun s => s.pc.ended = true) s := by
  refine not_inevitable_of_stays (I := Looping) ?_ ?_ h
  · intro t ht
    refine ⟨.main forever, Lifecycle.main b forever t, rfl, ?_, ht.main⟩
    have hended := ht.not_ended
    rw [Lifecycle.step, if_neg]
    intro hkilled
    rw [hkilled] at hended
    cases hended
  · intro t ht hended
    rw [ht.not_ended] at hended
    cases hended

end Step

/-! ## On the bus -/

section Bus

variable {b : Block} {s s' : State} {a : Label}

/-- What is sent is the line of the state. -/
def Sent (b : Block) (s : State) : Prop :=
  ∀ p ∈ s.published, ∃ mem time, p.line = stateLine b.id mem time p.state

theorem Sent.step (h : Sent b s) (hs : Lifecycle.step b s a = some s') : Sent b s' := by
  rcases step_cases hs with
    ⟨-, rfl⟩ | ⟨-, ⟨x, -, rfl⟩ | ⟨-, rfl⟩ | ⟨sig, -, rfl⟩ | ⟨x, state, -, rfl⟩⟩
  · exact h
  · intro p hp
    rw [published_main, List.mem_append, List.mem_map] at hp
    rcases hp with hp | ⟨state, -, rfl⟩
    · exact h p hp
    · exact ⟨x.mem, x.time, rfl⟩
  · exact h
  · rcases signal_cases sig s with ⟨-, -, hs⟩ | ⟨-, -, hs⟩ | ⟨-, hs⟩ <;> rw [hs] <;> exact h
  · intro p hp
    rcases List.mem_append.mp hp with hp | hp
    · exact h p hp
    · rw [List.mem_singleton.mp hp]
      exact ⟨x.mem, x.time, rfl⟩

/-- In every run a subscriber hears the states the two functions publish, in their order. -/
theorem heard_own (hid : IsId b.id) {current onTerm onInt : Bool} {running : Int}
    {state : BlockState} {as : List Label}
    (hr : run (step b) (called current running state onTerm onInt) as = some s) :
    (s.published.filter (·.own)).flatMap (fun p => heard p.line) =
      s.own.map (fun state => (ascii "/dev/" ++ b.id ++ ascii "/state", some state.text)) := by
  have hstart : Sent b (called current running state onTerm onInt) :=
    fun p hp => absurd hp List.not_mem_nil
  have hsent := run_invariant (I := Sent b) (fun _ _ _ h hs => h.step hs) hstart hr
  rw [State.own, List.map_map, List.map_eq_flatMap]
  refine List.flatMap_congr (fun p hp => ?_)
  obtain ⟨mem, time, hline⟩ := hsent p (List.mem_of_mem_filter hp)
  rw [hline, heard_stateLine hid]
  rfl

end Bus

/-! ## Runs -/

section Law

variable {b : Block} {fails : Int → Bool} {s s' : State × Seen} {a : Label}

structure Inv (b : Block) (s : State × Seen) : Prop where
  base : Base b s.1
  failed : s.2.failed = true → Refused s.1
  asked : s.2.asked = true → Leaving s.1

theorem Pc.own_prefix (pc : Pc) : pc.own <+: [.ready, .running, .stopped] := by
  cases pc with
  | running => exact ⟨[.running, .stopped], rfl⟩
  | test | poll | run | stopping | stop | stopped => exact ⟨[.stopped], rfl⟩
  | close | returned => exact ⟨[], rfl⟩
  | _ => exact List.nil_prefix

theorem Pc.stopCalls_of_stopped {pc : Pc} (h : .stopped ∈ pc.own) :
    pc.stopCalls b = if b.stop then 1 else 0 := by
  cases pc with
  | close | returned => rfl
  | _ => exact absurd h (by decide)

theorem Pc.stopCalls_le (pc : Pc) : pc.stopCalls b ≤ 1 := by
  have hle : (if b.stop then 1 else 0) ≤ 1 := by split <;> decide
  cases pc with
  | stopped | close | returned => exact hle
  | _ => exact Nat.zero_le 1

theorem Inv.lawful (h : Inv b s) : Lawful b s := by
  refine ⟨?_, ?_, ?_, ?_, ?_, ?_, ?_⟩
  · rw [h.base.own]
    exact Pc.own_prefix s.1.pc
  · intro hpc
    rw [h.base.own, hpc]
    rfl
  · rw [h.base.stopCalls]
    exact Pc.stopCalls_le s.1.pc
  · intro hstopped
    rw [h.base.own] at hstopped
    rw [h.base.stopCalls]
    exact Pc.stopCalls_of_stopped hstopped
  · intro hfailed
    refine always_of_invariant (I := Refused) (fun _ _ _ ht hs => ht.step hs) ?_ (h.failed hfailed)
    intro t ht
    rw [ht.own]
    exact ⟨List.not_mem_nil, List.not_mem_nil⟩
  · intro hfailed
    refine Always.inevitable (always_of_invariant (I := Refused) (fun _ _ _ ht hs => ht.step hs) ?_
      (h.failed hfailed))
    intro t ht
    exact ht.pc.imp_right fun hrefused => ⟨-1, hrefused.2, by decide⟩
  · intro hasked
    exact (h.asked hasked).ends

theorem refused_of_refuses {t t' : State} (h : Base b t) (hrefuses : refuses t a = true)
    (hs : step b t a = some t') : Refused t' := by
  cases a with
  | main x =>
    rw [refuses, Bool.and_eq_true, decide_eq_true_iff, decide_eq_true_iff] at hrefuses
    rw [step, if_neg (by rw [hrefuses.1]; decide), Option.some.injEq, main, hrefuses.1] at hs
    simp only [if_pos hrefuses.2] at hs
    rw [← hs]
    refine ⟨?_, Or.inr ⟨rfl, rfl⟩⟩
    rw [← show t.own = [] from by rw [h.own, hrefuses.1]; rfl]
    rfl
  | _ => cases hrefuses

theorem leaving_of_breaks {t t' : State} (hbreaks : breaks t a = true)
    (hs : step b t a = some t') : Leaving t' := by
  cases a with
  | main x =>
    rw [breaks, Bool.and_eq_true, decide_eq_true_iff, decide_eq_true_iff] at hbreaks
    rw [step, if_neg (by rw [hbreaks.1]; decide), Option.some.injEq] at hs
    rw [← hs, Leaving, pc_main, hbreaks.1, Pc.next, if_pos hbreaks.2]
    exact Or.inl rfl
  | _ => cases hbreaks

/-- A request clears `running`, at whatever statement the thread is. -/
theorem clears_step {t t' : State} (hclears : clears t a = true) (hs : step b t a = some t') :
    t'.pc = t.pc ∧ (t.pc ≠ .killed → t'.running = 0) := by
  rcases step_cases hs with
    ⟨hkilled, rfl⟩ | ⟨-, ⟨x, rfl, -⟩ | ⟨-, rfl⟩ | ⟨sig, rfl, rfl⟩ | ⟨x, state, rfl, -⟩⟩
  · exact ⟨rfl, fun hne => absurd hkilled hne⟩
  · cases hclears
  · exact ⟨rfl, fun _ => rfl⟩
  · rw [clears, Bool.and_eq_true] at hclears
    rw [signal, if_pos hclears.1, if_pos hclears.2]
    exact ⟨rfl, fun _ => rfl⟩
  · cases hclears

theorem leaving_of_clears {t t' : State} (hclears : clears t a = true)
    (hpast : t.pc ≠ .enter ∧ t.pc ≠ .setRunning) (hs : step b t a = some t') : Leaving t' := by
  obtain ⟨hpc, hrunning⟩ := clears_step hclears hs
  rw [Leaving, hpc]
  by_cases hkilled : t.pc = .killed
  · rw [hkilled]
    exact Or.inl rfl
  · exact Or.inr ⟨hrunning hkilled, hpast⟩

theorem Inv.step (h : Inv b s) (hcareful : Careful b fails s a)
    (hs : noted (step b) (note b fails) s a = some s') : Inv b s' := by
  obtain ⟨hstep, hnote⟩ := noted_eq_some.mp hs
  obtain ⟨hinit, hclears⟩ := hcareful
  refine ⟨h.base.step hstep, ?_, ?_⟩
  · rw [hnote, note, hinit, Bool.or_false, Bool.or_eq_true]
    rintro (hfailed | hrefuses)
    · exact (h.failed hfailed).step hstep
    · exact refused_of_refuses h.base hrefuses hstep
  · rw [hnote, note, Bool.or_eq_true, Bool.or_eq_true]
    rintro ((hasked | hclear) | hbreaks)
    · exact ((h.asked hasked).step hstep).1
    · exact leaving_of_clears hclear (hclears hclear) hstep
    · exact leaving_of_breaks hbreaks hstep

/-- A failure of `init` is not lawful: the next statement publishes ready. -/
theorem failsInit_of_keeps (hkeeps : Keeps b fails s a) : failsInit b fails s.1 a = false := by
  by_contra hfails
  rw [Bool.not_eq_false] at hfails
  obtain ⟨t, ht⟩ := step_some b s.1 a
  have hlawful := hkeeps (t, note b fails s.1 a s.2) (noted_eq_some.mpr ⟨ht, rfl⟩)
  have hfailed : (note b fails s.1 a s.2).failed = true := by
    rw [note, hfails, Bool.or_true]
  cases a with
  | main x =>
    rw [failsInit, Bool.and_eq_true, Bool.and_eq_true, decide_eq_true_iff] at hfails
    have hmain : t = { s.1 with pc := .ready } := by
      rw [Lifecycle.step, if_neg (by rw [hfails.1.1]; decide), Option.some.injEq, main,
        hfails.1.1] at ht
      exact ht.symm
    have hrun : run (step b) t [.main forever] = some (main b forever t) := by
      rw [hmain]
      rfl
    refine (hlawful.silent hfailed _ _ hrun).1 ?_
    rw [own_main, hmain]
    exact List.mem_append_right _ (List.mem_singleton_self _)
  | _ => cases hfails

/-- A request before `running` is set is lost, and the loop may go on forever. -/
theorem past_of_keeps (hkeeps : Keeps b fails s a) (hclears : clears s.1 a = true) :
    s.1.pc ≠ .enter ∧ s.1.pc ≠ .setRunning := by
  obtain ⟨t, ht⟩ := step_some b s.1 a
  have hlawful := hkeeps (t, note b fails s.1 a s.2) (noted_eq_some.mpr ⟨ht, rfl⟩)
  have hasked : (note b fails s.1 a s.2).asked = true := by
    rw [note, hclears, Bool.or_true, Bool.true_or]
  obtain ⟨hpc, -⟩ := clears_step hclears ht
  have hlooping : ¬ Looping t := fun hlooping => hlooping.never_ends (hlawful.ends hasked)
  refine ⟨fun henter => hlooping (Or.inl ?_), fun hset => hlooping (Or.inr (Or.inl ?_))⟩
  · rw [hpc, henter]
  · rw [hpc, hset]

theorem keeps_iff (h : Inv b s) : Keeps b fails s a ↔ Careful b fails s a := by
  constructor
  · intro hkeeps
    exact ⟨failsInit_of_keeps hkeeps, past_of_keeps hkeeps⟩
  · intro hcareful s' hs
    exact (h.step hcareful hs).lawful

end Law

/-- **The life of a block.** For every block, every reading of which results of `init` are failures
and every state the globals are left in, a run keeps to the law exactly when `init` does not fail
and no request to stop comes before `running` is set. -/
theorem lifecycle_iff (b : Block) (fails : Int → Bool) (current : Bool) (running : Int)
    (state : BlockState) (onTerm onInt : Bool) (as : List Label) :
    Meets (noted (step b) (note b fails)) (Keeps b fails)
        (called current running state onTerm onInt, Seen.none) as ↔
      Meets (noted (step b) (note b fails)) (Careful b fails)
        (called current running state onTerm onInt, Seen.none) as := by
  have htotal : ∀ s a, ∃ s', noted (step b) (note b fails) s a = some s' := by
    intro s a
    obtain ⟨t, ht⟩ := step_some b s.1 a
    exact ⟨(t, _), noted_eq_some.mpr ⟨ht, rfl⟩⟩
  obtain ⟨s', hs'⟩ := exists_run_of_total htotal
    (called current running state onTerm onInt, Seen.none) as
  have hinv : Inv b (called current running state onTerm onInt, Seen.none) :=
    ⟨base_called b current running state onTerm onInt, Bool.noConfusion, Bool.noConfusion⟩
  exact meets_iff_of_invariant (I := Inv b) (fun s a _ h _ => keeps_iff h)
    (fun s a _ h hcareful hs => h.step hcareful hs) hinv hs'

/-- The block of `blocks/bb-led/main.c`. -/
def led : Block := { id := ascii "bb-led", init := true, run := false, stop := true }

/-- A statement whose call returns a value. -/
def returns (ret : Int) : Label := .main { ret := ret, time := 0, mem := fun _ => 0 }

/-- SIGTERM comes within `bb_bus_poll`. -/
example : (run (step led) (called false 0 .init false false)
    (List.replicate 11 (returns 0) ++ .signal .term :: List.replicate 6 (returns 0))).map
      (fun s => (s.own, s.stopCalls, s.pc)) =
    some ([.ready, .running, .stopped], 1, .returned) := rfl

/-- The calls of a start up to the callback, and an `init` that returns -1: there is no LED. -/
def noLed : List Label := List.replicate 7 (returns 0) ++ [returns (-1)]

/-- `bb_block_start` returns 0 and the block is published as ready and running. -/
theorem noLed_ready :
    ¬ Meets (noted (step led) (note led (fun ret => ret < 0))) (Keeps led (fun ret => ret < 0))
        (called false 0 .init false false, Seen.none) noLed ∧
      (run (step led) (called false 0 .init false false)
          (noLed ++ List.replicate 2 (returns 0))).map (fun s => (s.ret, s.own)) =
        some (some 0, [.ready, .running]) := by
  refine ⟨fun hmeets => ?_, rfl⟩
  have hkeeps : Keeps led (fun ret => ret < 0) _ (returns (-1)) :=
    Meets.of_run hmeets (show run _ _ (List.replicate 7 (returns 0)) = some _ from rfl)
  exact absurd (failsInit_of_keeps hkeeps) (by decide)

end Lifecycle
end BuildingBlocks
