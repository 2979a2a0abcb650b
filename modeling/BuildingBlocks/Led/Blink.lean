import BuildingBlocks.Lib.History

/-!
# BuildingBlocks.Led.Blink

The blink threads of `blocks/bb-led/main.c` and the commands that start and end them.

* `step` is one step of the handler or of a thread: an access to the flag, to a parameter or to the
  LED. A sleep is the time until the next step of the thread.
* `settled` is the history: how many threads there were when `solid`, `heartbeat` or `stop` was last
  handled.
* `lastWins_of_careful` — one thread blinks, and none that a command has ended, in every run where
  the flag is set again only when no thread is left, and no command ends while a thread stands
  between its look at the flag and its write.
-/

namespace BuildingBlocks
namespace Led
namespace Blink

open Lib

/-! ## The code -/

/-- What is written to the LED. -/
inductive LedWrite where
  | on
  | off
  | heartbeat
deriving DecidableEq, Repr

/-- A command of `on_cmd`, and the callback `stop` of the block. -/
inductive Cmd where
  | blink (onMs offMs count : Int)
  | solid (off : Bool)
  | heartbeat
  | stop
  | stopBlock
deriving DecidableEq, Repr

/-- One access of the handler. -/
inductive Action where
  | setActive (active : Bool)
  | setOnMs (ms : Int)
  | setOffMs (ms : Int)
  | setCount (count : Int)
  | write (w : LedWrite)
  | create
deriving DecidableEq, Repr

/-- The accesses of a command, in their order. -/
def Cmd.actions : Cmd → List Action
  | .blink onMs offMs count =>
    [.setActive false, .setOnMs onMs, .setOffMs offMs, .setCount count, .setActive true, .create]
  | .solid off => [.setActive false, .write (if off then .off else .on)]
  | .heartbeat => [.setActive false, .write .heartbeat]
  | .stop => [.setActive false, .write .off]
  | .stopBlock => [.setActive false, .write .off]

/-- Where a blink thread stands: at the flag and the count of the loop, at its writes, and at the
flag after each of the two sleeps. -/
inductive Pc where
  | test
  | limit
  | on
  | wakeOn
  | off
  | wakeOff
  | done
deriving DecidableEq, Repr

structure Thread where
  pc : Pc
  cycles : Int
deriving DecidableEq, Repr

/-- The globals, the command that is handled with what is left of it, and the threads in the order
of their creation. -/
structure State where
  active : Bool
  onMs : Int
  offMs : Int
  count : Int
  led : Option LedWrite
  handler : Option (Cmd × List Action)
  threads : List Thread
deriving DecidableEq, Repr

def init : State :=
  { active := false, onMs := 500, offMs := 500, count := 0, led := none, handler := none,
    threads := [] }

/-- Whose turn it is. `created` tells whether `pthread_create` succeeds. -/
inductive Label where
  | recv (cmd : Cmd)
  | handler (created : Bool)
  | ret
  | thread (i : Nat)
deriving DecidableEq, Repr

/-- An access of the handler. -/
def State.perform (s : State) (created : Bool) : Action → State
  | .setActive active => { s with active := active }
  | .setOnMs ms => { s with onMs := ms }
  | .setOffMs ms => { s with offMs := ms }
  | .setCount count => { s with count := count }
  | .write w => { s with led := some w }
  | .create =>
    if created then { s with threads := s.threads ++ [{ pc := .test, cycles := 0 }] } else s

/-- One access of `blink_thread`, with what it writes to the LED. -/
def Thread.next (s : State) (t : Thread) : Thread × Option LedWrite :=
  match t.pc with
  | .test => ({ t with pc := if s.active then .limit else .done }, none)
  | .limit => ({ t with pc := if s.count = 0 ∨ t.cycles < s.count then .on else .done }, none)
  | .on => ({ t with pc := .wakeOn }, some .on)
  | .wakeOn => ({ t with pc := if s.active then .off else .done }, none)
  | .off => ({ t with pc := .wakeOff }, some .off)
  | .wakeOff => (if s.active then { pc := .test, cycles := t.cycles + 1 }
      else { t with pc := .done }, none)
  | .done => (t, none)

def step (s : State) : Label → Option State
  | .recv cmd =>
    if s.handler = none then some { s with handler := some (cmd, cmd.actions) } else none
  | .handler created =>
    match s.handler with
    | some (cmd, a :: todo) => some { s.perform created a with handler := some (cmd, todo) }
    | _ => none
  | .ret =>
    match s.handler with
    | some (_, []) => some { s with handler := none }
    | _ => none
  | .thread i =>
    match s.threads[i]? with
    | none => none
    | some t =>
      if t.pc = .done then none
      else
        let (t', w) := t.next s
        some { s with threads := s.threads.set i t', led := w.or s.led }

/-! ## The law -/

def Thread.live (t : Thread) : Bool := t.pc ≠ .done

/-- The thread has looked at the flag and is to write. -/
def Thread.armed (t : Thread) : Bool := t.pc = .limit || t.pc = .on || t.pc = .off

def Thread.writes (t : Thread) : Bool := t.pc = .on || t.pc = .off

def Cmd.isBlink : Cmd → Bool
  | .blink _ _ _ => true
  | _ => false

/-- The step sets the flag. -/
def sets (s : State) (a : Label) : Bool :=
  match a, s.handler with
  | .handler _, some (_, .setActive true :: _) => true
  | _, _ => false

/-- The step is the end of a command other than `blink`. -/
def settles (s : State) (a : Label) : Bool :=
  match a, s.handler with
  | .ret, some (cmd, []) => !cmd.isBlink
  | _, _ => false

/-- The threads that were there when a command other than `blink` was last handled. -/
def note (s : State) (a : Label) (settled : Nat) : Nat :=
  if settles s a then s.threads.length else settled

/-- At most one thread is in its loop, and no thread writes to the LED that was there when a later
command was handled. -/
def LastWins (s : State × Nat) (a : Label) : Prop :=
  (∀ s' ∈ step s.1 a, s'.threads.countP Thread.live ≤ 1) ∧
    ∀ i ∈ (match a with | .thread i => some i | _ => none), ∀ t ∈ s.1.threads[i]?,
      t.writes = true → s.2 ≤ i

instance (s : State × Nat) (a : Label) : Decidable (LastWins s a) :=
  inferInstanceAs (Decidable ((∀ _ ∈ _, _) ∧ ∀ _ ∈ _, ∀ _ ∈ _, _ → _))

/-- A blink sets the flag when no thread is in its loop, and another command is done when no thread
stands between its look at the flag and its write. -/
def Careful (s : State × Nat) (a : Label) : Prop :=
  (sets s.1 a = true → ∀ t ∈ s.1.threads, t.live = false) ∧
    (settles s.1 a = true → ∀ t ∈ s.1.threads, t.armed = false)

instance (s : State × Nat) (a : Label) : Decidable (Careful s a) :=
  inferInstanceAs (Decidable ((_ → ∀ _ ∈ _, _) ∧ (_ → ∀ _ ∈ _, _)))

/-! ## The actions of a command -/

section Actions

variable {cmd : Cmd} {a : Action} {todo : List Action} {b : Bool}

theorem Cmd.actions_eq (cmd : Cmd) : ∃ rest, cmd.actions = .setActive false :: rest := by
  cases cmd with
  | blink onMs offMs count => exact ⟨_, rfl⟩
  | solid off => exact ⟨_, rfl⟩
  | heartbeat => exact ⟨_, rfl⟩
  | stop => exact ⟨_, rfl⟩
  | stopBlock => exact ⟨_, rfl⟩

theorem Cmd.actions_ne_create (cmd : Cmd) : cmd.actions ≠ .create :: todo := by
  obtain ⟨rest, hrest⟩ := cmd.actions_eq
  rw [hrest]
  exact fun h => Action.noConfusion (List.cons.inj h).1

/-- Only a blink sets the flag. -/
theorem Cmd.setActive_notMem (h : cmd.isBlink = false) : .setActive true ∉ cmd.actions := by
  cases cmd with
  | blink onMs offMs count => cases h
  | solid off => simp [Cmd.actions]
  | heartbeat => simp [Cmd.actions]
  | stop => simp [Cmd.actions]
  | stopBlock => simp [Cmd.actions]

/-- A thread is created right after the flag was set. -/
theorem setActive_of_create (h : a :: .create :: todo <:+ cmd.actions) : a = .setActive true := by
  cases cmd with
  | blink onMs offMs count =>
    simp only [Cmd.actions, List.suffix_cons_iff, List.cons.injEq, List.suffix_nil] at h
    simp_all
  | solid off => simp [Cmd.actions, List.suffix_cons_iff] at h
  | heartbeat => simp [Cmd.actions, List.suffix_cons_iff] at h
  | stop => simp [Cmd.actions, List.suffix_cons_iff] at h
  | stopBlock => simp [Cmd.actions, List.suffix_cons_iff] at h

theorem create_last (h : .create :: todo <:+ cmd.actions) : todo = [] := by
  cases cmd with
  | blink onMs offMs count => simpa [Cmd.actions, List.suffix_cons_iff] using h
  | solid off => simp [Cmd.actions, List.suffix_cons_iff] at h
  | heartbeat => simp [Cmd.actions, List.suffix_cons_iff] at h
  | stop => simp [Cmd.actions, List.suffix_cons_iff] at h
  | stopBlock => simp [Cmd.actions, List.suffix_cons_iff] at h

end Actions

/-! ## The invariant -/

/-- One thread is in its loop; those that were settled and are still in it look at a cleared flag
next; and a thread is created when there is no other. -/
structure Inv (s : State × Nat) : Prop where
  one : s.1.threads.countP Thread.live ≤ 1
  settled : s.2 ≤ s.1.threads.length
  stale : ∀ i < s.2, ∀ t, s.1.threads[i]? = some t → t.live = true →
    s.1.active = false ∧ t.armed = false
  suffix : ∀ cmd todo, s.1.handler = some (cmd, todo) → todo <:+ cmd.actions
  cleared : ∀ cmd todo, s.1.handler = some (cmd, todo) → cmd.isBlink = false →
    todo = cmd.actions ∨ s.1.active = false
  create : ∀ cmd todo, s.1.handler = some (cmd, .create :: todo) →
    ∀ t ∈ s.1.threads, t.live = false

theorem inv_init : Inv (init, 0) := by
  refine ⟨by decide, le_rfl, ?_, ?_, ?_, ?_⟩
  · intro i hi
    exact absurd hi (Nat.not_lt_zero i)
  · intro cmd todo h
    cases h
  · intro cmd todo h
    cases h
  · intro cmd todo h
    cases h

section Thread

variable {s : State} {t : Thread}

theorem Thread.live_of_ne (h : t.pc ≠ .done) : t.live = true := decide_eq_true h

/-- A thread that is not to write leaves its loop when the flag is cleared. -/
theorem Thread.next_not_live (hactive : s.active = false) (harmed : t.armed = false) :
    (t.next s).1.live = false := by
  obtain ⟨pc, cycles⟩ := t
  cases pc with
  | test => simp [Thread.next, Thread.live, hactive]
  | limit => simp [Thread.armed] at harmed
  | on => simp [Thread.armed] at harmed
  | wakeOn => simp [Thread.next, Thread.live, hactive]
  | off => simp [Thread.armed] at harmed
  | wakeOff => simp [Thread.next, Thread.live, hactive]
  | done => simp [Thread.next, Thread.live]

theorem Thread.armed_of_writes (h : t.writes = true) : t.armed = true ∧ t.live = true := by
  obtain ⟨pc, cycles⟩ := t
  cases pc <;> simp_all [Thread.writes, Thread.armed, Thread.live]

theorem step_thread {s' : State} {i : Nat} (h : step s (.thread i) = some s') :
    ∃ t, s.threads[i]? = some t ∧ t.pc ≠ .done ∧
      s' = { s with threads := s.threads.set i (t.next s).1, led := (t.next s).2.or s.led } := by
  simp only [step] at h
  cases ht : s.threads[i]? with
  | none =>
    rw [ht] at h
    cases h
  | some t =>
    rw [ht] at h
    simp only at h
    split at h
    · cases h
    · next hpc => exact ⟨t, rfl, hpc, (Option.some.inj h).symm⟩

theorem step_handler {s' : State} {created : Bool} (h : step s (.handler created) = some s') :
    ∃ cmd a todo, s.handler = some (cmd, a :: todo) ∧
      s' = { s.perform created a with handler := some (cmd, todo) } := by
  simp only [step] at h
  split at h
  · next cmd a todo hhandler => exact ⟨cmd, a, todo, hhandler, (Option.some.inj h).symm⟩
  · cases h

theorem step_recv {s' : State} {cmd : Cmd} (h : step s (.recv cmd) = some s') :
    s' = { s with handler := some (cmd, cmd.actions) } := by
  simp only [step] at h
  split at h
  · exact (Option.some.inj h).symm
  · cases h

theorem step_ret {s' : State} (h : step s .ret = some s') :
    ∃ cmd, s.handler = some (cmd, []) ∧ s' = { s with handler := none } := by
  simp only [step] at h
  split at h
  · next cmd hhandler => exact ⟨cmd, hhandler, (Option.some.inj h).symm⟩
  · cases h

end Thread

section Step

variable {s : State} {n : Nat}

/-- A step of a thread: it stays at most as alive as it was. -/
theorem Inv.thread (h : Inv (s, n)) {i : Nat} {t : Thread} (ht : s.threads[i]? = some t)
    (hpc : t.pc ≠ .done) (led : Option LedWrite) :
    Inv ({ s with threads := s.threads.set i (t.next s).1, led := led }, n) := by
  obtain ⟨hi, hti⟩ := List.getElem?_eq_some_iff.mp ht
  have hlive := Thread.live_of_ne hpc
  refine ⟨?_, ?_, ?_, h.suffix, h.cleared, ?_⟩
  · have hone := h.one
    have hpos : 0 < s.threads.countP Thread.live :=
      List.countP_pos_iff.mpr ⟨t, List.mem_of_getElem? ht, hlive⟩
    simp only at hone
    rw [List.countP_set hi, hti, if_pos hlive]
    split <;> omega
  · rw [List.length_set]
    exact h.settled
  · intro j hj t' ht' hlive'
    by_cases hij : i = j
    · subst hij
      rw [List.getElem?_set_self hi] at ht'
      obtain rfl := Option.some.inj ht'
      obtain ⟨hactive, harmed⟩ := h.stale i hj t ht hlive
      rw [Thread.next_not_live hactive harmed] at hlive'
      cases hlive'
    · rw [List.getElem?_set_ne hij] at ht'
      exact h.stale j hj t' ht' hlive'
  · intro cmd todo hhandler
    have hdone := h.create cmd todo hhandler t (List.mem_of_getElem? ht)
    rw [hlive] at hdone
    cases hdone

/-- An access of the handler that is neither to the flag nor a creation. -/
theorem Inv.frame (h : Inv (s, n)) {s' : State} {cmd : Cmd} {a : Action} {todo : List Action}
    (hhandler : s.handler = some (cmd, a :: todo)) (ha : ∀ b, a ≠ .setActive b)
    (hactive : s'.active = s.active) (hthreads : s'.threads = s.threads) :
    Inv ({ s' with handler := some (cmd, todo) }, n) := by
  have hsuffix := h.suffix cmd _ hhandler
  refine ⟨?_, ?_, ?_, ?_, ?_, ?_⟩
  · rw [hthreads]
    exact h.one
  · rw [hthreads]
    exact h.settled
  · rw [hthreads, hactive]
    exact h.stale
  · rintro cmd' todo' h'
    cases h'
    exact (List.suffix_cons a todo).trans hsuffix
  · rintro cmd' todo' h' hblink
    cases h'
    rw [hactive]
    rcases h.cleared cmd _ hhandler hblink with hall | hclear
    · obtain ⟨rest, hrest⟩ := cmd.actions_eq
      rw [hrest] at hall
      exact absurd (List.cons.inj hall).1 (ha false)
    · exact Or.inr hclear
  · rintro cmd' todo' h'
    cases h'
    exact absurd (setActive_of_create hsuffix) (ha true)

/-- The flag is cleared, or set when no thread is in its loop. -/
theorem Inv.setActive (h : Inv (s, n)) {cmd : Cmd} {b : Bool} {todo : List Action}
    (hhandler : s.handler = some (cmd, .setActive b :: todo))
    (hcareful : b = true → ∀ t ∈ s.threads, t.live = false) :
    Inv ({ s with active := b, handler := some (cmd, todo) }, n) := by
  have hsuffix := h.suffix cmd _ hhandler
  refine ⟨h.one, h.settled, ?_, ?_, ?_, ?_⟩
  · intro i hi t ht hlive
    cases b with
    | false => exact ⟨rfl, (h.stale i hi t ht hlive).2⟩
    | true =>
      rw [hcareful rfl t (List.mem_of_getElem? ht)] at hlive
      cases hlive
  · rintro cmd' todo' h'
    cases h'
    exact (List.suffix_cons _ todo).trans hsuffix
  · rintro cmd' todo' h' hblink
    cases h'
    cases b with
    | false => exact Or.inr rfl
    | true =>
      exact absurd (hsuffix.subset List.mem_cons_self) (Cmd.setActive_notMem hblink)
  · rintro cmd' todo' h'
    cases h'
    exact hcareful (Action.setActive.inj (setActive_of_create hsuffix))

/-- A thread is created, or not. -/
theorem Inv.created (h : Inv (s, n)) {cmd : Cmd} {todo : List Action}
    (hhandler : s.handler = some (cmd, .create :: todo)) (created : Bool) :
    Inv ({ s.perform created .create with handler := some (cmd, todo) }, n) := by
  have hno : ∀ b, Action.create ≠ .setActive b := fun b he => Action.noConfusion he
  cases created with
  | false => exact h.frame hhandler hno rfl rfl
  | true =>
    have hframe := @Inv.frame s n h s cmd .create todo hhandler hno rfl rfl
    have hsuffix := h.suffix cmd _ hhandler
    have hzero : s.threads.countP Thread.live = 0 := by
      rw [List.countP_eq_zero]
      intro t ht
      rw [h.create cmd todo hhandler t ht]
      exact Bool.false_ne_true
    have hsettled := h.settled
    simp only at hsettled
    refine ⟨?_, ?_, ?_, hframe.suffix, hframe.cleared, ?_⟩
    · simp [State.perform, List.countP_append, hzero, Thread.live]
    · simp only [State.perform, if_true, List.length_append]
      omega
    · intro i hi t ht hlive
      simp only [State.perform, if_true] at hi ht
      rw [List.getElem?_append_left (by omega)] at ht
      exact h.stale i hi t ht hlive
    · rintro cmd' todo' h'
      obtain ⟨rfl, hcons⟩ := Prod.mk.inj (Option.some.inj h')
      rw [create_last hsuffix] at hcons
      cases hcons

/-- A command is handled; if it is not a blink, the threads that are left look at a cleared flag. -/
theorem Inv.ret (h : Inv (s, n)) {cmd : Cmd} (hhandler : s.handler = some (cmd, []))
    (hcareful : cmd.isBlink = false → ∀ t ∈ s.threads, t.armed = false) :
    Inv ({ s with handler := none }, if cmd.isBlink then n else s.threads.length) := by
  refine ⟨h.one, ?_, ?_, ?_, ?_, ?_⟩
  · split
    · exact h.settled
    · exact le_rfl
  · intro i hi t ht hlive
    cases hblink : cmd.isBlink with
    | true =>
      rw [hblink] at hi
      exact h.stale i hi t ht hlive
    | false =>
      obtain ⟨rest, hrest⟩ := cmd.actions_eq
      refine ⟨?_, hcareful hblink t (List.mem_of_getElem? ht)⟩
      rcases h.cleared cmd [] hhandler hblink with hall | hclear
      · rw [hrest] at hall
        cases hall
      · exact hclear
  · rintro cmd' todo' h'
    cases h'
  · rintro cmd' todo' h'
    cases h'
  · rintro cmd' todo' h'
    cases h'

theorem Inv.next {s s' : State × Nat} {a : Label} (h : Inv s) (hcareful : Careful s a)
    (hs : noted step note s a = some s') : Inv s' := by
  obtain ⟨hstep, hnote⟩ := noted_eq_some.mp hs
  obtain ⟨s, n⟩ := s
  obtain ⟨s', n'⟩ := s'
  simp only at hstep hnote
  subst hnote
  cases a with
  | recv cmd =>
    rw [step_recv hstep]
    refine ⟨h.one, h.settled, h.stale, ?_, ?_, ?_⟩
    · rintro cmd' todo' h'
      cases h'
      exact List.suffix_rfl
    · rintro cmd' todo' h' -
      cases h'
      exact Or.inl rfl
    · rintro cmd' todo' h'
      exact absurd (Prod.mk.inj (Option.some.inj h')).2 (Cmd.actions_ne_create _)
  | handler created =>
    obtain ⟨cmd, action, todo, hhandler, rfl⟩ := step_handler hstep
    cases action with
    | setActive b =>
      refine h.setActive hhandler ?_
      rintro rfl
      exact hcareful.1 (by simp [sets, hhandler])
    | setOnMs ms => exact h.frame hhandler (fun b he => Action.noConfusion he) rfl rfl
    | setOffMs ms => exact h.frame hhandler (fun b he => Action.noConfusion he) rfl rfl
    | setCount count => exact h.frame hhandler (fun b he => Action.noConfusion he) rfl rfl
    | write w => exact h.frame hhandler (fun b he => Action.noConfusion he) rfl rfl
    | create => exact h.created hhandler created
  | ret =>
    obtain ⟨cmd, hhandler, rfl⟩ := step_ret hstep
    have hsettles : settles s .ret = !cmd.isBlink := by
      simp [settles, hhandler]
    have hret := h.ret hhandler (fun hblink => hcareful.2 (by rw [hsettles, hblink]; rfl))
    have hnote : note s .ret n = if cmd.isBlink then n else s.threads.length := by
      rw [note, hsettles]
      cases cmd.isBlink <;> rfl
    rw [hnote]
    exact hret
  | thread i =>
    obtain ⟨t, ht, hpc, rfl⟩ := step_thread hstep
    exact h.thread ht hpc _

end Step

/-- The law at a step that is careful. -/
theorem Inv.lastWins {s : State × Nat} {a : Label} (h : Inv s) (hcareful : Careful s a) :
    LastWins s a := by
  refine ⟨?_, ?_⟩
  · intro s' hs'
    have hnoted : noted step note s a = some (s', note s.1 a s.2) := by
      rw [noted, Option.mem_def.mp hs', Option.map_some]
    exact (h.next hcareful hnoted).one
  · intro i hi t ht hwrites
    obtain ⟨harmed, hlive⟩ := Thread.armed_of_writes hwrites
    by_contra hlt
    have hstale := h.stale i (not_le.mp hlt) t ht hlive
    rw [harmed] at hstale
    cases hstale.2

/-- **The last command wins** in every run that is careful: at most one thread is in its loop, and
none writes to the LED that was there when a later command was handled. -/
theorem lastWins_of_careful (as : List Label)
    (hcareful : Meets (noted step note) Careful (init, 0) as) :
    Meets (noted step note) LastWins (init, 0) as :=
  Meets.of_invariant (fun _ _ => Inv.lastWins) (fun _ _ _ h hc hs => h.next hc hs) inv_init hcareful

/-- A blink of one cycle, a thread that does it, and a `solid` while the thread sleeps. -/
def solidWhileAsleep : List Label :=
  List.flatten [[.recv (.blink 100 100 1)], List.replicate 6 (.handler true), [.ret],
    List.replicate 3 (.thread 0), [.recv (.solid true)], List.replicate 2 (.handler true),
    [.ret, .thread 0]]

theorem solidWhileAsleep_lastWins : Meets (noted step note) LastWins (init, 0) solidWhileAsleep :=
  lastWins_of_careful solidWhileAsleep (by decide)

/-- The first thread sleeps longer than the second `blink` takes to set the flag again. -/
def blinkTwice : List Label :=
  List.flatten [[.recv (.blink 5000 5000 0)], List.replicate 6 (.handler true), [.ret],
    List.replicate 3 (.thread 0), [.recv (.blink 100 100 0)], List.replicate 6 (.handler true)]

/-- The thread has looked at the flag when `solid` turns the LED off. -/
def solidBeforeWrite : List Label :=
  List.flatten [[.recv (.blink 100 100 0)], List.replicate 6 (.handler true), [.ret],
    List.replicate 2 (.thread 0), [.recv (.solid true)], List.replicate 2 (.handler true),
    [.ret, .thread 0]]

/-- Two threads blink, and a thread turns the LED on again after `solid` has turned it off. -/
theorem last_loses : ¬ Meets (noted step note) LastWins (init, 0) blinkTwice ∧
    ¬ Meets (noted step note) LastWins (init, 0) solidBeforeWrite ∧
    (run step init solidBeforeWrite).map State.led = some (some .on) := by
  decide

end Blink
end Led
end BuildingBlocks
