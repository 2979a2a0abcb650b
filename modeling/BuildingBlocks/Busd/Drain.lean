import BuildingBlocks.Busd.Iterate
import BuildingBlocks.Lib.Liveness

/-!
# BuildingBlocks.Busd.Drain

The bus comes to rest.

* `Deed.receives` are the deeds that only take what is on the way: events, connections waiting to
  be accepted, bytes and hang-ups.
* `unread` is what is on the way, to the daemon first: an event takes of the one and may add to the
  other, a poll takes of the other.
* `drains` — once the clients do nothing more, whatever the order of events and polls and however
  the streams are cut, receiving ends, and it ends with everything handled and delivered.
-/

namespace BuildingBlocks
namespace Busd

open Lib

/-! ## Receiving -/

def Deed.receives : Deed → Bool
  | .wait evs => !evs.isEmpty
  | .accept accepted => accepted.isSome
  | .recv _ => true
  | .poll _ _ => true
  | .connect => false
  | .publish _ _ => false
  | .subscribe _ _ => false
  | .unsubscribe _ _ => false
  | .hangUp _ => false

/-- Only what is on the way is received. -/
def Network.receiveStep (s : Network) (d : Deed) : Option Network :=
  if d.receives then s.step d else none

/-- And the last `recv` of a client that has hung up takes all there is. -/
def Network.drainStep (s : Network) (d : Deed) : Option Network :=
  if Placed s d then s.receiveStep d else none

theorem drainStep_eq_some {s s' : Network} {d : Deed} :
    s.drainStep d = some s' ↔ Placed s d ∧ d.receives = true ∧ s.step d = some s' := by
  unfold Network.drainStep Network.receiveStep
  split_ifs with hp hr
  · simp [hp, hr]
  · simp [hr]
  · simp [hp]

/-! ## What is on the way -/

/-- What the daemon has to take. -/
def load (s : Network) : Nat :=
  s.backlog +
    ((members s.daemon).map (fun fd => (s.up fd).length + (s.hungUp fd).toNat)).sum

/-- What the clients have to take, and the call of `epoll_wait` that is due. -/
def unpolled (s : Network) : Nat :=
  ((members s.daemon).map (fun fd => (s.down fd).length)).sum +
    if s.daemon.batch = [] then 1 else 0

def unread (s : Network) : Nat × Nat := (load s, unpolled s)

section Load

variable {asked : Nat → List Bytes} {took got : Nat → Bytes} {s s' : Network} {fd n : Nat}
  {idx : Int} {rest : List Event} {d : Deed}

/-- Bytes taken from one connection. -/
theorem sum_drop_lt {fds : List Nat} {queue : Nat → Bytes} {f : Nat → Nat} (hfd : fd ∈ fds)
    (hpos : 0 < n) (hle : n ≤ (queue fd).length) :
    (fds.map (fun x => (Function.update queue fd ((queue fd).drop n) x).length + f x)).sum <
      (fds.map (fun x => (queue x).length + f x)).sum := by
  refine List.sum_lt_sum _ _ (fun x _ => ?_) ⟨fd, hfd, ?_⟩
  · by_cases hx : x = fd
    · subst hx
      rw [Function.update_self, List.length_drop]
      omega
    · rw [Function.update_of_ne hx]
  · rw [Function.update_self, List.length_drop]
    omega

theorem load_taken (h0 : fd ∈ members s.daemon) (hrec : (s.daemon.clients idx).fd = fd)
    (hpos : 0 < n) (hle : n ≤ (s.up fd).length) : load (s.taken idx n) < load s := by
  have hsum := sum_drop_lt (f := fun x => (s.hungUp x).toNat) h0 hpos hle
  unfold load
  rw [taken_up, hrec]
  exact Nat.add_lt_add_left hsum s.backlog

/-- Removing a client takes its share. -/
theorem load_dropped (h : Seated s) (hmem : fd ∈ members s.daemon)
    (hrec : (s.daemon.clients idx).fd = fd) :
    load (s.dropped idx) + ((s.up fd).length + (s.hungUp fd).toNat) = load s := by
  have hnodup : (members s.daemon).Nodup := h.inv.nodup
  have hmembers : members (s.dropped idx).daemon = (members s.daemon).erase fd := by
    rw [hnodup.erase_eq_filter]
    refine (members_remove idx s.daemon).trans ?_
    rw [hrec]
    refine List.filter_congr (fun x _ => ?_)
    rw [Bool.eq_iff_iff]
    simp
  have hsum := List.sum_map_erase (fun x => (s.up x).length + (s.hungUp x).toNat) hmem
  unfold load
  rw [hmembers, ← hsum]
  simp only [Network.dropped]
  omega

theorem load_seated (hnew : fd ∉ openFds s.daemon) (hpos : 0 < s.backlog) :
    load (s.seated fd) < load s := by
  have hnew' : fd ∉ members s.daemon := fun hmem => hnew (members_subset _ hmem)
  have hold : (members s.daemon).map (fun x =>
      (Function.update s.up fd [] x).length + (Function.update s.hungUp fd false x).toNat) =
        (members s.daemon).map (fun x => (s.up x).length + (s.hungUp x).toNat) := by
    refine List.map_congr_left (fun x hx => ?_)
    have hne : x ≠ fd := by
      rintro rfl
      exact hnew' hx
    rw [Function.update_of_ne hne, Function.update_of_ne hne]
  have hload : load (s.seated fd) = s.backlog - 1 + ((members (s.seated fd).daemon).map (fun x =>
      (Function.update s.up fd [] x).length + (Function.update s.hungUp fd false x).toNat)).sum :=
    rfl
  have hmembers : members (s.seated fd).daemon = members s.daemon ++ [fd] ∨
      members (s.seated fd).daemon = members s.daemon := by
    by_cases hroom : s.daemon.numClients < maxClients
    · exact Or.inl (members_accept hroom)
    · exact Or.inr (congrArg openFds (registered_full hroom))
  rw [hload, load]
  rcases hmembers with hm | hm
  · rw [hm, List.map_append, List.sum_append, hold]
    simp
    omega
  · rw [hm, hold]
    omega

/-- **Every deed takes of what is on the way.** -/
theorem Wired.unread_lt (h : Wired asked took got s) (hs : s.drainStep d = some s') :
    Prod.Lex (· < ·) (· < ·) (unread s') (unread s) := by
  obtain ⟨-, hr, hs⟩ := drainStep_eq_some.mp hs
  cases d with
  | wait evs =>
    simp only [Network.step] at hs
    split_ifs at hs
    obtain ⟨daemon, hd, rfl⟩ := Option.map_eq_some_iff.mp hs
    simp only [Busd.step] at hd
    split_ifs at hd with hb
    cases hd
    refine Prod.Lex.right _ ?_
    have hne : evs ≠ [] := by simpa [Deed.receives] using hr
    unfold unpolled
    rw [if_pos hb.1, if_neg hne]
    exact Nat.lt_succ_self _
  | accept accepted =>
    obtain ⟨ev, rest, hb, -, hpos, ⟨rfl, -⟩ | ⟨cfd, -, hnew, rfl⟩⟩ := h.accept_cases hs
    · cases hr
    · exact Prod.Lex.left _ _ (load_seated (s := s.popped rest) hnew hpos)
  | recv n =>
    obtain ⟨ev, rest, fd, hb, hsrc, hcase⟩ := h.recv_cases hs
    obtain ⟨hmem, -, -, hhang, -, h0, hlt, hrec⟩ := h.event hb hsrc
    obtain ⟨hpop, hother⟩ := h.pop hb
    rw [hsrc] at hother
    rcases hcase with ⟨hempty, hhung, rfl⟩ | ⟨hpos, hle, rfl⟩
    · have hload := load_dropped (s := s.popped rest) hpop.toSeated hmem hrec
      have hshare : ((s.popped rest).hungUp fd).toNat = 1 := by
        rw [show (s.popped rest).hungUp fd = true from hhung]
        rfl
      have hsame : load (s.popped rest) = load s := rfl
      exact Prod.Lex.left _ _ (by omega)
    · have hload := load_taken (s := s.popped rest) hmem hrec hpos hle
      have hsame : load (s.popped rest) = load s := rfl
      split_ifs with hh
      · have htaken := hpop.receive h0 hlt (by rwa [← hrec] at hother) n
        have hdropped := load_dropped htaken.toSeated hmem ((taken_fd _ ev.data _ _).trans hrec)
        exact Prod.Lex.left _ _ (by omega)
      · exact Prod.Lex.left _ _ (by omega)
  | poll fd n =>
    simp only [Network.step] at hs
    split_ifs at hs with hc
    cases hs
    refine Prod.Lex.right _ ?_
    have hmem : fd ∈ members s.daemon := by
      by_contra hout
      have hempty := h.down_silent hout hc.1.2
      rw [hempty] at hc
      simp only [List.length_nil] at hc
      omega
    have hsum := sum_drop_lt (f := fun _ => 0) hmem hc.2.1 hc.2.2.1
    exact Nat.add_lt_add_right hsum _
  | connect | publish | subscribe | unsubscribe | hangUp => cases hr

end Load

/-! ## At rest -/

/-- Nothing is on the way. -/
structure AtRest (s : Network) : Prop where
  batch : s.daemon.batch = []
  backlog : s.backlog = 0
  read : ∀ fd ∈ members s.daemon, ¬ s.Pending fd
  polled : ∀ fd ∈ members s.daemon, s.hungUp fd = false → s.down fd = []

/-- The descriptor of a new connection is not one a publication came from. -/
def Fresh (s : Network) (d : Deed) : Prop := ∀ cfd, d = .accept (some cfd) → s.published cfd = []

section Rest

variable {asked : Nat → List Bytes} {took got : Nat → Bytes} {s s' : Network} {fd : Nat}
  {ev : Event} {rest : List Event} {d : Deed}

/-- What epoll reports of a steady client. -/
def Network.eventOf (s : Network) (fd : Nat) : Event where
  src := some fd
  data := (members s.daemon).idxOf fd
  readable := true
  hangup := s.hungUp fd

theorem wait_enabled (hb : s.daemon.batch = []) (hready : s.Ready ev)
    (hreported : Reported s.daemon ev) : ∃ s', s.drainStep (.wait [ev]) = some s' := by
  have hbatch : Batch s.daemon [ev] :=
    ⟨by simpa using hreported, List.nodup_singleton _, Nat.succ_le_succ (Nat.zero_le _)⟩
  have hall : ∀ ev' ∈ [ev], s.Ready ev' := by simpa using hready
  obtain ⟨s', hs⟩ : ∃ s', s.step (.wait [ev]) = some s' := by
    simp only [Network.step]
    rw [if_pos hall, Busd.step, if_pos ⟨hb, hbatch⟩]
    exact ⟨_, rfl⟩
  exact ⟨s', drainStep_eq_some.mpr ⟨trivial, rfl, hs⟩⟩

/-- There is always a descriptor that is not in use and that nothing was published from. -/
theorem Wired.exists_fresh (h : Wired asked took got s) :
    ∃ cfd, cfd ≠ s.daemon.srv ∧ cfd ∉ openFds s.daemon ∧ s.published cfd = [] := by
  obtain ⟨cfd, hcfd⟩ := Infinite.exists_notMem_finset
    (s.daemon.srv :: (openFds s.daemon ++ s.routed.map Route.sender)).toFinset
  rw [List.mem_toFinset, List.mem_cons, List.mem_append, not_or, not_or] at hcfd
  obtain ⟨hsrv, hopen, hsender⟩ := hcfd
  refine ⟨cfd, hsrv, hopen, ?_⟩
  have hup := h.gone cfd (fun hmem => hopen (members_subset _ hmem))
  rw [← (h.handled cfd).2 hup, Network.routedFrom, List.map_eq_nil_iff, List.filter_eq_nil_iff]
  intro r hr
  rw [decide_eq_true_eq]
  rintro rfl
  exact hsender (List.mem_map_of_mem (List.mem_of_mem_drop hr))

theorem Wired.accept_enabled (h : Wired asked took got s) (hb : s.daemon.batch = ev :: rest)
    (hsrc : ev.src = none) : ∃ d s', Fresh s d ∧ s.drainStep d = some s' := by
  have hev : ev ∈ s.daemon.batch := by
    rw [hb]
    exact List.mem_cons_self
  have hreported := h.inv.batch ev hev
  have hwaits := h.waits ev hev
  unfold Reported at hreported
  unfold Waits at hwaits
  simp only [hsrc] at hreported hwaits
  obtain ⟨cfd, hsrv, hopen, hpub⟩ := h.exists_fresh
  have hpossible : Possible s.daemon ev { accepted := some cfd, received := none } := by
    refine ⟨fun cfd' hacc => ?_, fun _ hr => absurd hr (Option.not_mem_none _)⟩
    cases hacc
    exact ⟨hsrv, hopen⟩
  obtain ⟨s', hs⟩ : ∃ s', s.step (.accept (some cfd)) = some s' := by
    simp only [Network.step, Network.acceptNext, hb]
    rw [if_pos ⟨hreported, hwaits⟩, Busd.step, hb]
    simp only
    rw [if_pos hpossible]
    exact ⟨_, rfl⟩
  refine ⟨.accept (some cfd), s', fun cfd' he => ?_, drainStep_eq_some.mpr ⟨trivial, rfl, hs⟩⟩
  cases he
  exact hpub

/-- A `recv` that can return lets the daemon go on. -/
theorem recvNext_enabled {n : Nat} {received : Option Bytes} (hb : s.daemon.batch = ev :: rest)
    (hsrv : ev.data ≠ s.daemon.srv)
    (hr : s.received (s.daemon.clients ev.data) n = some received)
    (hroom : ∀ bytes ∈ received,
      0 < bytes.length ∧ bytes.length ≤ avail (s.daemon.clients ev.data)) :
    ∃ s', s.recvNext n = some s' := by
  have hpossible : Possible s.daemon ev { accepted := none, received := received } :=
    ⟨fun _ hacc => absurd hacc (Option.not_mem_none _), hroom⟩
  simp only [Network.recvNext, hb]
  rw [if_neg hsrv, hr, Option.bind_some, Busd.step, hb]
  simp only
  rw [if_pos hpossible]
  exact ⟨_, rfl⟩

/-- The bytes of a `recv` that takes all of a client that has hung up, and else one. -/
theorem Wired.recv_enabled (h : Wired asked took got s) (hb : s.daemon.batch = ev :: rest)
    (hsrc : ev.src = some fd) : ∃ d s', Fresh s d ∧ s.drainStep d = some s' := by
  obtain ⟨hmem, -, hpend, hhang, hsrv, h0, hlt, hrec⟩ := h.event hb hsrc
  have hopen : fd ∈ s.daemon.conns.map Conn.fd := members_subset _ hmem
  have havail := h.avail_pos h0 hlt
  have hheld := h.held _ h0 hlt
  have htakes : ∀ n, (ev.hangup = true → n = (s.up fd).length) → TakesAll s n := by
    intro n hn ev' hev'
    rw [hb] at hev'
    cases hev'
    rw [hrec]
    exact hn
  have hgood : ¬ ((s.daemon.clients ev.data).fd ∉ s.daemon.conns.map Conn.fd ∨
      avail (s.daemon.clients ev.data) = 0) := by
    rw [hrec]
    exact not_or.mpr ⟨not_not.mpr hopen, havail.ne'⟩
  by_cases hempty : s.up fd = []
  · have hhung : s.hungUp fd = true := hpend.resolve_left (fun hne => hne hempty)
    have hr : s.received (s.daemon.clients ev.data) 0 = some none := by
      unfold Network.received
      rw [if_neg hgood, hrec, if_pos hempty, if_pos hhung]
    obtain ⟨s', hs⟩ := recvNext_enabled hb hsrv hr (fun _ hm => absurd hm (Option.not_mem_none _))
    have hplaced : Placed s (.recv 0) := htakes 0 (fun _ => by rw [hempty]; rfl)
    exact ⟨.recv 0, s', by rintro _ ⟨⟩, drainStep_eq_some.mpr ⟨hplaced, rfl, hs⟩⟩
  · obtain ⟨n, hpos, hle, hroom, hall⟩ : ∃ n, 0 < n ∧ n ≤ (s.up fd).length ∧
        n ≤ avail (s.daemon.clients ev.data) ∧ (ev.hangup = true → n = (s.up fd).length) := by
      have hlen := List.length_pos_of_ne_nil hempty
      by_cases hh : ev.hangup = true
      · have hfits := h.fits fd hmem (hhang hh)
        rw [← hrec, ← hheld, hrec] at hfits
        refine ⟨(s.up fd).length, hlen, le_rfl, ?_, fun _ => rfl⟩
        unfold avail
        omega
      · exact ⟨1, Nat.one_pos, hlen, havail, fun htrue => absurd htrue hh⟩
    have hr : s.received (s.daemon.clients ev.data) n = some (some ((s.up fd).take n)) := by
      unfold Network.received
      rw [if_neg hgood, hrec, if_neg hempty, if_pos ⟨hpos, hle, hroom⟩]
    obtain ⟨s', hs⟩ := recvNext_enabled hb hsrv hr (by
      intro bytes hbytes
      cases hbytes
      rw [List.length_take]
      omega)
    exact ⟨.recv n, s', by rintro _ ⟨⟩, drainStep_eq_some.mpr ⟨htakes n hall, rfl, hs⟩⟩

/-- **The bus is at rest or goes on.** -/
theorem Wired.progress (h : Wired asked took got s) (hrest : ¬ AtRest s) :
    ∃ d s', Fresh s d ∧ s.drainStep d = some s' := by
  cases hb : s.daemon.batch with
  | cons ev rest =>
    cases hsrc : ev.src with
    | none => exact h.accept_enabled hb hsrc
    | some fd => exact h.recv_enabled hb hsrc
  | nil =>
    by_cases hbacklog : s.backlog = 0
    · by_cases hread : ∀ fd ∈ members s.daemon, ¬ s.Pending fd
      · by_cases hpolled : ∀ fd ∈ members s.daemon, s.hungUp fd = false → s.down fd = []
        · exact absurd ⟨hb, hbacklog, hread, hpolled⟩ hrest
        · push Not at hpolled
          obtain ⟨fd, hmem, hlive, hdown⟩ := hpolled
          have hpos := List.length_pos_of_ne_nil hdown
          have hstep : s.step (.poll fd 1) = some (s.pollClient fd 1) :=
            if_pos ⟨⟨members_subset _ hmem, hlive⟩, Nat.one_pos, hpos, h.space_pos fd⟩
          exact ⟨.poll fd 1, _, by rintro _ ⟨⟩, drainStep_eq_some.mpr ⟨trivial, rfl, hstep⟩⟩
      · push Not at hread
        obtain ⟨fd, hmem, hpend⟩ := hread
        have hready : s.Ready (s.eventOf fd) := ⟨rfl, rfl, hpend⟩
        obtain ⟨s', hs⟩ := wait_enabled hb hready (h.steady fd hmem hpend).placed
        exact ⟨.wait _, s', by rintro _ ⟨⟩, hs⟩
    · have hready : s.Ready
          { src := none, data := s.daemon.srv, readable := true, hangup := false } :=
        Nat.pos_of_ne_zero hbacklog
      obtain ⟨s', hs⟩ := wait_enabled hb hready rfl
      exact ⟨.wait _, s', by rintro _ ⟨⟩, hs⟩

/-- At rest everything is handled, and delivered to whoever has not hung up. -/
theorem Wired.atRest (h : Wired asked took got s) (hrest : AtRest s) (fd : Nat) :
    s.routedFrom fd = s.published fd ∧ (s.hungUp fd = false → s.calls fd = s.due fd) := by
  constructor
  · refine (h.handled fd).2 ?_
    by_cases hmem : fd ∈ members s.daemon
    · exact not_not.mp (fun hne => hrest.read fd hmem (Or.inl hne))
    · exact h.gone fd hmem
  · intro hlive
    refine (h.delivered fd).2 ?_
    by_cases hmem : fd ∈ members s.daemon
    · exact hrest.polled fd hmem hlive
    · exact h.down_silent hmem hlive

/-- Receiving publishes nothing; a descriptor given out starts afresh. -/
theorem Wired.published_drainStep (h : Wired asked took got s) (hs : s.drainStep d = some s')
    (hfd : d ≠ .accept (some fd)) : s'.published fd = s.published fd := by
  obtain ⟨-, hr, hs⟩ := drainStep_eq_some.mp hs
  cases d with
  | wait evs =>
    simp only [Network.step] at hs
    split_ifs at hs
    obtain ⟨daemon, -, rfl⟩ := Option.map_eq_some_iff.mp hs
    rfl
  | accept accepted =>
    obtain ⟨ev, rest, -, -, -, ⟨rfl, -⟩ | ⟨cfd, rfl, -, rfl⟩⟩ := h.accept_cases hs
    · cases hr
    · have hne : fd ≠ cfd := by
        rintro rfl
        exact hfd rfl
      exact Function.update_of_ne hne ..
  | recv n =>
    obtain ⟨ev, rest, fd', -, -, ⟨-, -, rfl⟩ | ⟨-, -, rfl⟩⟩ := h.recv_cases hs
    · rfl
    · split_ifs <;> rfl
  | poll fd' n =>
    simp only [Network.step] at hs
    split_ifs at hs
    cases hs
    rfl
  | connect | publish | subscribe | unsubscribe | hangUp => cases hr

theorem Wired.drainStep (h : Wired asked took got s) (hs : s.drainStep d = some s') :
    ∃ asked' took' got', Wired asked' took' got' s' := by
  obtain ⟨hp, -, hs⟩ := drainStep_eq_some.mp hs
  exact h.step hp hs

/-- Where nothing can be received nothing is on the way. -/
theorem Wired.atRest_of_stuck (h : Wired asked took got s) (hstuck : Stuck Network.drainStep s) :
    AtRest s := by
  by_contra hrest
  obtain ⟨d, s', -, hs⟩ := h.progress hrest
  rw [hstuck d] at hs
  cases hs

end Rest

/-- The streams are wired in every state of a run that meets the condition. -/
theorem wired_of_run {srv : Nat} {ds : List Deed} {s : Network}
    (hplaced : Meets Network.step Placed (.init srv) ds)
    (hrun : run Network.step (.init srv) ds = some s) : ∃ asked took got, Wired asked took got s :=
  run_invariant_of_meets (I := fun s => ∃ asked took got, Wired asked took got s)
    (by rintro t d t' ⟨asked, took, got, ht⟩ hd hs; exact ht.step hd hs)
    ⟨_, _, _, wired_init srv⟩ hplaced hrun

/-- **The bus comes to rest.** From every state reached by a run that meets the condition: no
sequence of connections accepted, events and polls goes on for ever, however they are ordered and
however much each of them takes; and where none is possible any more the daemon has handled all
that was published, and every client that has not hung up got all it is owed. -/
theorem drains (srv : Nat) (ds : List Deed) (s : Network)
    (hplaced : Meets Network.step Placed (.init srv) ds)
    (hrun : run Network.step (.init srv) ds = some s) :
    ¬ Endless Network.drainStep s ∧
      ∀ ds' s', run Network.drainStep s ds' = some s' → Stuck Network.drainStep s' →
        ∀ fd, s'.routedFrom fd = s'.published fd ∧
          (.accept (some fd) ∉ ds' → s'.published fd = s.published fd) ∧
          (s'.hungUp fd = false → s'.calls fd = s'.due fd) := by
  have hwired := wired_of_run hplaced hrun
  refine ⟨?_, ?_⟩
  · refine not_endless (r := Prod.Lex (· < ·) (· < ·))
      (I := fun s => ∃ asked took got, Wired asked took got s) unread ?_ hwired
    rintro t d t' ⟨_, _, _, ht⟩ hs
    exact ⟨ht.drainStep hs, ht.unread_lt hs⟩
  · intro ds' s' hr hstuck fd
    obtain ⟨_, _, _, hw⟩ := run_invariant
      (I := fun s => ∃ asked took got, Wired asked took got s)
      (by rintro t d t' ⟨_, _, _, ht⟩ hs; exact ht.drainStep hs) hwired hr
    obtain ⟨hhandled, hdelivered⟩ := hw.atRest (hw.atRest_of_stuck hstuck) fd
    refine ⟨hhandled, fun hnot => ?_, hdelivered⟩
    have hsame : (∃ asked took got, Wired asked took got s') ∧
        s'.published fd = s.published fd := by
      refine run_invariant_of_meets (P := fun _ d => d ≠ .accept (some fd))
        (I := fun t => (∃ asked took got, Wired asked took got t) ∧
          t.published fd = s.published fd) ?_ ⟨hwired, rfl⟩ (meets_of_forall ?_) hr
      · rintro t d t' ⟨⟨_, _, _, ht⟩, hpub⟩ hd hs
        exact ⟨ht.drainStep hs, (ht.published_drainStep hs hd).trans hpub⟩
      · rintro d hd rfl
        exact hnot hd
    exact hsame.2

/-- A message on topic `led`. -/
def switchOn : Message where
  topic := ascii "led"
  payload := ascii " on"
  topic_word := by
    intro b hb
    rcases List.mem_cons.mp hb with rfl | hb
    · decide
    rcases List.mem_cons.mp hb with rfl | hb
    · decide
    obtain rfl : b = 0x64 := List.mem_singleton.mp hb
    decide
  payload_line := by decide

/-- A client connects and is accepted; the listening socket is 3. -/
def arrives (fd : Nat) : List Deed :=
  [.connect, .wait [{ src := none, data := 3, readable := true, hangup := false }],
    .accept (some fd)]

/-- An event of the client registered with `data`, and the `recv` behind it. -/
def isRead (fd : Nat) (data : Int) (hangup : Bool) (n : Nat) : List Deed :=
  [.wait [{ src := some fd, data := data, readable := true, hangup := hangup }], .recv n]

/-- One client subscribes, another publishes and hangs up; the message is cut in two on both
ways. -/
def twoHops : List Deed :=
  arrives 5 ++ arrives 6 ++ [.subscribe 6 (ascii "l#")] ++ isRead 6 1 false 7 ++
    [.publish 5 switchOn] ++ isRead 5 0 false 6 ++ [.hangUp 5] ++ isRead 5 0 true 6 ++
    [.poll 6 3, .poll 6 9]

/-- The message of `twoHops` halfway, and its sender gone. -/
theorem drains_halfway :
    ∃ s, run Network.step (.init 3) (twoHops.take 13) = some s ∧ s.hungUp 5 = true ∧
      ¬ Endless Network.drainStep s :=
  ⟨_, rfl, rfl, (drains 3 (twoHops.take 13) _ (by decide) rfl).1⟩

end Busd
end BuildingBlocks
