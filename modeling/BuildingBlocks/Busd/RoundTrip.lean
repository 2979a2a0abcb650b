import BuildingBlocks.Busd.Drain

/-!
# BuildingBlocks.Busd.RoundTrip

What is published arrives: from the line of the publisher through the daemon to the handlers.

* `round_trip` — publications are handled in order, every client gets the copies it is owed, and
  whatever is on the way can be received.
* `fourth_not_heard` — not so where a client stands at the number of the listening socket.
-/

namespace BuildingBlocks
namespace Busd

open Lib

section Rest

variable {asked : Nat → List Bytes} {took got : Nat → Bytes} {s : Network}

/-- The bus can be brought to rest, and no connection accepted takes the descriptor of a
publisher. -/
theorem Wired.exists_atRest (h : Wired asked took got s) :
    ∃ ds s', run Network.drainStep s ds = some s' ∧ (∃ asked took got, Wired asked took got s') ∧
      s'.published = s.published ∧ AtRest s' := by
  classical
  let step : Network → Deed → Option Network :=
    fun s d => if Fresh s d then s.drainStep d else none
  have hstep : ∀ t d t', step t d = some t' → Fresh t d ∧ t.drainStep d = some t' := by
    intro t d t' hs
    simp only [step] at hs
    split_ifs at hs with hfresh
    exact ⟨hfresh, hs⟩
  have hkeep : ∀ t d t', ((∃ asked took got, Wired asked took got t) ∧
      t.published = s.published) → step t d = some t' →
      ((∃ asked took got, Wired asked took got t') ∧ t'.published = s.published) ∧
        Prod.Lex (· < ·) (· < ·) (unread t') (unread t) := by
    rintro t d t' ⟨⟨_, _, _, ht⟩, hpub⟩ hs
    obtain ⟨hfresh, hs⟩ := hstep _ _ _ hs
    refine ⟨⟨ht.drainStep hs, ?_⟩, ht.unread_lt hs⟩
    rw [← hpub]
    funext fd
    by_cases hfd : d = .accept (some fd)
    · subst hfd
      obtain ⟨-, -, hs⟩ := drainStep_eq_some.mp hs
      obtain ⟨_, _, -, -, -, ⟨he, -⟩ | ⟨cfd, he, -, rfl⟩⟩ := ht.accept_cases hs
      · cases he
      · cases he
        rw [hfresh fd rfl]
        exact Function.update_self ..
    · exact ht.published_drainStep hs hfd
  obtain ⟨ds, s', hr, ⟨⟨_, _, _, hw⟩, hpub⟩, hstuck⟩ :=
    exists_stuck (r := Prod.Lex (· < ·) (· < ·)) unread hkeep ⟨⟨_, _, _, h⟩, rfl⟩
  refine ⟨ds, s', run_of_le (fun t d t' hs => (hstep t d t' hs).2) hr, ⟨_, _, _, hw⟩, hpub, ?_⟩
  by_contra hrest
  obtain ⟨d, t, hfresh, hs⟩ := hw.progress hrest
  have hnone := hstuck d
  simp only [step, if_pos hfresh, hs] at hnone
  cases hnone

end Rest

/-- **What is published arrives.** In every run that meets the condition, and however the streams
are cut: the daemon handles the publications of each client as they were made and in order, all of
them by the time it closes the connection; each client gets, in that order and with that topic and
payload, one call for each of its matching subscriptions, and none for its own; there is always
room to receive; and what is on the way can be received until everything published was handled and
everything owed was delivered to the clients that have not hung up. -/
theorem round_trip (srv : Nat) (ds : List Deed) (s : Network)
    (hplaced : Meets Network.step Placed (.init srv) ds)
    (hrun : run Network.step (.init srv) ds = some s) :
    (∀ fd, s.routedFrom fd <+: s.published fd ∧ s.calls fd <+: s.due fd ∧
        (s.up fd = [] → s.routedFrom fd = s.published fd) ∧
        (fd ∉ openFds s.daemon → s.routedFrom fd = s.published fd) ∧
        (s.down fd = [] → s.calls fd = s.due fd)) ∧
      (∀ i : Int, 0 ≤ i → i < s.daemon.numClients → 0 < avail (s.daemon.clients i)) ∧
      (∀ fd, 0 < pollSpace (s.bufs fd)) ∧
      ∃ ds' s', run Network.drainStep s ds' = some s' ∧
        ∀ fd, s'.routedFrom fd = s.published fd ∧
          (s'.hungUp fd = false → s'.calls fd = s'.due fd) := by
  obtain ⟨asked, took, got, hw⟩ := wired_of_run hplaced hrun
  refine ⟨?_, fun i h0 hlt => hw.avail_pos h0 hlt, hw.space_pos, ?_⟩
  · intro fd
    obtain ⟨hhandled, hup⟩ := hw.handled fd
    obtain ⟨hdelivered, hdown⟩ := hw.delivered fd
    refine ⟨hhandled, hdelivered, hup, fun hclosed => hup ?_, hdown⟩
    exact hw.gone fd (fun hmem => hclosed (members_subset _ hmem))
  · obtain ⟨ds', s', hr, ⟨_, _, _, hw'⟩, hpub, hrest⟩ := hw.exists_atRest
    refine ⟨ds', s', hr, fun fd => ?_⟩
    rw [← hpub]
    exact hw'.atRest hrest fd

/-! ## Two runs -/

theorem twoHops_arrives :
    ∃ s, run Network.step (.init 3) twoHops = some s ∧ openFds s.daemon = [6] ∧
      s.routedFrom 5 = [switchOn.call] ∧ s.calls 6 = [switchOn.call] := by
  obtain ⟨s, hs, hopen, hpub, hdown, hdue⟩ : ∃ s, run Network.step (.init 3) twoHops = some s ∧
      openFds s.daemon = [6] ∧ s.published 5 = [switchOn.call] ∧ s.down 6 = [] ∧
      s.due 6 = [switchOn.call] :=
    ⟨_, rfl, rfl, rfl, rfl, rfl⟩
  obtain ⟨hall, -⟩ := round_trip 3 twoHops s (by decide) hs
  refine ⟨s, hs, hopen, ?_, ?_⟩
  · rw [(hall 5).2.2.2.1 (by rw [hopen]; decide), hpub]
  · rw [(hall 6).2.2.2.2 hdown, hdue]

/-- Four clients: the first subscribes, the fourth publishes. Its place is the number of the
listening socket. -/
def fourthPublishes : List Deed :=
  arrives 5 ++ arrives 6 ++ arrives 7 ++ arrives 8 ++ [.subscribe 5 (ascii "led")] ++
    isRead 5 0 false 8 ++ [.publish 8 switchOn]

/-- A network where only the event of a client at place 3 can be reported, and nothing waits for
the `accept` it reaches. -/
structure Deaf (s : Network) : Prop where
  srv : s.daemon.srv = 3
  backlog : s.backlog = 0
  down : ∀ fd ∈ openFds s.daemon, s.down fd = []
  batch : ∀ ev ∈ s.daemon.batch, ev.data = 3
  ready : ∀ ev, s.Ready ev → Reported s.daemon ev → ev.data = 3

theorem Deaf.receiveStep {s s' : Network} {d : Deed} (h : Deaf s)
    (hs : s.receiveStep d = some s') :
    Deaf s' ∧ s'.calls = s.calls ∧ s'.routed = s.routed := by
  unfold Network.receiveStep at hs
  split_ifs at hs with hr
  cases d with
  | wait evs =>
    simp only [Network.step] at hs
    split_ifs at hs with hready
    obtain ⟨daemon, hd, rfl⟩ := Option.map_eq_some_iff.mp hs
    simp only [Busd.step] at hd
    split_ifs at hd with hb
    cases hd
    exact ⟨⟨h.srv, h.backlog, h.down, fun ev hev => h.ready ev (hready ev hev) (hb.2.1 ev hev),
      h.ready⟩, rfl, rfl⟩
  | accept accepted =>
    simp only [Network.step, Network.acceptNext] at hs
    split at hs
    · cases hs
    · split_ifs at hs with hc
      exact absurd hc.2 (by rw [h.backlog]; exact lt_irrefl 0)
  | recv n =>
    simp only [Network.step, Network.recvNext] at hs
    split at hs
    · cases hs
    · rename_i ev rest hb
      have hdata : ev.data = s.daemon.srv := by
        rw [h.srv]
        exact h.batch ev (by rw [hb]; exact List.mem_cons_self)
      rw [if_pos hdata] at hs
      cases hs
  | poll fd n =>
    simp only [Network.step] at hs
    split_ifs at hs with hc
    rw [h.down fd hc.1.1, List.length_nil] at hc
    omega
  | connect | publish | subscribe | unsubscribe | hangUp => cases hr

theorem fourth_not_heard :
    ∃ s, run Network.step (.init 3) fourthPublishes = some s ∧
      s.published 8 = [switchOn.call] ∧
      s.daemon.subs = [{ topic := ascii "led", clientIds := [5] }] ∧
      ∀ ds s', run Network.receiveStep s ds = some s' → s'.calls 5 = [] ∧ s'.routed = [] := by
  obtain ⟨s, hs, hpub, hsubs, hsrv, hbatch, hbacklog, hconns, hhung, hup, hdown, hcalls, hrouted⟩ :
      ∃ s, run Network.step (.init 3) fourthPublishes = some s ∧
        s.published 8 = [switchOn.call] ∧
        s.daemon.subs = [{ topic := ascii "led", clientIds := [5] }] ∧ s.daemon.srv = 3 ∧
        s.daemon.batch = [] ∧ s.backlog = 0 ∧
        s.daemon.conns = [⟨5, some 0⟩, ⟨6, some 1⟩, ⟨7, some 2⟩, ⟨8, some 3⟩] ∧
        (∀ fd ∈ [5, 6, 7], s.hungUp fd = false) ∧ (∀ fd ∈ [5, 6, 7], s.up fd = []) ∧
        (∀ fd ∈ [5, 6, 7, 8], s.down fd = []) ∧ s.calls 5 = [] ∧ s.routed = [] :=
    ⟨_, rfl, rfl, rfl, rfl, rfl, rfl, rfl, by decide, by decide, by decide, rfl, rfl⟩
  have hdeaf : Deaf s := by
    refine ⟨hsrv, hbacklog, ?_, ?_, ?_⟩
    · rw [openFds, hconns]
      exact hdown
    · rw [hbatch]
      exact fun _ h => absurd h List.not_mem_nil
    · rintro ⟨src, data, readable, hangup⟩ hready hreported
      cases src with
      | none =>
        have hpos : 0 < s.backlog := hready
        rw [hbacklog] at hpos
        exact absurd hpos (lt_irrefl 0)
      | some fd =>
        have hmem : (⟨fd, some data⟩ : Conn) ∈ s.daemon.conns := hreported
        -- the other three clients have sent nothing
        have hquiet : fd ∉ [5, 6, 7] := by
          intro hfd
          rcases hready.2.2 with hne | hh
          · exact hne (hup fd hfd)
          · rw [hhung fd hfd] at hh
            cases hh
        rw [hconns] at hmem
        simp only [List.mem_cons, List.not_mem_nil, or_false, Conn.mk.injEq,
          Option.some.injEq] at hmem hquiet
        show data = 3
        omega
  refine ⟨s, hs, hpub, hsubs, ?_⟩
  intro ds s' hr
  obtain ⟨-, hcalls', hrouted'⟩ := run_invariant
    (I := fun t => Deaf t ∧ t.calls = s.calls ∧ t.routed = s.routed)
    (by
      rintro t d t' ⟨ht, hc, hr'⟩ hstep
      obtain ⟨ht', hc', hr''⟩ := ht.receiveStep hstep
      exact ⟨ht', hc'.trans hc, hr''.trans hr'⟩)
    ⟨hdeaf, rfl, rfl⟩ hr
  rw [hcalls', hrouted']
  exact ⟨hcalls, hrouted⟩

end Busd
end BuildingBlocks
