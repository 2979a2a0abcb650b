import BuildingBlocks.Busd.Wired

/-!
# BuildingBlocks.Busd.Iterate

What the event loop of the daemon does to the streams.

* One lemma for each part of an iteration: `Wired.pop`, `Wired.connected`, `Wired.seat` and
  `Wired.leave`, `Wired.receive`, `Wired.remove`.
* `Wired.accept_cases` and `Wired.recv_cases` say what an iteration can be.
* `Wired.step` — every step of a run that meets the condition keeps the streams wired.
-/

namespace BuildingBlocks
namespace Busd

open Lib

section Iterate

variable {asked : Nat → List Bytes} {took got : Nat → Bytes} {s s' : Network} {fd cfd n : Nat}
  {idx : Int} {ev : Event} {rest : List Event}

/-! ## Taking an event -/

theorem Wired.wait (h : Wired asked took got s) {evs : List Event} (hready : ∀ ev ∈ evs, s.Ready ev)
    (hbatch : Batch s.daemon evs) :
    Wired asked took got { s with daemon := { s.daemon with batch := evs } } := by
  have hbatch' : Batch (registered s.daemon) evs :=
    ⟨fun ev hev => reported_registered.mpr (hbatch.1 ev hev), hbatch.2⟩
  have hinv := h.inv.wait hbatch'
  refine ⟨⟨hinv, ?_, h.gone, ?_⟩, h.ids, h.listed, h.silent, h.fits, h.held, h.publishable,
    fun fd => (h.tied fd).congr rfl rfl rfl rfl rfl rfl rfl⟩
  · intro ev hev
    have hr := hready ev hev
    unfold Network.Ready at hr
    unfold Waits
    split
    · rename_i hsrc
      simpa only [hsrc] using hr
    · rename_i fd hsrc
      simp only [hsrc] at hr
      exact ⟨hr.1, hr.2.2, fun hhang => hr.2.1 ▸ hhang⟩
  · intro fd hfd hp
    have hsteady := h.steady fd hfd hp
    exact ⟨hsteady.placed, hsteady.inSight, hsteady.older⟩

/-- The next event is taken from the batch. -/
theorem Wired.pop (h : Wired asked took got s) (hb : s.daemon.batch = ev :: rest) :
    Wired asked took got (s.popped rest) ∧ ∀ ev' ∈ rest, ev'.src ≠ ev.src := by
  obtain ⟨hinv, -, hother⟩ := h.inv.pop hb
  refine ⟨⟨⟨hinv, ?_, h.gone, ?_⟩, h.ids, h.listed, h.silent, h.fits, h.held, h.publishable,
    fun fd => (h.tied fd).congr rfl rfl rfl rfl rfl rfl rfl⟩, hother⟩
  · intro ev' hev'
    refine (h.waits ev' ?_).mono (fun _ => le_rfl) (fun _ _ hp => hp) (fun _ _ hh => hh)
    rw [hb]
    exact List.mem_cons_of_mem _ hev'
  · intro fd hfd hp
    have hsteady := h.steady fd hfd hp
    exact ⟨hsteady.placed, hsteady.inSight, hsteady.older⟩

/-! ## Accepting -/

/-- The streams of a descriptor that is given out start afresh. -/
theorem Wired.tied_connected (h : Wired asked took got s) (cfd fd : Nat) :
    Tied (Function.update asked cfd [] fd) (Function.update took cfd [] fd)
      (Function.update got cfd [] fd) (s.connected cfd) fd := by
  by_cases hfd : fd = cfd
  · subst hfd
    simp only [Function.update_self]
    exact tied_fresh (Function.update_self ..) (Function.update_self ..)
      (Function.update_self ..) (Function.update_self ..) (Function.update_self ..)
      (Function.update_self ..)
  · simp only [Function.update_of_ne hfd]
    exact (h.tied fd).congr (Function.update_of_ne hfd ..) (Function.update_of_ne hfd ..)
      (Function.update_of_ne hfd ..) (Function.update_of_ne hfd ..)
      (Function.update_of_ne hfd ..) (Function.update_of_ne hfd ..) rfl

theorem connected_up (hfd : fd ≠ cfd) : (s.connected cfd).up fd = s.up fd :=
  Function.update_of_ne hfd ..

theorem connected_hungUp (hfd : fd ≠ cfd) : (s.connected cfd).hungUp fd = s.hungUp fd :=
  Function.update_of_ne hfd ..

theorem Wired.seated_connected (h : Wired asked took got s) (hnew : cfd ∉ members s.daemon)
    (hother : ∀ ev ∈ s.daemon.batch, ev.src ≠ none) : Seated (s.connected cfd) := by
  have hne : ∀ {fd}, fd ∈ members s.daemon → fd ≠ cfd := by
    rintro fd hfd rfl
    exact hnew hfd
  refine ⟨h.inv, ?_, ?_, ?_⟩
  · intro ev hev
    have hmem : ∀ fd, ev.src = some fd → fd ≠ cfd :=
      fun fd hsrc => hne ((h.inv.batch ev hev).mem_openFds hsrc)
    refine (h.waits ev hev).mono (fun hsrc => absurd hsrc (hother ev hev)) ?_ ?_
    · intro fd hsrc hp
      rwa [Network.Pending, connected_up (hmem fd hsrc), connected_hungUp (hmem fd hsrc)]
    · intro fd hsrc hh
      rwa [connected_hungUp (hmem fd hsrc)]
  · intro fd hfd
    by_cases hcfd : fd = cfd
    · subst hcfd
      exact Function.update_self ..
    · rw [connected_up hcfd]
      exact h.gone fd hfd
  · intro fd hfd hp
    rw [Network.Pending, connected_up (hne hfd), connected_hungUp (hne hfd)] at hp
    have hsteady := h.steady fd hfd hp
    refine ⟨hsteady.placed, hsteady.inSight, fun x hx => ?_⟩
    rw [connected_hungUp (hne (ahead_subset _ _ hx))]
    exact hsteady.older x hx

/-- A descriptor that is given out is nobody's yet. -/
theorem Wired.connected (h : Wired asked took got s) (hnew : cfd ∉ members s.daemon)
    (hother : ∀ ev ∈ s.daemon.batch, ev.src ≠ none) :
    Wired (Function.update asked cfd []) (Function.update took cfd [])
      (Function.update got cfd []) (s.connected cfd) := by
  have hne : ∀ {fd}, fd ∈ members s.daemon → fd ≠ cfd := by
    rintro fd hfd rfl
    exact hnew hfd
  refine ⟨h.seated_connected hnew hother, h.ids, h.listed, ?_, ?_, ?_, h.publishable,
    h.tied_connected cfd⟩
  · intro fd hfd hlive
    by_cases hcfd : fd = cfd
    · subst hcfd
      simp [Network.due, Network.recent, Network.connected]
    · rw [connected_hungUp hcfd] at hlive
      have hdue : (s.connected cfd).due fd = s.due fd := by
        simp only [Network.due, Network.recent, Network.connected, Function.update_of_ne hcfd]
      rw [hdue]
      exact h.silent fd hfd hlive
  · intro fd hfd hh
    rw [connected_hungUp (hne hfd)] at hh
    rw [connected_up (hne hfd), Function.update_of_ne (hne hfd)]
    exact h.fits fd hfd hh
  · intro i h0 hlt
    have hcfd : ((s.connected cfd).daemon.clients i).fd ≠ cfd := hne (h.mem_members h0 hlt)
    rw [Function.update_of_ne hcfd]
    exact h.held i h0 hlt

theorem Wired.seated_seat (h : Wired asked took got s) (hnew : cfd ∉ members s.daemon)
    (hroom : s.daemon.numClients < maxClients) (hlive : s.hungUp cfd = false) :
    Seated { s with daemon := acceptClient (some cfd) s.daemon } := by
  have hmembers : members (acceptClient (some cfd) s.daemon) = members s.daemon ++ [cfd] :=
    members_accept hroom
  have hinv : Inv (acceptClient (some cfd) (registered s.daemon)) := h.inv.accept hnew hroom
  rw [acceptClient_registered hroom] at hinv
  refine ⟨hinv, ?_, ?_, ?_⟩
  · intro ev hev
    rw [acceptClient_room hroom] at hev
    exact (h.waits ev hev).mono (fun _ => le_rfl) (fun _ _ hp => hp) (fun _ _ hh => hh)
  · intro fd hfd
    rw [hmembers, List.mem_append, not_or] at hfd
    exact h.gone fd hfd.1
  · intro fd hfd hp
    rw [hmembers] at hfd
    rcases List.mem_append.mp hfd with hmem | hmem
    · have hsteady := h.steady fd hmem hp
      refine ⟨?_, ?_, ?_⟩
      · rw [hmembers, List.idxOf_append_of_mem hmem, acceptClient_room hroom]
        exact List.mem_append_left _ hsteady.placed
      · rw [hmembers, List.idxOf_append_of_mem hmem, acceptClient_room hroom]
        exact hsteady.inSight
      · rw [hmembers, ahead_append hmem]
        exact hsteady.older
    · obtain rfl := List.mem_singleton.mp hmem
      rcases hp with hup | hhung
      · exact absurd (h.gone fd hnew) hup
      · rw [show s.hungUp fd = true from hhung] at hlive
        cases hlive

/-- A descriptor without streams takes the next place of the table. -/
theorem Wired.seat (h : Wired asked took got s) (hnew : cfd ∉ openFds s.daemon)
    (hroom : s.daemon.numClients < maxClients) (htook : took cfd = [])
    (hlive : s.hungUp cfd = false) :
    Wired asked took got { s with daemon := acceptClient (some cfd) s.daemon } := by
  have hnew' : cfd ∉ members s.daemon := fun hmem => hnew (members_subset _ hmem)
  have hmembers : members (acceptClient (some cfd) s.daemon) = members s.daemon ++ [cfd] :=
    members_accept hroom
  refine ⟨h.seated_seat hnew' hroom hlive, ?_, ?_, ?_, ?_, ?_, h.publishable, fun fd =>
    (h.tied fd).congr rfl rfl rfl rfl rfl rfl rfl⟩
  · rw [acceptClient_room hroom]
    exact h.ids
  · rw [hmembers, acceptClient_room hroom]
    exact fun e he => List.Subset.trans (h.listed e he) (List.subset_append_left _ _)
  · intro fd hfd
    rw [hmembers, List.mem_append, not_or] at hfd
    exact h.silent fd hfd.1
  · intro fd hfd hhung
    rw [hmembers] at hfd
    rcases List.mem_append.mp hfd with hmem | hmem
    · exact h.fits fd hmem hhung
    · obtain rfl := List.mem_singleton.mp hmem
      rw [show s.hungUp fd = true from hhung] at hlive
      cases hlive
  · intro i h0 hlt
    rw [acceptClient_room hroom] at hlt ⊢
    by_cases hi : i = s.daemon.numClients
    · subst hi
      simp only [Function.update_self, htook, cut_nil]
    · simp only [Function.update_of_ne hi]
      have hlt' : i < s.daemon.numClients + 1 := hlt
      exact h.held i h0 (by omega)

/-- A connection accepted at `MAX_CLIENTS` changes nothing the daemon looks at. -/
theorem Wired.leave (h : Wired asked took got s) (hfull : ¬ s.daemon.numClients < maxClients) :
    Wired asked took got { s with daemon := acceptClient (some cfd) s.daemon } := by
  have hsame : registered (acceptClient (some cfd) s.daemon) = registered s.daemon :=
    registered_full hfull
  have hmembers : members (acceptClient (some cfd) s.daemon) = members s.daemon :=
    congrArg openFds hsame
  rw [acceptClient_full hfull] at hsame hmembers ⊢
  refine ⟨⟨?_, ?_, ?_, ?_⟩, h.ids, ?_, ?_, ?_, h.held, h.publishable, fun fd =>
    (h.tied fd).congr rfl rfl rfl rfl rfl rfl rfl⟩
  · rw [hsame]
    exact h.inv
  · intro ev hev
    exact (h.waits ev hev).mono (fun _ => le_rfl) (fun _ _ hp => hp) (fun _ _ hh => hh)
  · rw [hmembers]
    exact h.gone
  · intro fd hfd hp
    rw [hmembers] at hfd
    have hsteady := h.steady fd hfd hp
    refine ⟨?_, ?_, ?_⟩
    · rw [hmembers]
      exact List.mem_append_left _ hsteady.placed
    · rw [hmembers]
      exact hsteady.inSight
    · rw [hmembers]
      exact hsteady.older
  · rw [hmembers]
    exact h.listed
  · rw [hmembers]
    exact h.silent
  · rw [hmembers]
    exact h.fits

/-! ## Reading -/

/-- The lines the daemon reads in an event are the next of those the client sent. -/
theorem Wired.event_lines (h : Wired asked took got s) (h0 : 0 ≤ idx)
    (hlt : idx < s.daemon.numClients) (n : Nat) :
    let fd := (s.daemon.clients idx).fd
    let bytes := (s.up fd).take n
    lines ((s.daemon.clients idx).buf ++ bytes) = cut 0x0a ((cut 0x0a (took fd)).2 ++ bytes) ∧
      ∀ l ∈ handed s.daemon (idx, bytes), Asks l := by
  intro fd bytes
  have ht := h.tied fd
  have hheld := h.held idx h0 hlt
  have htext := ht.text_up
  rw [List.mem_append, not_or] at htext
  have h1 : 0 ∉ (cut 0x0a (took fd)).2 ++ bytes := by
    rw [List.mem_append, not_or]
    exact ⟨fun hm => htext.1 (mem_of_mem_rest hm), fun hm => htext.2 (List.mem_of_mem_take hm)⟩
  have hlines : lines ((s.daemon.clients idx).buf ++ bytes) =
      cut 0x0a ((cut 0x0a (took fd)).2 ++ bytes) := by
    rw [hheld, lines_eq_cut h1]
  refine ⟨hlines, ?_⟩
  intro l hl
  rw [handed, hlines] at hl
  have hpre := frames_prefix (d := (0x0a : UInt8)) (took fd ++ bytes) ((s.up fd).drop n)
  rw [List.append_assoc, List.take_append_drop, ht.upstream, ht.cut_asked, cut_append] at hpre
  exact ht.asks l (hpre.subset (List.mem_append_right _ hl))

/-- The publications one `recv` brings. -/
def Network.brought (s : Network) (idx : Int) (n : Nat) : List Route :=
  publications s.daemon idx (some ((s.up (s.daemon.clients idx).fd).take n))

theorem Tied.recent_taken (h : Tied (asked fd) (took fd) (got fd) s fd) (idx : Int) (n : Nat) :
    (s.taken idx n).recent fd = s.recent fd ++ s.brought idx n :=
  List.drop_append_of_le_length h.since

theorem Tied.due_taken (h : Tied (asked fd) (took fd) (got fd) s fd) (idx : Int) (n : Nat) :
    (s.taken idx n).due fd = s.due fd ++
      (s.brought idx n).flatMap (fun r => List.replicate (r.copies fd) r.call) := by
  rw [Network.due, h.recent_taken, List.flatMap_append]
  rfl

/-- What one `recv` brings: publications of its client, what they send, and the table they are
handled with. -/
theorem Wired.brought (h : Wired asked took got s) (h0 : 0 ≤ idx)
    (hlt : idx < s.daemon.numClients) (n : Nat) :
    (∀ r ∈ s.brought idx n, r.sender = (s.daemon.clients idx).fd ∧
      (∃ m, Publishable m ∧ r.call = m.call) ∧ ∀ e ∈ r.subs, e.clientIds ⊆ members s.daemon) ∧
      (∀ fd, (s.taken idx n).down fd = s.down fd ++ join 0x0a (((s.brought idx n).flatMap
        (fun r => List.replicate (r.copies fd) r.call)).map callLine)) ∧
      ∀ e ∈ (s.taken idx n).daemon.subs, e.clientIds.Nodup ∧ e.clientIds ⊆ members s.daemon := by
  obtain ⟨-, hasks⟩ := h.event_lines h0 hlt n
  obtain ⟨hcalls, hsender, hbytes, hids⟩ :=
    handleLines_routes hasks h.ids (s.daemon.clients idx).fd
  obtain ⟨hrouteSubs, hsubs⟩ := (kept_subset (h.mem_members h0 hlt)).routes
    (handed s.daemon (idx, (s.up (s.daemon.clients idx).fd).take n)) h.listed
  refine ⟨fun r hr => ⟨hsender r hr, ?_, hrouteSubs r hr⟩, ?_, fun e he => ⟨hids e he, hsubs e he⟩⟩
  · have hmem := List.mem_map_of_mem (f := Route.call) hr
    rw [Network.brought, publications, hcalls] at hmem
    obtain ⟨l, hl, hcall⟩ := List.mem_filterMap.mp hmem
    exact lineCall_eq_some (hasks l hl) hcall
  · intro fd
    have hout : (s.taken idx n).daemon.sent.drop s.daemon.sent.length =
        (handleLines (s.daemon.clients idx).fd
          (handed s.daemon (idx, (s.up (s.daemon.clients idx).fd).take n)) s.daemon.subs).2 :=
      List.drop_left
    have hdown : (s.taken idx n).down fd = s.down fd ++
        bytesTo fd ((s.taken idx n).daemon.sent.drop s.daemon.sent.length) := rfl
    rw [hdown, hout, hbytes]
    rfl

/-- The streams of the client that is read, and those of the others. -/
theorem Wired.tied_taken (h : Wired asked took got s) (h0 : 0 ≤ idx)
    (hlt : idx < s.daemon.numClients) (n fd : Nat) :
    Tied (asked fd)
      (Function.update took (s.daemon.clients idx).fd
        (took (s.daemon.clients idx).fd ++ (s.up (s.daemon.clients idx).fd).take n) fd)
      (got fd) (s.taken idx n) fd := by
  obtain ⟨hlines, hasks⟩ := h.event_lines h0 hlt n
  obtain ⟨hcalls, -, -, -⟩ := handleLines_routes hasks h.ids (s.daemon.clients idx).fd
  obtain ⟨hbrought, hdown, -⟩ := h.brought h0 hlt n
  have ht := h.tied fd
  have hup := congrFun (taken_up s idx n) fd
  have hsince : s.since fd ≤ (s.taken idx n).routed.length := by
    have hrouted : (s.taken idx n).routed = s.routed ++ s.brought idx n := rfl
    rw [hrouted, List.length_append]
    exact ht.since.trans (Nat.le_add_right _ _)
  have hdownstream : got fd ++ (s.taken idx n).down fd =
      join 0x0a (((s.taken idx n).due fd).map callLine) := by
    rw [hdown, ht.due_taken, List.map_append, join_append, ← List.append_assoc, ht.downstream]
  by_cases hfd : fd = (s.daemon.clients idx).fd
  · rw [hfd, Function.update_self] at hup ⊢
    rw [hfd] at ht hsince hdownstream
    refine ⟨ht.asks, hsince, ?_, ht.published, ?_, hdownstream, ht.bufs, ht.calls⟩
    · rw [hup, List.append_assoc, List.take_append_drop]
      exact ht.upstream
    · have hall : (s.brought idx n).filter
          (fun r => decide (r.sender = (s.daemon.clients idx).fd)) = s.brought idx n :=
        List.filter_eq_self.mpr (fun r hr => decide_eq_true (hbrought r hr).1)
      rw [Network.routedFrom, ht.recent_taken, List.filter_append, List.map_append, hall,
        cut_append, List.filterMap_append]
      congr 1
      · exact ht.routedFrom
      · rw [Network.brought, publications, hcalls, handed, hlines]
  · rw [Function.update_of_ne hfd] at hup ⊢
    refine ⟨ht.asks, hsince, ?_, ht.published, ?_, hdownstream, ht.bufs, ht.calls⟩
    · rw [hup]
      exact ht.upstream
    · have hnone : (s.brought idx n).filter (fun r => decide (r.sender = fd)) = [] := by
        refine List.filter_eq_nil_iff.mpr (fun r hr => ?_)
        rw [(hbrought r hr).1, decide_eq_true_eq]
        exact Ne.symm hfd
      rw [Network.routedFrom, ht.recent_taken, List.filter_append, List.map_append, hnone,
        List.map_nil, List.append_nil]
      exact ht.routedFrom

/-- What waits of a client after the `recv` waited before. -/
theorem pending_of_taken {fd' : Nat} (hp : (s.taken idx n).Pending fd') : s.Pending fd' := by
  refine hp.imp_left (fun hne hempty => hne ?_)
  rw [taken_up]
  by_cases hsame : fd' = (s.daemon.clients idx).fd
  · rw [hsame, Function.update_self, ← hsame, hempty, List.drop_nil]
  · rw [Function.update_of_ne hsame, hempty]

theorem Wired.seated_taken (h : Wired asked took got s) (h0 : 0 ≤ idx)
    (hlt : idx < s.daemon.numClients)
    (hother : ∀ ev ∈ s.daemon.batch, ev.src ≠ some (s.daemon.clients idx).fd) (n : Nat) :
    Seated (s.taken idx n) := by
  have hopen := h.mem_members h0 hlt
  have hserve : Inv (serveClient ⟨some (s.daemon.clients idx).fd, idx, true, false⟩
      (some ((s.up (s.daemon.clients idx).fd).take n)) (registered s.daemon)) := by
    refine h.inv.serve hopen ?_ hother _
    exact (h.idxOf_eq_iff hopen).mpr ⟨h0, hlt, rfl⟩
  refine ⟨hserve, ?_, ?_, ?_⟩
  · intro ev hev
    refine (h.waits ev hev).mono (fun _ => le_rfl) ?_ (fun _ _ hh => hh)
    intro fd' hsrc hp
    have hne : fd' ≠ (s.daemon.clients idx).fd := by
      rintro rfl
      exact hother ev hev hsrc
    rwa [Network.Pending, taken_up, Function.update_of_ne hne]
  · intro fd' hfd'
    have hne : fd' ≠ (s.daemon.clients idx).fd := by
      rintro rfl
      exact hfd' hopen
    rw [taken_up, Function.update_of_ne hne]
    exact h.gone fd' hfd'
  · intro fd' hfd' hp
    have hsteady := h.steady fd' hfd' (pending_of_taken hp)
    exact ⟨hsteady.placed, hsteady.inSight, hsteady.older⟩

/-- What a client has sent that hung up goes into its buffer still. -/
theorem Wired.fits_taken (h : Wired asked took got s) {fd' : Nat}
    (hfd' : fd' ∈ members s.daemon) (hhung : s.hungUp fd' = true) :
    (cut 0x0a (Function.update took (s.daemon.clients idx).fd
        (took (s.daemon.clients idx).fd ++ (s.up (s.daemon.clients idx).fd).take n) fd')).2.length +
      ((s.taken idx n).up fd').length < bufferSize := by
  have hold := h.fits fd' hfd' hhung
  rw [taken_up]
  set fd := (s.daemon.clients idx).fd
  by_cases hne : fd' = fd
  · rw [hne] at hold ⊢
    have hrest := length_cut (d := (0x0a : UInt8)) ((cut 0x0a (took fd)).2 ++ (s.up fd).take n)
    have hlen := congrArg List.length (List.take_append_drop n (s.up fd))
    rw [List.length_append] at hrest hlen
    rw [Function.update_self, Function.update_self, cut_append (took fd)]
    simp only
    omega
  · rw [Function.update_of_ne hne, Function.update_of_ne hne]
    exact hold

theorem Wired.held_taken (h : Wired asked took got s) (h0 : 0 ≤ idx)
    (hlt : idx < s.daemon.numClients) {i : Int} (hi0 : 0 ≤ i)
    (hilt : i < (s.taken idx n).daemon.numClients) :
    ((s.taken idx n).daemon.clients i).buf =
      (cut 0x0a (Function.update took (s.daemon.clients idx).fd
        (took (s.daemon.clients idx).fd ++ (s.up (s.daemon.clients idx).fd).take n)
        ((s.taken idx n).daemon.clients i).fd)).2 := by
  obtain ⟨hlines, -⟩ := h.event_lines h0 hlt n
  have hclients := receive_clients s.daemon (idx, (s.up (s.daemon.clients idx).fd).take n)
  rw [taken_fd]
  by_cases hi : i = idx
  · subst hi
    have hclient : ((s.taken i n).daemon.clients i).buf =
        (lines ((s.daemon.clients i).buf ++ (s.up (s.daemon.clients i).fd).take n)).2 := by
      simp only [Network.taken, Network.passOn, hclients, Function.update_self]
    rw [hclient, hlines, Function.update_self, cut_append (took _)]
  · have hclient : (s.taken idx n).daemon.clients i = s.daemon.clients i := by
      simp only [Network.taken, Network.passOn, hclients, Function.update_of_ne hi]
    have hne : (s.daemon.clients i).fd ≠ (s.daemon.clients idx).fd :=
      fun heq => hi (h.fd_inj ⟨hi0, hilt⟩ ⟨h0, hlt⟩ heq)
    rw [hclient, Function.update_of_ne hne]
    exact h.held i hi0 hilt

/-- A `recv` of a client that no other event of the batch is for. -/
theorem Wired.receive (h : Wired asked took got s) (h0 : 0 ≤ idx)
    (hlt : idx < s.daemon.numClients)
    (hother : ∀ ev ∈ s.daemon.batch, ev.src ≠ some (s.daemon.clients idx).fd) (n : Nat) :
    Wired asked
      (Function.update took (s.daemon.clients idx).fd
        (took (s.daemon.clients idx).fd ++ (s.up (s.daemon.clients idx).fd).take n))
      got (s.taken idx n) := by
  obtain ⟨hbrought, -, hsubs⟩ := h.brought h0 hlt n
  refine ⟨h.seated_taken h0 hlt hother n, fun e he => (hsubs e he).1, fun e he => (hsubs e he).2,
    ?_, fun _ => h.fits_taken, fun _ => h.held_taken h0 hlt, ?_, h.tied_taken h0 hlt n⟩
  · intro fd' hfd' hlive
    rw [(h.tied fd').due_taken, h.silent fd' hfd' hlive, List.nil_append, List.flatMap_eq_nil_iff]
    intro r hr
    have hnone : listing r.subs fd' r.call.1 = [] := by
      refine List.filter_eq_nil_iff.mpr (fun e he => ?_)
      have hmem : fd' ∉ e.clientIds := fun hm => hfd' ((hbrought r hr).2.2 e he hm)
      simp [hmem]
    rw [Route.copies, hnone, List.length_nil, ite_self, List.replicate_zero]
  · intro r hr
    rcases List.mem_append.mp hr with hr | hr
    · exact h.publishable r hr
    · exact (hbrought r hr).2.1

/-! ## Removing -/

/-- What `remove_client` leaves in an entry of the table. -/
theorem dropClient_perm {subs : List Sub} {e : Sub} (he : e ∈ dropClient fd subs) :
    ∃ e' ∈ subs, e.clientIds.Perm (e'.clientIds.filter (· ≠ fd)) := by
  obtain ⟨e', he', rfl⟩ := List.mem_map.mp he
  exact ⟨e', he', dropAll_perm fd le_rfl⟩

/-- The records that are left are records there were. -/
theorem removeClient_record {d : State} {i : Int} (h0 : 0 ≤ i)
    (hlt : i < (removeClient idx d).numClients) :
    ∃ j, 0 ≤ j ∧ j < d.numClients ∧ (removeClient idx d).clients i = d.clients j := by
  have hlt' : i < d.numClients - 1 := hlt
  simp only [removeClient]
  split_ifs
  · by_cases hmoved : idx ≤ i ∧ i < d.numClients - 1
    · exact ⟨i + 1, by omega, by omega, if_pos hmoved⟩
    · exact ⟨i, h0, by omega, if_neg hmoved⟩
  · exact ⟨i, h0, by omega, rfl⟩

theorem mem_members_dropped {fd' : Nat} : fd' ∈ members (s.dropped idx).daemon ↔
    fd' ∈ members s.daemon ∧ fd' ≠ (s.daemon.clients idx).fd := by
  have hmembers : members (s.dropped idx).daemon =
      (members s.daemon).filter (· ≠ (s.daemon.clients idx).fd) := members_remove idx s.daemon
  rw [hmembers, List.mem_filter, decide_eq_true_eq]

/-- A client in front of the removed one stands where it stood. -/
theorem Steady.dropped {fd' : Nat} (hsteady : Steady s fd') (hold : fd' ∈ members s.daemon)
    (hne : fd' ≠ (s.daemon.clients idx).fd)
    (hhung : s.hungUp (s.daemon.clients idx).fd = true) : Steady (s.dropped idx) fd' := by
  have hmembers : members (s.dropped idx).daemon =
      (members s.daemon).filter (· ≠ (s.daemon.clients idx).fd) := members_remove idx s.daemon
  have hconns : (s.dropped idx).daemon.conns =
      s.daemon.conns.filter (fun c => c.fd ≠ (s.daemon.clients idx).fd) := rfl
  have hnotAhead : (s.daemon.clients idx).fd ∉ ahead (members s.daemon) fd' := by
    intro hm
    rw [hsteady.older _ hm] at hhung
    cases hhung
  obtain ⟨hidxOf, hahead⟩ := ahead_filter hold hne hnotAhead
  refine ⟨?_, ?_, ?_⟩
  · rw [hmembers, hidxOf, hconns, List.mem_filter, decide_eq_true_eq]
    exact ⟨hsteady.placed, hne⟩
  · rw [hmembers, hidxOf]
    exact hsteady.inSight
  · rw [hmembers, hahead]
    exact hsteady.older

theorem Wired.seated_dropped (h : Wired asked took got s) (h0 : 0 ≤ idx)
    (hlt : idx < s.daemon.numClients)
    (hother : ∀ ev ∈ s.daemon.batch, ev.src ≠ some (s.daemon.clients idx).fd)
    (hhung : s.hungUp (s.daemon.clients idx).fd = true)
    (hempty : s.up (s.daemon.clients idx).fd = []) : Seated (s.dropped idx) := by
  have hopen := h.mem_members h0 hlt
  have hinv : Inv (registered (s.dropped idx).daemon) := by
    have hserve : Inv (serveClient ⟨some (s.daemon.clients idx).fd, idx, true, false⟩ none
        (registered s.daemon)) := by
      refine h.inv.serve hopen ?_ hother none
      exact (h.idxOf_eq_iff hopen).mpr ⟨h0, hlt, rfl⟩
    rw [Network.dropped, ← removeClient_registered]
    exact hserve
  refine ⟨hinv, ?_, ?_, ?_⟩
  · intro ev hev
    exact (h.waits ev hev).mono (fun _ => le_rfl) (fun _ _ hp => hp) (fun _ _ hh => hh)
  · intro fd' hfd'
    by_cases hne : fd' = (s.daemon.clients idx).fd
    · rw [hne]
      exact hempty
    · exact h.gone fd' (fun hm => hfd' (mem_members_dropped.mpr ⟨hm, hne⟩))
  · intro fd' hfd' hp
    obtain ⟨hold, hne⟩ := mem_members_dropped.mp hfd'
    exact (h.steady fd' hold hp).dropped hold hne hhung

/-- The daemon removes a client that has hung up and nothing waits of. Those behind it move down;
something may wait of those in front of it only. -/
theorem Wired.remove (h : Wired asked took got s) (h0 : 0 ≤ idx)
    (hlt : idx < s.daemon.numClients)
    (hother : ∀ ev ∈ s.daemon.batch, ev.src ≠ some (s.daemon.clients idx).fd)
    (hhung : s.hungUp (s.daemon.clients idx).fd = true)
    (hempty : s.up (s.daemon.clients idx).fd = []) :
    Wired asked took got (s.dropped idx) := by
  have hsubs : (s.dropped idx).daemon.subs = dropClient (s.daemon.clients idx).fd s.daemon.subs :=
    removeClient_subs idx s.daemon
  refine ⟨h.seated_dropped h0 hlt hother hhung hempty, ?_, ?_, ?_, ?_, ?_, h.publishable,
    fun fd' => (h.tied fd').congr rfl rfl rfl rfl rfl rfl rfl⟩
  · intro e he
    rw [hsubs] at he
    obtain ⟨e', he', hperm⟩ := dropClient_perm he
    exact hperm.nodup_iff.mpr ((h.ids e' he').filter _)
  · intro e he x hx
    rw [hsubs] at he
    obtain ⟨e', he', hperm⟩ := dropClient_perm he
    have hx' := hperm.mem_iff.mp hx
    rw [List.mem_filter, decide_eq_true_eq] at hx'
    exact mem_members_dropped.mpr ⟨h.listed e' he' hx'.1, hx'.2⟩
  · intro fd' hfd' hlive
    refine h.silent fd' (fun hm => hfd' (mem_members_dropped.mpr ⟨hm, ?_⟩)) hlive
    rintro rfl
    rw [show s.hungUp (s.daemon.clients idx).fd = false from hlive] at hhung
    cases hhung
  · exact fun fd' hfd' => h.fits fd' (mem_members_dropped.mp hfd').1
  · intro i hi0 hilt
    obtain ⟨j, hj0, hjlt, hrec⟩ := removeClient_record hi0 hilt
    rw [show (s.dropped idx).daemon.clients i = s.daemon.clients j from hrec]
    exact h.held j hj0 hjlt

/-! ## One step -/

/-- What the next event of a client finds: the client stands where it was accepted. -/
theorem Seated.event (h : Seated s) (hb : s.daemon.batch = ev :: rest)
    (hsrc : ev.src = some fd) :
    fd ∈ members s.daemon ∧ ev.readable = true ∧ s.Pending fd ∧
      (ev.hangup = true → s.hungUp fd = true) ∧ ev.data ≠ s.daemon.srv ∧ 0 ≤ ev.data ∧
      ev.data < s.daemon.numClients ∧ (s.daemon.clients ev.data).fd = fd := by
  have hev : ev ∈ s.daemon.batch := by
    rw [hb]
    exact List.mem_cons_self
  have hreported := h.inv.batch ev hev
  have hmem : fd ∈ members s.daemon := hreported.mem_openFds hsrc
  have hwaits := h.waits ev hev
  unfold Waits at hwaits
  simp only [hsrc] at hwaits
  have hsteady := h.steady fd hmem hwaits.2.1
  have hconn : { fd := fd, data := some ev.data } ∈ (registered s.daemon).conns := by
    unfold Reported at hreported
    simpa only [hsrc] using hreported
  have hplaced : { fd := fd, data := some ((members s.daemon).idxOf fd : Int) } ∈
      (registered s.daemon).conns := List.mem_filter.mpr ⟨hsteady.placed, rfl⟩
  have hdata : ev.data = ((members s.daemon).idxOf fd : Int) := by
    have hsame := List.inj_on_of_nodup_map h.inv.nodup hconn hplaced rfl
    exact Option.some.inj (congrArg Conn.data hsame)
  obtain ⟨h0, hlt, hrec⟩ := (h.idxOf_eq_iff hmem).mp hdata.symm
  exact ⟨hmem, hwaits.1, hwaits.2.1, hwaits.2.2, hdata ▸ hsteady.inSight, h0, hlt, hrec⟩

/-- What an `accept` can do. -/
theorem Wired.accept_cases (h : Wired asked took got s) {accepted : Option Nat}
    (hs : s.acceptNext accepted = some s') :
    ∃ ev rest, s.daemon.batch = ev :: rest ∧ ev.src = none ∧ 0 < s.backlog ∧
      ((accepted = none ∧ s' = s.popped rest) ∨
        ∃ cfd, accepted = some cfd ∧ cfd ∉ openFds s.daemon ∧
          s' = (s.popped rest).seated cfd) := by
  unfold Network.acceptNext at hs
  split at hs
  · cases hs
  · rename_i ev rest hb
    split_ifs at hs with hc
    obtain ⟨daemon, hd, rfl⟩ := Option.map_eq_some_iff.mp hs
    obtain ⟨ev', rest', hb', hp, rfl⟩ := step_handle hd
    obtain ⟨rfl, rfl⟩ := List.cons.inj (hb.symm.trans hb')
    refine ⟨ev, rest, hb, ?_, hc.2, ?_⟩
    · cases hsrc : ev.src with
      | none => rfl
      | some fd => exact absurd hc.1 (h.event hb hsrc).2.2.2.2.1
    · rw [handleEvent, if_pos hc.1]
      cases accepted with
      | none => exact Or.inl ⟨rfl, rfl⟩
      | some cfd => exact Or.inr ⟨cfd, rfl, (hp.1 cfd rfl).2, rfl⟩

theorem passOn_none (s : Network) (idx : Int) (daemon : State)
    (hsent : daemon.sent = s.daemon.sent) :
    s.passOn idx none daemon = { s with daemon := daemon } := by
  simp [Network.passOn, publications, hsent, bytesTo]

/-- What a `recv` can do: the end of the stream removes the client, bytes are handled, and behind
the last of them a client that has hung up is removed. -/
theorem Wired.recv_cases (h : Wired asked took got s) (hs : s.recvNext n = some s') :
    ∃ ev rest fd, s.daemon.batch = ev :: rest ∧ ev.src = some fd ∧
      ((s.up fd = [] ∧ s.hungUp fd = true ∧ s' = (s.popped rest).dropped ev.data) ∨
        (0 < n ∧ n ≤ (s.up fd).length ∧
          s' = if ev.hangup then ((s.popped rest).taken ev.data n).dropped ev.data
            else (s.popped rest).taken ev.data n)) := by
  unfold Network.recvNext at hs
  split at hs
  · cases hs
  · rename_i ev rest hb
    split_ifs at hs with hsrv
    obtain ⟨received, hr, hs⟩ := Option.bind_eq_some_iff.mp hs
    obtain ⟨daemon, hd, rfl⟩ := Option.map_eq_some_iff.mp hs
    obtain ⟨ev', rest', hb', hp, rfl⟩ := step_handle hd
    obtain ⟨rfl, rfl⟩ := List.cons.inj (hb.symm.trans hb')
    have hreported := h.inv.batch ev (by rw [registered, hb]; exact List.mem_cons_self)
    cases hsrc : ev.src with
    | none =>
      unfold Reported at hreported
      simp only [hsrc] at hreported
      exact absurd hreported hsrv
    | some fd =>
      obtain ⟨hmem, hread, hpend, hhang, -, h0, hlt, hrec⟩ := h.event hb hsrc
      have havail := h.avail_pos h0 hlt
      refine ⟨ev, rest, fd, hb, hsrc, ?_⟩
      rw [handleEvent, if_neg hsrv]
      unfold serveClient
      rw [if_pos hread]
      unfold Network.received at hr
      rw [hrec] at hr
      split_ifs at hr with hbad hempty hhung hc
      · exact absurd hbad (not_or.mpr ⟨not_not.mpr (members_subset _ hmem), havail.ne'⟩)
      · cases hr
        exact Or.inl ⟨hempty, hhung, passOn_none _ _ _ rfl⟩
      · cases hr
        refine Or.inr ⟨hc.1, hc.2.1, ?_⟩
        rw [← hrec]
        split_ifs <;> rfl

/-- **One step.** A step of a run that meets the condition keeps the streams as they are wired. -/
theorem Wired.step (h : Wired asked took got s) {d : Deed} (hp : Placed s d)
    (hs : s.step d = some s') : ∃ asked' took' got', Wired asked' took' got' s' := by
  cases d with
  | connect =>
    cases hs
    exact ⟨_, _, _, h.connect⟩
  | publish fd m =>
    simp only [Network.step] at hs
    split_ifs at hs with hc
    cases hs
    rw [busPublish_eq hc.2]
    refine ⟨_, _, _, h.ask (asks_publish hc.2) hp hc.1.2 ?_⟩
    rw [lineCall_line hc.2]
    rfl
  | subscribe fd topic =>
    simp only [Network.step] at hs
    split_ifs at hs with hc
    cases hs
    have hline := asks_subscribe hc.2.1 hc.2.2
    exact ⟨_, _, _, h.change hline (lineCall_subscribe topic) hp hc.1.2⟩
  | unsubscribe fd topic =>
    simp only [Network.step] at hs
    split_ifs at hs with hc
    cases hs
    have hline := asks_unsubscribe hc.2.1 hc.2.2
    exact ⟨_, _, _, h.change hline (lineCall_unsubscribe topic) hp hc.1.2⟩
  | hangUp fd =>
    simp only [Network.step] at hs
    split_ifs at hs with hc
    cases hs
    exact ⟨_, _, _, h.hangUp hp⟩
  | wait evs =>
    simp only [Network.step] at hs
    split_ifs at hs with hready
    obtain ⟨daemon, hd, rfl⟩ := Option.map_eq_some_iff.mp hs
    simp only [Busd.step] at hd
    split_ifs at hd with hb
    cases hd
    exact ⟨_, _, _, h.wait hready hb.2⟩
  | accept accepted =>
    obtain ⟨ev, rest, hb, hsrc, -, ⟨-, rfl⟩ | ⟨cfd, -, hnew, rfl⟩⟩ := h.accept_cases hs
    · exact ⟨_, _, _, (h.pop hb).1⟩
    · obtain ⟨hpop, hother⟩ := h.pop hb
      have hconnected := hpop.connected (fun hmem => hnew (members_subset _ hmem))
        (fun ev' hev' => hsrc ▸ hother ev' hev')
      by_cases hroom : s.daemon.numClients < maxClients
      · exact ⟨_, _, _,
          hconnected.seat hnew hroom (Function.update_self ..) (Function.update_self ..)⟩
      · exact ⟨_, _, _, hconnected.leave hroom⟩
  | recv n =>
    obtain ⟨ev, rest, fd, hb, hsrc, hcase⟩ := h.recv_cases hs
    obtain ⟨-, -, -, hhang, -, h0, hlt, rfl⟩ := h.event hb hsrc
    obtain ⟨hpop, hother⟩ := h.pop hb
    rw [hsrc] at hother
    rcases hcase with ⟨hempty, hhung, rfl⟩ | ⟨-, -, rfl⟩
    · exact ⟨_, _, _, hpop.remove h0 hlt hother hhung hempty⟩
    · have hreceive := hpop.receive h0 hlt hother n
      split_ifs with hh
      · have hall : n = (s.up (s.daemon.clients ev.data).fd).length :=
          hp ev (by rw [hb]; rfl) hh
        refine ⟨_, _, _, hreceive.remove h0 hlt ?_ ?_ ?_⟩
        · rw [taken_fd]
          exact hother
        · rw [taken_fd]
          exact hhang hh
        · rw [taken_fd, taken_up, Function.update_self]
          exact List.drop_of_length_le hall.ge
      · exact ⟨_, _, _, hreceive⟩
  | poll fd n =>
    simp only [Network.step] at hs
    split_ifs at hs with hc
    cases hs
    exact ⟨_, _, _, h.poll fd hc.2.1 hc.2.2.1⟩

end Iterate

end Busd
end BuildingBlocks
