import BuildingBlocks.Busd.Placed

/-!
# BuildingBlocks.Busd.Wired

What the streams of a network say about each other.

* `Seated` is the daemon with what waits for it, `Tied` the streams of one client: what it asked
  for, what the daemon handled of that, and what came back. `Wired` is both.
* The laws: publications are handled in order, calls made as owed, and there is room to receive.
* What clients do keeps it, when it meets the condition.
-/

namespace BuildingBlocks
namespace Busd

open Lib

/-! ## The daemon and what waits for it -/

/-- Something waits for every event of the batch. -/
def Waits (s : Network) (ev : Event) : Prop :=
  match ev.src with
  | none => 0 < s.backlog
  | some fd => ev.readable = true ∧ s.Pending fd ∧ (ev.hangup = true → s.hungUp fd = true)

/-- The client array lists the registered clients, something waits for every event of the batch,
and a client that something waits of is steady. -/
structure Seated (s : Network) : Prop where
  inv : Inv (registered s.daemon)
  waits : ∀ ev ∈ s.daemon.batch, Waits s ev
  gone : ∀ fd, fd ∉ members s.daemon → s.up fd = []
  steady : ∀ fd ∈ members s.daemon, s.Pending fd → Steady s fd

/-! ## The streams -/

/-- The streams of a client: `asked` are the lines it sent, `took` the bytes the daemon has received
of them, `got` the bytes the client has received. -/
structure Tied (asked : List Bytes) (took got : Bytes) (s : Network) (fd : Nat) : Prop where
  asks : ∀ l ∈ asked, Asks l
  since : s.since fd ≤ s.routed.length
  upstream : took ++ s.up fd = join 0x0a asked
  published : s.published fd = asked.filterMap lineCall
  routedFrom : s.routedFrom fd = (cut 0x0a took).1.filterMap lineCall
  downstream : got ++ s.down fd = join 0x0a ((s.due fd).map callLine)
  bufs : s.bufs fd = (cut 0x0a got).2
  calls : s.calls fd = (cut 0x0a got).1.filterMap pollLine

/-- The network: the table lists members only, nothing is owed to a client that is neither in the
array nor hung up, what a client that has hung up has sent goes into its buffer, and the buffers
hold the unfinished lines. -/
structure Wired (asked : Nat → List Bytes) (took got : Nat → Bytes) (s : Network) : Prop
    extends Seated s where
  ids : ∀ e ∈ s.daemon.subs, e.clientIds.Nodup
  listed : ∀ e ∈ s.daemon.subs, e.clientIds ⊆ members s.daemon
  silent : ∀ fd, fd ∉ members s.daemon → s.hungUp fd = false → s.due fd = []
  fits : ∀ fd ∈ members s.daemon, s.hungUp fd = true →
    (cut 0x0a (took fd)).2.length + (s.up fd).length < bufferSize
  held : ∀ idx : Int, 0 ≤ idx → idx < s.daemon.numClients →
    (s.daemon.clients idx).buf = (cut 0x0a (took (s.daemon.clients idx).fd)).2
  publishable : ∀ r ∈ s.routed, ∃ m, Publishable m ∧ r.call = m.call
  tied : ∀ fd, Tied (asked fd) (took fd) (got fd) s fd

theorem tied_fresh {s : Network} {fd : Nat} (hup : s.up fd = []) (hdown : s.down fd = [])
    (hbufs : s.bufs fd = []) (hcalls : s.calls fd = []) (hpublished : s.published fd = [])
    (hsince : s.since fd = s.routed.length) : Tied [] [] [] s fd := by
  have hrecent : s.recent fd = [] := by
    rw [Network.recent, hsince, List.drop_length]
  have hdue : s.due fd = [] := by
    rw [Network.due, hrecent, List.flatMap_nil]
  refine ⟨fun _ h => absurd h List.not_mem_nil, hsince.le, hup, hpublished, ?_, ?_, hbufs, hcalls⟩
  · rw [Network.routedFrom, hrecent]
    rfl
  · rw [hdue, hdown]
    rfl

theorem wired_init (srv : Nat) : Wired (fun _ => []) (fun _ => []) (fun _ => []) (.init srv) where
  inv := inv_init srv
  waits := fun _ h => absurd h List.not_mem_nil
  gone := fun _ _ => rfl
  steady := fun _ h => absurd h List.not_mem_nil
  ids := fun _ h => absurd h List.not_mem_nil
  listed := fun _ h => absurd h List.not_mem_nil
  silent := fun _ _ _ => rfl
  fits := fun _ h => absurd h List.not_mem_nil
  held := fun _ h0 hlt => absurd (h0.trans_lt hlt) (lt_irrefl 0)
  publishable := fun _ h => absurd h List.not_mem_nil
  tied := fun _ => tied_fresh rfl rfl rfl rfl rfl rfl

section Wired

variable {asked : Nat → List Bytes} {took got : Nat → Bytes} {s s' : Network} {fd n : Nat}
  {idx : Int} {ev : Event} {lines : List Bytes} {xs ys : Bytes}

/-! ### What the streams say -/

/-- The streams of a client depend on what the network has of it, and the publications handled. -/
theorem Tied.congr (h : Tied lines xs ys s fd) (hup : s'.up fd = s.up fd)
    (hdown : s'.down fd = s.down fd) (hbufs : s'.bufs fd = s.bufs fd)
    (hcalls : s'.calls fd = s.calls fd) (hpublished : s'.published fd = s.published fd)
    (hsince : s'.since fd = s.since fd) (hrouted : s'.routed = s.routed) :
    Tied lines xs ys s' fd := by
  have hrecent : s'.recent fd = s.recent fd := by
    rw [Network.recent, Network.recent, hsince, hrouted]
  refine ⟨h.asks, ?_, ?_, ?_, ?_, ?_, ?_, ?_⟩
  · rw [hsince, hrouted]
    exact h.since
  · rw [hup]
    exact h.upstream
  · rw [hpublished]
    exact h.published
  · rw [Network.routedFrom, hrecent]
    exact h.routedFrom
  · rw [hdown, Network.due, hrecent]
    exact h.downstream
  · rw [hbufs]
    exact h.bufs
  · rw [hcalls]
    exact h.calls

theorem Tied.cut_asked (h : Tied lines xs ys s fd) :
    cut 0x0a (join 0x0a lines) = (lines, []) := by
  have hcut := cut_join (fun l hl => (h.asks l hl).single)
    (List.not_mem_nil (a := (0x0a : UInt8)))
  rwa [List.append_nil] at hcut

theorem Tied.text_up (h : Tied lines xs ys s fd) : 0 ∉ xs ++ s.up fd := by
  rw [h.upstream]
  intro h0
  obtain ⟨l, hl, hmem⟩ := List.mem_flatMap.mp h0
  rcases List.mem_append.mp hmem with hmem | hmem
  · exact (h.asks l hl).text hmem
  · exact absurd (List.mem_singleton.mp hmem) (by decide)

theorem Wired.due_publishable (h : Wired asked took got s) (fd : Nat) :
    ∀ c ∈ s.due fd, ∃ m, Publishable m ∧ c = m.call := by
  intro c hc
  obtain ⟨r, hr, hmem⟩ := List.mem_flatMap.mp hc
  rw [List.eq_of_mem_replicate hmem]
  exact h.publishable r (List.mem_of_mem_drop hr)

theorem Wired.due_line (h : Wired asked took got s) (fd : Nat) :
    ∀ l ∈ (s.due fd).map callLine, ∃ m, Publishable m ∧ l = m.line := by
  intro l hl
  obtain ⟨c, hc, rfl⟩ := List.mem_map.mp hl
  obtain ⟨m, hm, rfl⟩ := h.due_publishable fd c hc
  exact ⟨m, hm, rfl⟩

theorem Wired.cut_due (h : Wired asked took got s) (fd : Nat) :
    cut 0x0a (join 0x0a ((s.due fd).map callLine)) = ((s.due fd).map callLine, []) := by
  have hlines : ∀ l ∈ (s.due fd).map callLine, (0x0a : UInt8) ∉ l := by
    intro l hl
    obtain ⟨m, -, rfl⟩ := h.due_line fd l hl
    exact m.notMem_line.2
  have hcut := cut_join hlines (List.not_mem_nil (a := (0x0a : UInt8)))
  rwa [List.append_nil] at hcut

theorem Wired.text_down (h : Wired asked took got s) (fd : Nat) : 0 ∉ got fd ++ s.down fd := by
  rw [(h.tied fd).downstream]
  intro h0
  obtain ⟨l, hl, hmem⟩ := List.mem_flatMap.mp h0
  obtain ⟨m, -, rfl⟩ := h.due_line fd l hl
  rcases List.mem_append.mp hmem with hmem | hmem
  · exact m.notMem_line.1 hmem
  · exact absurd (List.mem_singleton.mp hmem) (by decide)

theorem filterMap_callLine {cs : List Call} (h : ∀ c ∈ cs, ∃ m, Publishable m ∧ c = m.call) :
    (cs.map callLine).filterMap pollLine = cs := by
  induction cs with
  | nil => rfl
  | cons c cs ih =>
    obtain ⟨m, -, rfl⟩ := h c List.mem_cons_self
    have hline : pollLine (callLine m.call) = some m.call := pollLine_line m
    rw [List.map_cons, List.filterMap_cons_some hline,
      ih (fun c' hc' => h c' (List.mem_cons_of_mem _ hc'))]

/-! ### The laws -/

theorem Wired.handled (h : Wired asked took got s) (fd : Nat) :
    s.routedFrom fd <+: s.published fd ∧
      (s.up fd = [] → s.routedFrom fd = s.published fd) := by
  have ht := h.tied fd
  rw [ht.routedFrom, ht.published]
  refine ⟨?_, ?_⟩
  · have hpre := frames_prefix (d := (0x0a : UInt8)) (took fd) (s.up fd)
    rw [ht.upstream, ht.cut_asked] at hpre
    exact hpre.filterMap lineCall
  · intro hup
    have hall := ht.upstream
    rw [hup, List.append_nil] at hall
    rw [hall, ht.cut_asked]

theorem Wired.delivered (h : Wired asked took got s) (fd : Nat) :
    s.calls fd <+: s.due fd ∧ (s.down fd = [] → s.calls fd = s.due fd) := by
  have ht := h.tied fd
  rw [ht.calls]
  refine ⟨?_, ?_⟩
  · have hpre := frames_prefix (d := (0x0a : UInt8)) (got fd) (s.down fd)
    rw [ht.downstream, h.cut_due] at hpre
    have hcalls := hpre.filterMap pollLine
    rwa [filterMap_callLine (h.due_publishable fd)] at hcalls
  · intro hdown
    have hall := ht.downstream
    rw [hdown, List.append_nil] at hall
    rw [hall, h.cut_due, filterMap_callLine (h.due_publishable fd)]

/-- Nothing is on the way to a client that is neither in the array nor hung up. -/
theorem Wired.down_silent (h : Wired asked took got s) (hfd : fd ∉ members s.daemon)
    (hhung : s.hungUp fd = false) : s.down fd = [] := by
  have hall := (h.tied fd).downstream
  rw [h.silent fd hfd hhung, List.map_nil, join_nil, List.append_eq_nil_iff] at hall
  exact hall.2

theorem Wired.avail_pos (h : Wired asked took got s) (h0 : 0 ≤ idx)
    (hlt : idx < s.daemon.numClients) : 0 < avail (s.daemon.clients idx) := by
  have hfits : Fits 0x0a (bufferSize - 1)
      (took (s.daemon.clients idx).fd ++ s.up (s.daemon.clients idx).fd) := by
    rw [(h.tied _).upstream]
    intro f hf
    rw [pieces, (h.tied _).cut_asked] at hf
    rcases List.mem_append.mp hf with hf | hf
    · exact ((h.tied _).asks f hf).short.trans_lt (by decide)
    · rw [List.mem_singleton.mp hf]
      exact Nat.succ_pos _
  have hrest := hfits.rest_lt
  rw [← h.held idx h0 hlt] at hrest
  unfold avail
  omega

theorem Wired.space_pos (h : Wired asked took got s) (fd : Nat) : 0 < pollSpace (s.bufs fd) := by
  have hfits : Fits 0x0a (maxLine - 1) (got fd ++ s.down fd) := by
    rw [(h.tied fd).downstream]
    intro f hf
    rw [pieces, h.cut_due] at hf
    rcases List.mem_append.mp hf with hf | hf
    · obtain ⟨m, hm, rfl⟩ := h.due_line fd f hf
      have htopic := hm.topic_le
      have hpayload := hm.payload_le
      have hmax : maxLine = 4288 := rfl
      rw [length_line]
      omega
    · rw [List.mem_singleton.mp hf]
      exact Nat.succ_pos _
  have hrest := hfits.rest_lt
  rw [← (h.tied fd).bufs] at hrest
  unfold pollSpace
  omega

/-! ### Where the clients stand -/

theorem Seated.mem_members (h : Seated s) (h0 : 0 ≤ idx) (hlt : idx < s.daemon.numClients) :
    (s.daemon.clients idx).fd ∈ members s.daemon := by
  obtain ⟨k, rfl⟩ := Int.eq_ofNat_of_zero_le h0
  have hrows : table s.daemon = members s.daemon := h.inv.rows
  rw [← hrows]
  exact List.mem_map.mpr ⟨k, List.mem_range.mpr (by omega), rfl⟩

theorem Seated.idxOf_eq_iff (h : Seated s) (hfd : fd ∈ members s.daemon) :
    ((members s.daemon).idxOf fd : Int) = idx ↔
      0 ≤ idx ∧ idx < s.daemon.numClients ∧ (s.daemon.clients idx).fd = fd :=
  h.inv.toExact.idxOf_eq_iff hfd

/-- Two records have different descriptors. -/
theorem Seated.fd_inj (h : Seated s) {i j : Int} (hi : 0 ≤ i ∧ i < s.daemon.numClients)
    (hj : 0 ≤ j ∧ j < s.daemon.numClients)
    (hfd : (s.daemon.clients i).fd = (s.daemon.clients j).fd) : i = j := by
  have hmem := h.mem_members hi.1 hi.2
  have hidx := (h.idxOf_eq_iff hmem).mpr ⟨hi.1, hi.2, rfl⟩
  have hidx' := (h.idxOf_eq_iff hmem).mpr ⟨hj.1, hj.2, hfd.symm⟩
  rw [← hidx, hidx']

/-! ### What clients do -/

theorem Waits.mono (h : Waits s ev) (hbacklog : ev.src = none → s.backlog ≤ s'.backlog)
    (hpending : ∀ fd, ev.src = some fd → s.Pending fd → s'.Pending fd)
    (hhung : ∀ fd, ev.src = some fd → s.hungUp fd = true → s'.hungUp fd = true) : Waits s' ev := by
  unfold Waits at h ⊢
  split
  · rename_i hsrc
    simp only [hsrc] at h
    exact h.trans_le (hbacklog hsrc)
  · rename_i fd hsrc
    simp only [hsrc] at h
    exact ⟨h.1, hpending fd hsrc h.2.1, fun hhang => hhung fd hsrc (h.2.2 hhang)⟩

theorem Wired.connect (h : Wired asked took got s) :
    Wired asked took got { s with backlog := s.backlog + 1 } := by
  refine ⟨⟨h.inv, ?_, h.gone, ?_⟩, h.ids, h.listed, h.silent, h.fits, h.held, h.publishable,
    fun fd => (h.tied fd).congr rfl rfl rfl rfl rfl rfl rfl⟩
  · intro ev hev
    exact (h.waits ev hev).mono (fun _ => Nat.le_succ _) (fun _ _ hp => hp) (fun _ _ hh => hh)
  · intro fd hfd hp
    have hsteady := h.steady fd hfd hp
    exact ⟨hsteady.placed, hsteady.inSight, hsteady.older⟩

theorem send_up_self {bytes : Bytes} : (s.send fd bytes).up fd = s.up fd ++ bytes :=
  Function.update_self ..

theorem send_up_of_ne {bytes : Bytes} {fd' : Nat} (h : fd' ≠ fd) :
    (s.send fd bytes).up fd' = s.up fd' :=
  Function.update_of_ne h ..

/-- The streams of the client that sends a line, and those of the others. -/
theorem Wired.tied_ask (h : Wired asked took got s) {line : Bytes} (hline : Asks line)
    {published : Nat → List Call} (hpub : published = Function.update s.published fd
      (s.published fd ++ (lineCall line).toList)) (fd' : Nat) :
    Tied (Function.update asked fd (asked fd ++ [line]) fd') (took fd') (got fd')
      { s.send fd (line ++ [0x0a]) with published := published } fd' := by
  have ht := h.tied fd'
  by_cases hfd : fd' = fd
  · subst hfd
    rw [Function.update_self]
    refine ⟨?_, ht.since, ?_, ?_, ht.routedFrom, ht.downstream, ht.bufs, ht.calls⟩
    · intro l hl
      rcases List.mem_append.mp hl with hl | hl
      · exact ht.asks l hl
      · rw [List.mem_singleton.mp hl]
        exact hline
    · rw [send_up_self, ← List.append_assoc, ht.upstream, join_append, join_cons, join_nil]
    · simp only [hpub, Function.update_self]
      rw [ht.published, List.filterMap_append]
      cases hcall : lineCall line with
      | none => rw [List.filterMap_cons_none hcall]; rfl
      | some call => rw [List.filterMap_cons_some hcall]; rfl
  · rw [Function.update_of_ne hfd]
    refine ht.congr (send_up_of_ne hfd) rfl rfl rfl ?_ rfl rfl
    simp only [hpub, Function.update_of_ne hfd]

/-- A client sends one more line. -/
theorem Wired.ask (h : Wired asked took got s) {line : Bytes} (hline : Asks line)
    (hsteady : Steady s fd) (hlive : s.hungUp fd = false) {published : Nat → List Call}
    (hpub : published = Function.update s.published fd
      (s.published fd ++ (lineCall line).toList)) :
    Wired (Function.update asked fd (asked fd ++ [line])) took got
      { s.send fd (line ++ [0x0a]) with published := published } := by
  have hmem : fd ∈ members s.daemon := mem_members.mpr ⟨_, hsteady.placed⟩
  refine ⟨⟨h.inv, ?_, ?_, ?_⟩, h.ids, h.listed, h.silent, ?_, h.held, h.publishable,
    h.tied_ask hline hpub⟩
  · intro ev hev
    refine (h.waits ev hev).mono (fun _ => le_rfl) ?_ (fun _ _ hh => hh)
    intro fd' _ hp
    by_cases hfd : fd' = fd
    · subst hfd
      refine Or.inl ?_
      rw [send_up_self]
      simp
    · rwa [Network.Pending, send_up_of_ne hfd]
  · intro fd' hfd'
    have hfd : fd' ≠ fd := by
      rintro rfl
      exact hfd' hmem
    rw [send_up_of_ne hfd]
    exact h.gone fd' hfd'
  · intro fd' hfd' hp
    have hsteady' : Steady s fd' := by
      by_cases hfd : fd' = fd
      · rwa [hfd]
      · rw [Network.Pending, send_up_of_ne hfd] at hp
        exact h.steady fd' hfd' hp
    exact ⟨hsteady'.placed, hsteady'.inSight, hsteady'.older⟩
  · intro fd' hfd' hhung
    have hfd : fd' ≠ fd := by
      rintro rfl
      rw [show s.hungUp fd' = true from hhung] at hlive
      cases hlive
    rw [send_up_of_ne hfd]
    exact h.fits fd' hfd' hhung

/-- A line that publishes nothing. -/
theorem Wired.change (h : Wired asked took got s) {line : Bytes} (hline : Asks line)
    (hnone : lineCall line = none) (hsteady : Steady s fd) (hlive : s.hungUp fd = false) :
    Wired (Function.update asked fd (asked fd ++ [line])) took got
      (s.send fd (line ++ [0x0a])) := by
  refine h.ask hline hsteady hlive ?_
  rw [hnone, Option.toList_none, List.append_nil, Function.update_eq_self]

/-- A client hangs up. Nothing waits of those behind it, so all that something waits of stay
steady. -/
theorem Wired.hangUp (h : Wired asked took got s)
    (hdeparts : fd ∈ members s.daemon → Departs s fd) :
    Wired asked took got { s with hungUp := Function.update s.hungUp fd true } := by
  have hsilent : ∀ fd', Function.update s.hungUp fd true fd' = false → s.hungUp fd' = false := by
    intro fd' hlive
    by_cases hfd : fd' = fd
    · subst hfd
      rw [Function.update_self] at hlive
      cases hlive
    · rwa [Function.update_of_ne hfd] at hlive
  have hhung : ∀ fd', s.hungUp fd' = true → Function.update s.hungUp fd true fd' = true := by
    intro fd' hh
    by_cases hfd : fd' = fd
    · subst hfd
      exact Function.update_self ..
    · rwa [Function.update_of_ne hfd]
  refine ⟨⟨h.inv, ?_, h.gone, ?_⟩, h.ids, h.listed, ?_, ?_, h.held, h.publishable, fun fd' =>
    (h.tied fd').congr rfl rfl rfl rfl rfl rfl rfl⟩
  · intro ev hev
    exact (h.waits ev hev).mono (fun _ => le_rfl)
      (fun fd' _ hp => hp.imp_right (hhung fd')) (fun fd' _ => hhung fd')
  · intro fd' hfd' hp
    have hahead : Steady s fd' ∧ fd ∉ ahead (members s.daemon) fd' := by
      by_cases hfd : fd' = fd
      · subst hfd
        exact ⟨(hdeparts hfd').toSteady, notMem_ahead _ _⟩
      · have hold : s.Pending fd' := by
          simpa only [Network.Pending, Function.update_of_ne hfd] using hp
        refine ⟨h.steady fd' hfd' hold, fun hmem => ?_⟩
        have hbehind := mem_behind hfd' hmem
        exact (hdeparts (ahead_subset _ _ hmem)).younger fd' hbehind hold
    refine ⟨hahead.1.placed, hahead.1.inSight, fun x hx => ?_⟩
    have hne : x ≠ fd := by
      rintro rfl
      exact hahead.2 hx
    simp only [Function.update_of_ne hne]
    exact hahead.1.older x hx
  · exact fun fd' hfd' hlive => h.silent fd' hfd' (hsilent fd' hlive)
  · intro fd' hfd' hh
    by_cases hfd : fd' = fd
    · subst hfd
      have hroom := (hdeparts hfd').room
      obtain ⟨h0, hlt, hrec⟩ := (h.idxOf_eq_iff hfd').mp rfl
      rwa [h.held _ h0 hlt, hrec] at hroom
    · simp only [Function.update_of_ne hfd] at hh
      exact h.fits fd' hfd' hh

theorem Wired.poll (h : Wired asked took got s) (fd : Nat) (hpos : 0 < n)
    (hle : n ≤ (s.down fd).length) :
    Wired asked took (Function.update got fd (got fd ++ (s.down fd).take n))
      (s.pollClient fd n) := by
  refine ⟨⟨h.inv, ?_, h.gone, ?_⟩, h.ids, h.listed, h.silent, h.fits, h.held, h.publishable, ?_⟩
  · intro ev hev
    exact (h.waits ev hev).mono (fun _ => le_rfl) (fun _ _ hp => hp) (fun _ _ hh => hh)
  · intro fd' hfd' hp
    have hsteady := h.steady fd' hfd' hp
    exact ⟨hsteady.placed, hsteady.inSight, hsteady.older⟩
  · intro fd'
    have ht := h.tied fd'
    by_cases hfd : fd' = fd
    · subst hfd
      have hne : (s.down fd').take n ≠ [] := by
        refine List.ne_nil_of_length_pos ?_
        rw [List.length_take]
        omega
      have h0 := h.text_down fd'
      rw [List.mem_append, not_or] at h0
      have h1 : 0 ∉ got fd' ++ (s.down fd').take n := by
        rw [List.mem_append, not_or]
        exact ⟨h0.1, fun hm => h0.2 (List.mem_of_mem_take hm)⟩
      have hbuf : s.bufs fd' = (Lib.lines (got fd')).2 := by rw [ht.bufs, lines_eq_cut h0.1]
      obtain ⟨hrest, hdecode⟩ := poll_stream hne (got fd')
      rw [← hbuf, decode, decode, lines_eq_cut h0.1, lines_eq_cut h1, ← ht.calls] at hdecode
      rw [← hbuf, lines_eq_cut h1] at hrest
      rw [Function.update_self]
      refine ⟨ht.asks, ht.since, ht.upstream, ht.published, ht.routedFrom, ?_, ?_, ?_⟩
      · simp only [Network.pollClient, Function.update_self]
        rw [List.append_assoc, List.take_append_drop]
        exact ht.downstream
      · simp only [Network.pollClient, Function.update_self, hrest]
      · simp only [Network.pollClient, Function.update_self, hdecode]
    · rw [Function.update_of_ne hfd]
      exact ht.congr rfl (Function.update_of_ne hfd ..) (Function.update_of_ne hfd ..)
        (Function.update_of_ne hfd ..) rfl rfl rfl

end Wired

end Busd
end BuildingBlocks
