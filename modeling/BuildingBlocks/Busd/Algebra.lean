import BuildingBlocks.Busd.Session

/-!
# BuildingBlocks.Busd.Algebra

What `SUB` and `UNSUB` of one topic do to the table, from every reachable one. `sscanf` takes up to
255 bytes of a topic, an entry keeps 127, and `find_sub` compares whole topics.

* `Reachable` — the tables after any lines and hang-ups; `run_reachable` for the daemon's loop.
* `Laws` — subscribing is idempotent, is undone, and delivers what the topic matches.
* `laws_iff` — the topic must fit its entry, and not be that of a second entry of the client.
-/

namespace BuildingBlocks
namespace Busd

open Lib

/-! ## Reachable tables -/

inductive Reachable : List Sub → Prop where
  | empty : Reachable []
  | line {subs : List Sub} (fd : Nat) (text : Bytes) (h : Reachable subs) :
      Reachable (handleLine fd text subs).1
  | drop {subs : List Sub} (fd : Nat) (h : Reachable subs) : Reachable (dropClient fd subs)

theorem Reachable.handleLines {subs : List Sub} (h : Reachable subs) (fd : Nat)
    (lines : List Bytes) : Reachable (handleLines fd lines subs).1 := by
  induction lines generalizing subs with
  | nil => exact h
  | cons line lines ih => exact ih (h.line fd line)

theorem step_reachable {s s' : State} {a : Act} (h : Reachable s.subs) (hs : step s a = some s') :
    Reachable s'.subs := by
  cases a with
  | wait evs =>
    simp only [step] at hs
    split_ifs at hs
    cases hs
    exact h
  | handle r =>
    simp only [step] at hs
    split at hs
    · cases hs
    · split_ifs at hs
      cases hs
      rename_i ev rest _ _
      have hremove : ∀ t : State, Reachable t.subs → Reachable (removeClient ev.data t).subs := by
        intro t ht
        rw [removeClient_subs]
        exact ht.drop _
      have hreceive : ∀ bytes, Reachable (receive ev.data bytes { s with batch := rest }).subs :=
        fun bytes => h.handleLines _ _
      rw [handleEvent]
      split_ifs
      · unfold acceptClient
        split
        · exact h
        · split_ifs <;> exact h
      · unfold serveClient
        split_ifs
        · split
          · exact hremove _ h
          · exact hremove _ (hreceive _)
        · split
          · exact hremove _ h
          · exact hreceive _
        · exact hremove _ h
        · exact h

/-- The tables of the daemon are reachable. -/
theorem run_reachable {srv : Nat} {as : List Act} {s : State}
    (hr : run step (init srv) as = some s) : Reachable s.subs :=
  run_invariant (I := fun s => Reachable s.subs) (fun _ _ _ => step_reachable) .empty hr

/-- An entry keeps at most 127 bytes of its topic, and lists no client twice. -/
structure Tidy (s : Sub) : Prop where
  topic : s.topic.length ≤ 127
  ids : s.clientIds.Nodup

section Tidy

variable {subs : List Sub} {topic : Bytes} {fd : Nat}

theorem tidy_updateSub {f : Sub → Sub} (hf : ∀ s, Tidy s → Tidy (f s)) (h : ∀ s ∈ subs, Tidy s) :
    ∀ s ∈ updateSub topic f subs, Tidy s := by
  induction subs with
  | nil => exact h
  | cons s subs ih =>
    have htail := fun s' hs' => h s' (List.mem_cons_of_mem s hs')
    rw [updateSub]
    split
    · exact List.forall_mem_cons.mpr ⟨hf s (h s List.mem_cons_self), htail⟩
    · exact List.forall_mem_cons.mpr ⟨h s List.mem_cons_self, ih htail⟩

theorem Tidy.add {s : Sub} (h : Tidy s) (fd : Nat) : Tidy (s.add fd) where
  topic := by
    rw [Sub.add_topic]
    exact h.topic
  ids := (kept_nodup fd).subAdd h.ids

theorem tidy_handleLine (h : ∀ s ∈ subs, Tidy s) (fd : Nat) (text : Bytes) :
    ∀ s ∈ (handleLine fd text subs).1, Tidy s := by
  rw [handleLine_eq]
  cases request text with
  | pub topic rest payload => exact h
  | ping => exact h
  | none => exact h
  | unsub topic =>
    refine tidy_updateSub (fun s hs => ⟨hs.topic, ?_⟩) h
    exact (dropFirst_perm fd s.clientIds).nodup_iff.mpr (hs.ids.erase fd)
  | sub topic =>
    simp only [subscribe]
    split_ifs
    · exact tidy_updateSub (fun s hs => hs.add fd) h
    · rw [List.forall_mem_append]
      refine ⟨h, List.forall_mem_singleton.mpr (Tidy.add ⟨?_, List.nodup_nil⟩ fd)⟩
      exact List.length_take_le _ _
    · exact h

theorem Reachable.tidy (h : Reachable subs) : ∀ s ∈ subs, Tidy s := by
  induction h with
  | empty => exact fun s hs => absurd hs List.not_mem_nil
  | line fd text _ ih => exact tidy_handleLine ih fd text
  | drop fd _ ih =>
    intro s hs
    obtain ⟨s₀, hs₀, rfl⟩ := List.mem_map.mp hs
    refine ⟨(ih s₀ hs₀).topic, ?_⟩
    exact (dropAll_perm fd le_rfl).nodup_iff.mpr ((ih s₀ hs₀).ids.filter _)

end Tidy

/-! ## The first entry of a topic -/

section First

variable {subs front back : List Sub} {topic : Bytes} {s : Sub}

/-- The table at the first entry of a topic. -/
structure First (topic : Bytes) (subs front : List Sub) (s : Sub) (back : List Sub) : Prop where
  split : subs = front ++ s :: back
  here : s.topic = topic
  before : ∀ x ∈ front, x.topic ≠ topic

theorem first_cases (topic : Bytes) (subs : List Sub) :
    (∀ x ∈ subs, x.topic ≠ topic) ∨ ∃ front s back, First topic subs front s back := by
  induction subs with
  | nil => exact .inl fun x hx => absurd hx List.not_mem_nil
  | cons x subs ih =>
    by_cases hx : x.topic = topic
    · exact .inr ⟨[], x, subs, rfl, hx, fun _ h => absurd h List.not_mem_nil⟩
    · rcases ih with hnone | ⟨front, s, back, h⟩
      · exact .inl (List.forall_mem_cons.mpr ⟨hx, hnone⟩)
      · exact .inr ⟨x :: front, s, back, by rw [h.split, List.cons_append], h.here,
          List.forall_mem_cons.mpr ⟨hx, h.before⟩⟩

theorem updateSub_of_none {f : Sub → Sub} (h : ∀ x ∈ subs, x.topic ≠ topic) :
    updateSub topic f subs = subs := by
  induction subs with
  | nil => rfl
  | cons x subs ih =>
    rw [List.forall_mem_cons] at h
    rw [updateSub, if_neg h.1, ih h.2]

theorem First.updateSub (h : First topic subs front s back) (f : Sub → Sub) :
    updateSub topic f subs = front ++ f s :: back := by
  obtain ⟨rfl, htopic, hfront⟩ := h
  induction front with
  | nil => rw [List.nil_append, Busd.updateSub, if_pos htopic, List.nil_append]
  | cons x front ih =>
    rw [List.forall_mem_cons] at hfront
    rw [List.cons_append, Busd.updateSub, if_neg hfront.1, ih hfront.2, List.cons_append]

theorem First.any (h : First topic subs front s back) :
    subs.any (fun s => s.topic = topic) = true := by
  rw [List.any_eq_true]
  exact ⟨s, by simp [h.split], by simp [h.here]⟩

theorem First.subscribe (h : First topic subs front s back) (fd : Nat) :
    subscribe fd topic subs = front ++ s.add fd :: back := by
  rw [Busd.subscribe, if_pos h.any, h.updateSub]

/-- The entries of the topic behind the first. -/
theorem First.tail (h : First topic subs front s back) :
    (subs.filter (fun s => s.topic = topic)).tail = back.filter (fun s => s.topic = topic) := by
  have hfront : front.filter (fun s => s.topic = topic) = [] := by
    rw [List.filter_eq_nil_iff]
    intro x hx
    simpa using h.before x hx
  rw [h.split, List.filter_append, hfront, List.nil_append,
    List.filter_cons_of_pos (by simpa using h.here), List.tail_cons]

theorem First.unsubscribe (h : First topic subs front s back) (fd : Nat) :
    unsubscribe fd topic subs =
      front ++ { s with clientIds := dropFirst fd s.clientIds } :: back := h.updateSub _

end First

/-! ## The laws -/

/-- A descriptor is sent what is published on `topic`. -/
def Listed (subs : List Sub) (fd : Nat) (topic : Bytes) : Prop :=
  ∃ s ∈ subs, Matches s.topic topic ∧ fd ∈ s.clientIds

/-- For a client `fd`, a line that subscribes to `topic` and a line that ends it. An entry is stored
under the first 127 bytes of its topic. -/
structure Laws (fd : Nat) (topic line line' : Bytes) (subs : List Sub) : Prop where
  twice : (handleLine fd line (handleLine fd line subs).1).1 = (handleLine fd line subs).1
  undone : ∀ s ∈ (handleLine fd line' (handleLine fd line subs).1).1, s.topic = topic.take 127 →
    fd ∉ s.clientIds
  delivers : ∀ other payload sender, sender ≠ fd → (pubLine other payload).length < bufferSize →
    ((∃ m ∈ publish (handleLine fd line subs).1 other payload sender, m.fd = fd) ↔
      (∃ m ∈ publish subs other payload sender, m.fd = fd) ∨ Matches topic other)

/-- The topic fits its entry, and the client is in no entry of it but the first. -/
structure Once (fd : Nat) (topic : Bytes) (subs : List Sub) : Prop where
  short : topic.length ≤ 127
  first : ∀ s ∈ (subs.filter (fun s => s.topic = topic)).tail, fd ∉ s.clientIds

instance (fd : Nat) (topic : Bytes) (subs : List Sub) : Decidable (Once fd topic subs) :=
  decidable_of_iff (topic.length ≤ 127 ∧
      ∀ s ∈ (subs.filter (fun s : Sub => s.topic = topic)).tail, fd ∉ s.clientIds)
    ⟨fun h => ⟨h.1, h.2⟩, fun h => ⟨h.short, h.first⟩⟩

section Laws

variable {subs : List Sub} {fd : Nat} {topic line line' : Bytes}

theorem exists_publish_iff {other payload : Bytes} {sender : Nat} (hne : sender ≠ fd)
    (hfits : (pubLine other payload).length < bufferSize) :
    (∃ m ∈ publish subs other payload sender, m.fd = fd) ↔ Listed subs fd other := by
  have hpublish : publish subs other payload sender =
      (subs.filter (fun s => topicMatch s.topic other)).flatMap
        (sendsOf sender (pubLine other payload)) := if_neg (not_le.mpr hfits)
  simp only [hpublish, List.mem_flatMap, List.mem_filter, topicMatch_iff, sendsOf, List.mem_map]
  constructor
  · rintro ⟨m, ⟨s, ⟨hs, hm⟩, x, hx, rfl⟩, rfl⟩
    exact ⟨s, hs, hm, hx.1⟩
  · rintro ⟨s, hs, hm, hfd⟩
    exact ⟨_, ⟨s, ⟨hs, hm⟩, fd, ⟨hfd, by simpa using hne.symm⟩, rfl⟩, rfl⟩

theorem Sub.mem_add {s : Sub} (h : fd ∉ s.clientIds → s.clientIds.length < maxClients) :
    fd ∈ (s.add fd).clientIds := by
  rw [Sub.add_eq h]
  split_ifs with hfd
  · exact hfd
  · exact List.mem_append_right _ (List.mem_singleton_self fd)

theorem Sub.add_of_mem {s : Sub} (h : fd ∈ s.clientIds) : s.add fd = s := by
  rw [Sub.add, if_neg fun hc => hc.2 h]

/-- After `SUB` of a topic that fits, its first entry lists the client; the entries behind it and
everything else the client is sent are as before. -/
theorem subscribe_first (hlen : topic.length ≤ 127) (hfew : subs.length < maxSubs)
    (hroom : RoomFor fd subs) :
    ∃ front s back, First topic (subscribe fd topic subs) front s back ∧ fd ∈ s.clientIds ∧
      back.filter (fun s => s.topic = topic) = (subs.filter (fun s => s.topic = topic)).tail ∧
      ∀ other, Listed (subscribe fd topic subs) fd other ↔
        Listed subs fd other ∨ Matches topic other := by
  rcases first_cases topic subs with hnone | ⟨front, s, back, h⟩
  · have hany : ¬ (subs.any (fun s => s.topic = topic) = true) := by
      simpa using hnone
    have hadd : Sub.add fd { topic := topic.take 127, clientIds := [] } =
        { topic := topic, clientIds := [fd] } := by
      simp [Sub.add, List.take_of_length_le hlen, maxClients]
    have hsub : subscribe fd topic subs = subs ++ [{ topic := topic, clientIds := [fd] }] := by
      rw [subscribe, if_neg hany, if_pos hfew, hadd]
    have hfilter : subs.filter (fun s => s.topic = topic) = [] := by
      rw [List.filter_eq_nil_iff]
      intro x hx
      simpa using hnone x hx
    refine ⟨subs, _, [], ⟨hsub, rfl, hnone⟩, List.mem_singleton_self fd, by rw [hfilter]; rfl, ?_⟩
    intro other
    simp [hsub, Listed, or_and_right, exists_or]
  · have hs : s ∈ subs := by simp [h.split]
    have hsub := h.subscribe fd
    refine ⟨front, s.add fd, back, ⟨hsub, by rw [s.add_topic, h.here], h.before⟩,
      Sub.mem_add (hroom s hs), h.tail.symm, ?_⟩
    intro other
    have hmem := Sub.mem_add (hroom s hs)
    rw [hsub, h.split]
    simp only [Listed, List.mem_append, List.mem_cons, or_and_right, exists_or, exists_eq_left,
      Sub.add_topic, h.here, hmem, and_true]
    by_cases hm : Matches topic other
    · simp [hm]
    · simp [hm]

/-- `UNSUB` behind `SUB` ends the subscription in the first entry. -/
theorem undone_iff {front back : List Sub} {s : Sub} (h : First topic subs front s back)
    (hnodup : s.clientIds.Nodup) :
    (∀ x ∈ unsubscribe fd topic subs, x.topic = topic → fd ∉ x.clientIds) ↔
      ∀ x ∈ back.filter (fun s => s.topic = topic), fd ∉ x.clientIds := by
  have hgone : fd ∉ dropFirst fd s.clientIds := by
    rw [(dropFirst_perm fd s.clientIds).mem_iff]
    exact hnodup.not_mem_erase
  rw [h.unsubscribe]
  simp only [List.mem_filter, decide_eq_true_eq, List.forall_mem_append, List.forall_mem_cons]
  constructor
  · rintro ⟨-, -, hback⟩ x ⟨hx, ht⟩
    exact hback x hx ht
  · intro hback
    exact ⟨fun x hx ht => absurd ht (h.before x hx), fun _ => hgone,
      fun x hx ht => hback x ⟨hx, ht⟩⟩

/-- **The laws hold exactly for topics that fit their entry.** For every reachable table with room
for one more entry and for the client in every entry: subscribing twice is subscribing once, `UNSUB`
undoes `SUB`, and `SUB` adds what the topic matches and nothing else, if and only if the topic has
at most 127 bytes and the client is in no second entry of it. -/
theorem laws_iff (subs : List Sub) (hr : Reachable subs) (hfew : subs.length < maxSubs) (fd : Nat)
    (hroom : RoomFor fd subs) (topic line line' : Bytes) (hline : request line = .sub topic)
    (hline' : request line' = .unsub topic) :
    Laws fd topic line line' subs ↔ Once fd topic subs := by
  have hsub : ∀ subs, (handleLine fd line subs).1 = subscribe fd topic subs := by
    intro subs
    rw [handleLine_eq, hline]
  have hunsub : ∀ subs, (handleLine fd line' subs).1 = unsubscribe fd topic subs := by
    intro subs
    rw [handleLine_eq, hline']
  have htidy := (hr.line fd line).tidy
  rw [hsub] at htidy
  by_cases hlen : topic.length ≤ 127
  · obtain ⟨front, s, back, hfirst, hmem, hback, hlisted⟩ := subscribe_first hlen hfew hroom
    have hids : s.clientIds.Nodup := (htidy s (by simp [hfirst.split])).ids
    have hundone : _ ↔ ∀ x ∈ back.filter (fun s => s.topic = topic), fd ∉ x.clientIds :=
      undone_iff hfirst hids
    rw [hback] at hundone
    constructor
    · intro hl
      have hu := hl.undone
      rw [hsub, hunsub, List.take_of_length_le hlen] at hu
      exact ⟨hlen, hundone.mp hu⟩
    · intro ho
      refine ⟨?_, ?_, ?_⟩
      · rw [hsub, hsub, hfirst.subscribe, Sub.add_of_mem hmem, ← hfirst.split]
      · rw [hsub, hunsub, List.take_of_length_le hlen]
        exact hundone.mpr ho.first
      · intro other payload sender hne hfits
        rw [hsub, exists_publish_iff hne hfits, exists_publish_iff hne hfits]
        exact hlisted other
  · -- no entry has a topic that long: `SUB` adds one that `UNSUB` does not find
    refine iff_of_false (fun hl => ?_) (fun ho => hlen ho.short)
    have hlong : ∀ s, Tidy s → s.topic ≠ topic := by
      rintro s hs rfl
      exact hlen hs.topic
    have hnone : ¬ (subs.any (fun s => s.topic = topic) = true) := by
      simpa using fun s hs => hlong s (hr.tidy s hs)
    have hadd : subscribe fd topic subs =
        subs ++ [{ topic := topic.take 127, clientIds := [fd] }] := by
      rw [subscribe, if_neg hnone, if_pos hfew]
      rfl
    have hu := hl.undone
    rw [hsub, hunsub, unsubscribe, updateSub_of_none fun s hs => hlong s (htidy s hs), hadd] at hu
    exact hu { topic := topic.take 127, clientIds := [fd] } (by simp) rfl
      (List.mem_singleton_self fd)

end Laws

theorem laws_led :
    Laws 5 (ascii "led") (ascii "SUB led") (ascii "UNSUB led")
      [{ topic := ascii "led", clientIds := [6] }] := by
  have hr : Reachable [{ topic := ascii "led", clientIds := [6] }] :=
    Reachable.empty.line 6 (ascii "SUB led")
  have hroom : RoomFor 5 [{ topic := ascii "led", clientIds := [6] }] := by
    simp [RoomFor, maxClients]
  exact (laws_iff _ hr (by decide) 5 hroom (ascii "led") (ascii "SUB led") (ascii "UNSUB led") rfl
    rfl).mpr (by decide)

/-- A topic of 200 bytes. -/
def longTopic : Bytes := List.replicate 200 0x61

/-- It is stored under 127 bytes, and `UNSUB` does not find it. -/
theorem long_topic_stays :
    request (ascii "SUB " ++ longTopic) = .sub longTopic ∧
      request (ascii "UNSUB " ++ longTopic) = .unsub longTopic ∧
      ¬ Laws 5 longTopic (ascii "SUB " ++ longTopic) (ascii "UNSUB " ++ longTopic) [] := by
  refine ⟨by decide +kernel, by decide +kernel, fun hl => ?_⟩
  have hstays : { topic := longTopic.take 127, clientIds := [5] } ∈
      (handleLine 5 (ascii "UNSUB " ++ longTopic)
        (handleLine 5 (ascii "SUB " ++ longTopic) []).1).1 := by decide +kernel
  exact hl.undone _ hstays rfl (List.mem_singleton_self 5)

end Busd
end BuildingBlocks
