import BuildingBlocks.Busd.Protocol
import Mathlib.Data.Finset.Card
import Mathlib.Data.Finset.Filter
import Mathlib.Data.List.Perm.Subperm
import Mathlib.Algebra.BigOperators.Group.List.Basic

/-!
# BuildingBlocks.Busd.Table

The subscription table as a set of pairs of a descriptor and a pattern.

* `Represents subs pairs` — the entries of `subs` list exactly `pairs`: each topic once, each
  descriptor once per topic.
* Adding, dropping one entry and dropping a client act on the set as `insert`, `erase` and
  `filter`.
* `publish_filter` — what one descriptor is sent, counted by the pairs that match.
-/

namespace BuildingBlocks
namespace Busd

/-! ## Removal by moving the last entry -/

theorem moveLast_perm (ids : List Nat) : (moveLast ids).Perm ids := by
  unfold moveLast
  cases h : ids.getLast? with
  | none => rw [List.getLast?_eq_none_iff.mp h]
  | some x =>
    obtain ⟨front, rfl⟩ := List.getLast?_eq_some_iff.mp h
    simpa using (List.perm_append_singleton x front).symm

theorem dropFirst_perm (fd : Nat) (ids : List Nat) : (dropFirst fd ids).Perm (ids.erase fd) := by
  induction ids with
  | nil => exact List.Perm.refl _
  | cons x ids ih =>
    rw [dropFirst]
    split
    · rename_i h
      subst h
      rw [List.erase_cons_head]
      exact moveLast_perm ids
    · rename_i h
      rw [List.erase_cons_tail (by simpa using h)]
      exact ih.cons x

theorem dropAll_perm (fd : Nat) {fuel : Nat} {ids : List Nat} (h : ids.length ≤ fuel) :
    (dropAll fd fuel ids).Perm (ids.filter (· ≠ fd)) := by
  induction fuel generalizing ids with
  | zero =>
    rw [List.length_eq_zero_iff.mp (Nat.le_zero.mp h)]
    exact List.Perm.refl _
  | succ fuel ih =>
    cases ids with
    | nil => exact List.Perm.refl _
    | cons x ids =>
      have hlen : ids.length ≤ fuel := Nat.le_of_succ_le_succ h
      rw [dropAll]
      split
      · rename_i hx
        rw [List.filter_cons_of_neg (by simpa using hx)]
        have hmove := moveLast_perm ids
        exact (ih (hmove.length_eq ▸ hlen)).trans (hmove.filter _)
      · rename_i hx
        rw [List.filter_cons_of_pos (by simpa using hx)]
        exact (ih hlen).cons x

/-- `remove_client` on the subscription table. -/
def dropClient (fd : Nat) (subs : List Sub) : List Sub :=
  subs.map (fun s => { s with clientIds := dropAll fd s.clientIds.length s.clientIds })

/-! ## The set of pairs -/

/-- The table lists exactly the pairs, each topic once and each descriptor once per topic. -/
structure Represents (subs : List Sub) (pairs : Finset (Nat × Bytes)) : Prop where
  topics : (subs.map Sub.topic).Nodup
  ids : ∀ s ∈ subs, s.clientIds.Nodup
  mem : ∀ fd topic, (fd, topic) ∈ pairs ↔ ∃ s ∈ subs, s.topic = topic ∧ fd ∈ s.clientIds

section Represents

variable {subs : List Sub} {pairs pairs' : Finset (Nat × Bytes)} {fd : Nat} {topic : Bytes}

theorem Represents.nil : Represents [] ∅ where
  topics := List.nodup_nil
  ids := by simp
  mem := by simp

theorem Represents.mem_ids (h : Represents subs pairs) {s : Sub} (hs : s ∈ subs) (fd : Nat) :
    fd ∈ s.clientIds ↔ (fd, s.topic) ∈ pairs := by
  rw [h.mem]
  constructor
  · intro hfd
    exact ⟨s, hs, rfl, hfd⟩
  · rintro ⟨s', hs', ht, hfd⟩
    rwa [List.inj_on_of_nodup_map h.topics hs' hs ht] at hfd

/-- Changing the descriptors of the entries in place. -/
theorem Represents.map (h : Represents subs pairs) {g : Sub → Sub}
    (htopic : ∀ s, (g s).topic = s.topic) (hids : ∀ s ∈ subs, (g s).clientIds.Nodup)
    (hmem : ∀ s ∈ subs, ∀ fd, fd ∈ (g s).clientIds ↔ (fd, s.topic) ∈ pairs')
    (hold : ∀ fd topic, (fd, topic) ∈ pairs' → ∃ s ∈ subs, s.topic = topic) :
    Represents (subs.map g) pairs' where
  topics := by
    have hcomp : Sub.topic ∘ g = Sub.topic := funext htopic
    rw [List.map_map, hcomp]
    exact h.topics
  ids := by
    intro s hs
    obtain ⟨s₀, hs₀, rfl⟩ := List.mem_map.mp hs
    exact hids s₀ hs₀
  mem := by
    intro fd topic
    constructor
    · intro hp
      obtain ⟨s, hs, rfl⟩ := hold fd topic hp
      exact ⟨g s, List.mem_map_of_mem hs, htopic s, (hmem s hs fd).mpr hp⟩
    · rintro ⟨s, hs, ht, hfd⟩
      obtain ⟨s₀, hs₀, rfl⟩ := List.mem_map.mp hs
      rw [htopic] at ht
      subst ht
      exact (hmem s₀ hs₀ fd).mp hfd

theorem updateSub_eq_map {f : Sub → Sub} (h : (subs.map Sub.topic).Nodup) :
    updateSub topic f subs = subs.map (fun s => if s.topic = topic then f s else s) := by
  induction subs with
  | nil => rfl
  | cons s subs ih =>
    rw [List.map_cons, List.nodup_cons] at h
    rw [updateSub, List.map_cons]
    split
    · rename_i ht
      congr 1
      refine ((List.map_congr_left ?_).trans (List.map_id subs)).symm
      intro s' hs'
      have hne : s'.topic ≠ topic := by
        rintro rfl
        exact h.1 (ht ▸ List.mem_map_of_mem hs')
      simp [hne]
    · rw [ih h.2]

theorem Represents.dropClient (h : Represents subs pairs) (fd : Nat) :
    Represents (dropClient fd subs) (pairs.filter (·.1 ≠ fd)) := by
  have hperm : ∀ s : Sub, (dropAll fd s.clientIds.length s.clientIds).Perm
      (s.clientIds.filter (· ≠ fd)) := fun s => dropAll_perm fd le_rfl
  refine h.map (fun _ => rfl) ?_ ?_ ?_
  · intro s hs
    exact (hperm s).nodup_iff.mpr ((h.ids s hs).filter _)
  · intro s hs fd'
    rw [(hperm s).mem_iff, List.mem_filter, h.mem_ids hs, Finset.mem_filter]
    simp
  · intro fd' topic hp
    obtain ⟨s, hs, ht, -⟩ := (h.mem fd' topic).mp (Finset.mem_filter.mp hp).1
    exact ⟨s, hs, ht⟩

theorem Represents.unsubscribe (h : Represents subs pairs) (fd : Nat) (topic : Bytes) :
    Represents (unsubscribe fd topic subs) (pairs.erase (fd, topic)) := by
  rw [Busd.unsubscribe, updateSub_eq_map h.topics]
  refine h.map ?_ ?_ ?_ ?_
  · intro s
    split <;> rfl
  · intro s hs
    split
    · exact (dropFirst_perm fd s.clientIds).nodup_iff.mpr ((h.ids s hs).erase fd)
    · exact h.ids s hs
  · intro s hs fd'
    rw [Finset.mem_erase, ← h.mem_ids hs]
    split
    · rename_i ht
      rw [(dropFirst_perm fd s.clientIds).mem_iff, (h.ids s hs).mem_erase_iff]
      simp [ht]
    · rename_i ht
      simp [ht]
  · intro fd' topic' hp
    obtain ⟨s, hs, ht, -⟩ := (h.mem fd' topic').mp (Finset.mem_of_mem_erase hp)
    exact ⟨s, hs, ht⟩

/-- There is room for `fd` wherever it is not yet subscribed. -/
def RoomFor (fd : Nat) (subs : List Sub) : Prop :=
  ∀ s ∈ subs, fd ∉ s.clientIds → s.clientIds.length < maxClients

/-- A connected client finds room when every entry lists connected clients only, and none twice. -/
theorem roomFor_of_connected {fd : Nat} {subs : List Sub} {connected : List Nat}
    (hfd : fd ∈ connected) (hfew : connected.length ≤ maxClients)
    (hnodup : ∀ s ∈ subs, s.clientIds.Nodup) (hsub : ∀ s ∈ subs, s.clientIds ⊆ connected) :
    RoomFor fd subs := by
  intro s hs hnot
  have hids : (fd :: s.clientIds).Nodup := List.nodup_cons.mpr ⟨hnot, hnodup s hs⟩
  have hcons : fd :: s.clientIds ⊆ connected := List.cons_subset.mpr ⟨hfd, hsub s hs⟩
  have hle := (hids.subperm hcons).length_le
  rw [List.length_cons] at hle
  omega

theorem Sub.add_topic (fd : Nat) (s : Sub) : (s.add fd).topic = s.topic := by
  unfold Sub.add
  split <;> rfl

theorem Sub.add_eq {s : Sub} (h : fd ∉ s.clientIds → s.clientIds.length < maxClients) :
    (s.add fd).clientIds = if fd ∈ s.clientIds then s.clientIds else s.clientIds ++ [fd] := by
  unfold Sub.add
  by_cases hfd : fd ∈ s.clientIds
  · simp [hfd]
  · simp [hfd, h hfd]

theorem Represents.subscribe (h : Represents subs pairs) (hroom : RoomFor fd subs)
    (hlen : topic.length ≤ 127)
    (hfew : topic ∉ subs.map Sub.topic → subs.length < maxSubs) :
    Represents (subscribe fd topic subs) (insert (fd, topic) pairs) := by
  unfold Busd.subscribe
  by_cases hknown : topic ∈ subs.map Sub.topic
  · obtain ⟨s₀, hs₀, rfl⟩ := List.mem_map.mp hknown
    rw [if_pos (List.any_eq_true.mpr ⟨s₀, hs₀, by simp⟩), updateSub_eq_map h.topics]
    refine h.map ?_ ?_ ?_ ?_
    · intro s
      split
      · exact s.add_topic fd
      · rfl
    · intro s hs
      split
      · rw [Sub.add_eq (hroom s hs)]
        split
        · exact h.ids s hs
        · rename_i hfd
          exact (h.ids s hs).append (List.nodup_singleton fd) (by simpa using hfd)
      · exact h.ids s hs
    · intro s hs fd'
      rw [Finset.mem_insert, ← h.mem_ids hs, Prod.mk.injEq]
      split
      · rename_i ht
        rw [Sub.add_eq (hroom s hs)]
        split
        · rename_i hfd
          constructor
          · exact Or.inr
          · rintro (⟨rfl, -⟩ | hfd')
            · exact hfd
            · exact hfd'
        · simp [ht, or_comm]
      · rename_i ht
        simp [ht]
    · intro fd' topic' hp
      rcases Finset.mem_insert.mp hp with he | hp
      · cases he
        exact ⟨s₀, hs₀, rfl⟩
      · obtain ⟨s, hs, ht, -⟩ := (h.mem fd' topic').mp hp
        exact ⟨s, hs, ht⟩
  · have hnew : ¬ (subs.any (fun s => s.topic = topic) = true) := by
      simpa using hknown
    have hadd : Sub.add fd { topic := topic.take 127, clientIds := [] } =
        { topic := topic, clientIds := [fd] } := by
      simp [Sub.add, List.take_of_length_le hlen, maxClients]
    rw [if_neg hnew, if_pos (hfew hknown), hadd]
    refine ⟨?_, ?_, ?_⟩
    · rw [List.map_append]
      exact h.topics.append (List.nodup_singleton topic) (by simpa using hknown)
    · intro s hs
      rcases List.mem_append.mp hs with hs | hs
      · exact h.ids s hs
      · rw [List.mem_singleton.mp hs]
        exact List.nodup_singleton fd
    · intro fd' topic'
      rw [Finset.mem_insert, h.mem, Prod.mk.injEq]
      simp only [List.mem_append, List.mem_singleton, or_and_right, exists_or, exists_eq_left,
        or_comm, eq_comm (a := topic) (b := topic'), and_comm (a := fd' = fd)]

/-! ## The topics -/

theorem updateSub_topics {f : Sub → Sub} (hf : ∀ s, (f s).topic = s.topic) :
    (updateSub topic f subs).map Sub.topic = subs.map Sub.topic := by
  induction subs with
  | nil => rfl
  | cons s subs ih =>
    rw [updateSub]
    split
    · rw [List.map_cons, List.map_cons, hf]
    · rw [List.map_cons, List.map_cons, ih]

theorem dropClient_topics (fd : Nat) (subs : List Sub) :
    (dropClient fd subs).map Sub.topic = subs.map Sub.topic := by
  rw [Busd.dropClient, List.map_map]
  rfl

theorem subscribe_topics (hlen : topic.length ≤ 127) :
    ∀ t ∈ (subscribe fd topic subs).map Sub.topic, t ∈ subs.map Sub.topic ∨ t = topic := by
  intro t ht
  unfold Busd.subscribe at ht
  split at ht
  · left
    rwa [updateSub_topics (fun s => s.add_topic fd)] at ht
  · split at ht
    · simpa [Sub.add_topic, List.take_of_length_le hlen] using ht
    · exact Or.inl ht

end Represents

/-! ## Publishing -/

/-- The pattern is the topic, or a prefix of it followed by `#`. -/
def Matches (pattern topic : Bytes) : Prop :=
  pattern = topic ∨ ∃ front, pattern = front ++ [0x23] ∧ front <+: topic

theorem topicMatch_iff (pattern topic : Bytes) :
    topicMatch pattern topic = true ↔ Matches pattern topic := by
  unfold topicMatch Matches
  split
  · rename_i h
    simp [h]
  · rename_i h
    rw [Bool.and_eq_true, beq_iff_eq, List.getLast?_eq_some_iff, List.isPrefixOf_iff_prefix]
    constructor
    · rintro ⟨⟨front, rfl⟩, hpre⟩
      rw [List.dropLast_concat] at hpre
      exact Or.inr ⟨front, rfl, hpre⟩
    · rintro (h' | ⟨front, rfl, hpre⟩)
      · exact absurd h' h
      · rw [List.dropLast_concat]
        exact ⟨⟨front, rfl⟩, hpre⟩

instance (pattern topic : Bytes) : Decidable (Matches pattern topic) :=
  decidable_of_iff _ (topicMatch_iff pattern topic)

/-- The number of patterns of a descriptor that match a topic. -/
def copies (pairs : Finset (Nat × Bytes)) (fd : Nat) (topic : Bytes) : Nat :=
  (pairs.filter (fun p => p.1 = fd ∧ Matches p.2 topic)).card

/-- The line a publication is sent as. -/
def pubLine (topic payload : Bytes) : Bytes :=
  ascii "PUB " ++ topic ++ [0x20] ++ payload ++ [0x0a]

section Publish

variable {subs : List Sub} {pairs : Finset (Nat × Bytes)} {fd : Nat} {topic payload : Bytes}

theorem Represents.copies_eq (h : Represents subs pairs) (fd : Nat) (topic : Bytes) :
    copies pairs fd topic =
      (subs.filter (fun s => topicMatch s.topic topic && decide (fd ∈ s.clientIds))).length := by
  have hnodup : ((subs.filter (fun s => topicMatch s.topic topic &&
      decide (fd ∈ s.clientIds))).map (fun s => (fd, s.topic))).Nodup := by
    have hmap : (((subs.filter (fun s => topicMatch s.topic topic &&
        decide (fd ∈ s.clientIds))).map Sub.topic).map (fun t => (fd, t))).Nodup :=
      (h.topics.sublist (List.filter_sublist.map _)).map (fun _ _ e => (Prod.mk.inj e).2)
    rwa [List.map_map] at hmap
  rw [← List.length_map (fun s => (fd, s.topic)), ← List.toFinset_card_of_nodup hnodup, copies]
  congr 1
  ext ⟨fd', pattern⟩
  simp only [Finset.mem_filter, List.mem_toFinset, List.mem_map, List.mem_filter, Bool.and_eq_true,
    topicMatch_iff, decide_eq_true_eq, Prod.mk.injEq, h.mem]
  constructor
  · rintro ⟨⟨s, hs, rfl, hfd⟩, rfl, hm⟩
    exact ⟨s, ⟨hs, hm, hfd⟩, rfl, rfl⟩
  · rintro ⟨s, ⟨hs, hm, hfd⟩, rfl, rfl⟩
    exact ⟨⟨s, hs, rfl, hfd⟩, rfl, hm⟩

/-- The messages one entry sends. -/
def sendsOf (sender : Nat) (msg : Bytes) (s : Sub) : List Sent :=
  (s.clientIds.filter (· ≠ sender)).map (fun fd => { fd := fd, msg := msg })

/-- One entry sends at most one message to a descriptor. -/
theorem sendsOf_filter {s : Sub} (h : s.clientIds.Nodup) (sender fd : Nat) (msg : Bytes) :
    (sendsOf sender msg s).filter (fun m => m.fd = fd) =
      List.replicate (if fd ≠ sender ∧ fd ∈ s.clientIds then 1 else 0)
        { fd := fd, msg := msg } := by
  have hcomp : (fun m : Sent => decide (m.fd = fd)) ∘ (fun x => ({ fd := x, msg := msg } : Sent)) =
      fun x => decide (x = fd) := rfl
  rw [sendsOf, List.filter_map, hcomp, List.filter_eq, List.map_replicate, (h.filter _).count]
  simp only [List.mem_filter, decide_eq_true_eq, and_comm]

theorem flatMap_sendsOf_filter {l : List Sub} (h : ∀ s ∈ l, s.clientIds.Nodup)
    (sender fd : Nat) (msg : Bytes) :
    (l.flatMap (sendsOf sender msg)).filter (fun m => m.fd = fd) =
      List.replicate (if fd = sender then 0
        else (l.filter (fun s => decide (fd ∈ s.clientIds))).length) { fd := fd, msg := msg } := by
  induction l with
  | nil => simp
  | cons s l ih =>
    rw [List.flatMap_cons, List.filter_append, sendsOf_filter (h s List.mem_cons_self),
      ih (fun s' hs' => h s' (List.mem_cons_of_mem s hs')), List.replicate_append_replicate]
    congr 1
    by_cases hfd : fd = sender
    · simp [hfd]
    · by_cases hmem : fd ∈ s.clientIds
      · simp [hfd, hmem, Nat.add_comm]
      · simp [hfd, hmem]

/-- The entries that match a topic and list a descriptor. -/
def listing (subs : List Sub) (fd : Nat) (topic : Bytes) : List Sub :=
  subs.filter (fun s => topicMatch s.topic topic && decide (fd ∈ s.clientIds))

/-- What a publication sends to one descriptor: a copy for every entry that lists it. -/
theorem publish_filter (h : ∀ s ∈ subs, s.clientIds.Nodup) (sender fd : Nat)
    (topic payload : Bytes) :
    (publish subs topic payload sender).filter (fun m => m.fd = fd) =
      List.replicate
        (if fd = sender ∨ bufferSize ≤ (pubLine topic payload).length then 0
          else (listing subs fd topic).length)
        { fd := fd, msg := pubLine topic payload } := by
  have hflat : publish subs topic payload sender =
      if bufferSize ≤ (pubLine topic payload).length then []
      else (subs.filter (fun s => topicMatch s.topic topic)).flatMap
        (sendsOf sender (pubLine topic payload)) := rfl
  rw [hflat]
  by_cases hbig : bufferSize ≤ (pubLine topic payload).length
  · simp [hbig]
  · have hids : ∀ s ∈ subs.filter (fun s => topicMatch s.topic topic), s.clientIds.Nodup :=
      fun s hs => h s (List.mem_of_mem_filter hs)
    rw [if_neg hbig, flatMap_sendsOf_filter hids, List.filter_filter]
    simp only [hbig, or_false, Bool.and_comm, listing]

/-- With a table that represents the pairs, the copies are those of the pairs that match. -/
theorem Represents.publish_filter (h : Represents subs pairs) (sender fd : Nat)
    (topic payload : Bytes) :
    (publish subs topic payload sender).filter (fun m => m.fd = fd) =
      List.replicate
        (if fd = sender ∨ bufferSize ≤ (pubLine topic payload).length then 0
          else copies pairs fd topic)
        { fd := fd, msg := pubLine topic payload } := by
  rw [Busd.publish_filter h.ids, h.copies_eq]
  rfl

/-! ## What holds of every entry -/

/-- A property of the descriptors of an entry that adding and dropping `fd` keep. -/
structure Kept (fd : Nat) (P : List Nat → Prop) : Prop where
  nil : P []
  add : ∀ ids, P ids → fd ∉ ids → P (ids ++ [fd])
  drop : ∀ ids, P ids → P (dropFirst fd ids)

/-- Each descriptor once. -/
theorem kept_nodup (fd : Nat) : Kept fd List.Nodup where
  nil := List.nodup_nil
  add := fun _ h hnew => h.append (List.nodup_singleton fd) (by simpa using hnew)
  drop := fun ids h => (dropFirst_perm fd ids).nodup_iff.mpr (h.erase fd)

/-- Descriptors of a list that has `fd`. -/
theorem kept_subset {fds : List Nat} (hfd : fd ∈ fds) : Kept fd (fun ids => ids ⊆ fds) where
  nil := List.nil_subset fds
  add := fun _ h _ => List.append_subset.mpr
    ⟨h, List.cons_subset.mpr ⟨hfd, List.nil_subset fds⟩⟩
  drop := fun ids h _ hx => h (List.mem_of_mem_erase ((dropFirst_perm fd ids).subset hx))

section Kept

variable {P : List Nat → Prop}

theorem updateSub_kept {f : Sub → Sub} (hf : ∀ s, P s.clientIds → P (f s).clientIds)
    (h : ∀ s ∈ subs, P s.clientIds) : ∀ s ∈ updateSub topic f subs, P s.clientIds := by
  induction subs with
  | nil => exact h
  | cons s subs ih =>
    have htail := fun s' hs' => h s' (List.mem_cons_of_mem s hs')
    rw [updateSub]
    split
    · intro s' hs'
      rcases List.mem_cons.mp hs' with rfl | hs'
      · exact hf s (h s List.mem_cons_self)
      · exact htail s' hs'
    · intro s' hs'
      rcases List.mem_cons.mp hs' with rfl | hs'
      · exact h s' List.mem_cons_self
      · exact ih htail s' hs'

theorem Kept.subAdd (hP : Kept fd P) {s : Sub} (h : P s.clientIds) : P (s.add fd).clientIds := by
  unfold Sub.add
  split
  · rename_i hroom
    exact hP.add _ h hroom.2
  · exact h

theorem Kept.subscribe (hP : Kept fd P) (h : ∀ s ∈ subs, P s.clientIds) :
    ∀ s ∈ subscribe fd topic subs, P s.clientIds := by
  unfold Busd.subscribe
  split
  · exact updateSub_kept (fun _ hs => hP.subAdd hs) h
  · split
    · intro s hs
      rcases List.mem_append.mp hs with hs | hs
      · exact h s hs
      · rw [List.mem_singleton.mp hs]
        exact hP.subAdd hP.nil
    · exact h

theorem Kept.unsubscribe (hP : Kept fd P) (h : ∀ s ∈ subs, P s.clientIds) :
    ∀ s ∈ unsubscribe fd topic subs, P s.clientIds :=
  updateSub_kept (fun _ hs => hP.drop _ hs) h

end Kept

end Publish

end Busd
end BuildingBlocks
