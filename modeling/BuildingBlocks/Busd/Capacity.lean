import BuildingBlocks.Busd.Algebra
import BuildingBlocks.Busd.Parsers

/-!
# BuildingBlocks.Busd.Capacity

Room in the subscription table over a whole session. `SUB` makes an entry for a topic that has none,
`UNSUB` and a hang-up empty entries, and nothing takes one away.

* `TakesEffect` — a `SUB` lists the client under the topic, unless 256 other topics are in use.
* `capacity_iff` — it does exactly while there is an entry of the topic, or room for one more.
* `capacity_lost` — a single client that subscribes to 256 topics in turn uses the table up.
-/

namespace BuildingBlocks
namespace Busd

open Lib

/-- The topics somebody is subscribed to. -/
def inUse (subs : List Sub) : Finset Bytes :=
  ((subs.filter (fun e => e.clientIds ≠ [])).map Sub.topic).toFinset

/-- A `SUB` takes effect unless `maxSubs` other topics are in use. -/
def TakesEffect (s : Session) : Op → Prop
  | .line fd text =>
    match request text with
    | .sub topic =>
      (∃ e ∈ (handleLine fd text s.subs).1, e.topic = topic ∧ fd ∈ e.clientIds) ∨
        maxSubs ≤ ((inUse s.subs).erase topic).card
    | _ => True
  | _ => True

/-- The topic fits an entry, and there is one or room for one. -/
def RoomLeft (s : Session) : Op → Prop
  | .line _ text =>
    match request text with
    | .sub topic =>
      (topic.length ≤ 127 ∧ (topic ∈ s.subs.map Sub.topic ∨ s.subs.length < maxSubs)) ∨
        maxSubs ≤ ((inUse s.subs).erase topic).card
    | _ => True
  | _ => True

instance (s : Session) : DecidablePred (RoomLeft s)
  | .connect _ | .remove _ => .isTrue trivial
  | .line _ text =>
    match hreq : request text with
    | .sub topic =>
      decidable_of_iff ((topic.length ≤ 127 ∧
          (topic ∈ s.subs.map Sub.topic ∨ s.subs.length < maxSubs)) ∨
        maxSubs ≤ ((inUse s.subs).erase topic).card) (by simp [RoomLeft, hreq])
    | .pub _ _ _ | .unsub _ | .ping | .none => .isTrue (by simp [RoomLeft, hreq])

/-- What holds of every session: the table is reachable, and lists connected clients only. -/
structure Kempt (s : Session) : Prop where
  reachable : Reachable s.subs
  nodup : s.connected.Nodup
  few : s.connected.length ≤ maxClients
  connected : ∀ e ∈ s.subs, e.clientIds ⊆ s.connected

section Kempt

variable {s s' : Session} {fd : Nat}

theorem Kempt.init : Kempt { connected := [], subs := [] } where
  reachable := .empty
  nodup := List.nodup_nil
  few := Nat.zero_le _
  connected := fun _ he => absurd he List.not_mem_nil

/-- A connected client finds room in every entry. -/
theorem Kempt.roomFor (h : Kempt s) (hfd : fd ∈ s.connected) : RoomFor fd s.subs :=
  roomFor_of_connected hfd h.few (fun e he => (h.reachable.tidy e he).ids) h.connected

theorem Kempt.step (h : Kempt s) {op : Op} (hs : s.step op = some s') : Kempt s' := by
  cases op with
  | connect fd =>
    simp only [Session.step] at hs
    split_ifs at hs with hc
    cases hs
    refine ⟨h.reachable, h.nodup.append (List.nodup_singleton fd) (by simpa using hc.1),
      by simpa using hc.2, fun e he => ?_⟩
    exact fun x hx => List.mem_append_left _ (h.connected e he hx)
  | line fd text =>
    simp only [Session.step] at hs
    split_ifs at hs with hc
    cases hs
    exact ⟨h.reachable.line fd text, h.nodup, h.few,
      (kept_subset hc).handleLine h.connected text⟩
  | remove fd =>
    simp only [Session.step] at hs
    split_ifs at hs with hc
    cases hs
    refine ⟨h.reachable.drop fd, h.nodup.filter _, (List.length_filter_le _ _).trans h.few, ?_⟩
    intro e he x hx
    obtain ⟨e₀, he₀, rfl⟩ := List.mem_map.mp he
    have hx := (dropAll_perm fd le_rfl).subset hx
    rw [List.mem_filter] at hx ⊢
    exact ⟨h.connected e₀ he₀ hx.1, hx.2⟩

end Kempt

/-! ## The law -/

section Law

variable {s s' : Session} {subs : List Sub} {fd : Nat} {topic : Bytes}

/-- `SUB` lists the client under its topic exactly when the topic fits and has an entry or gets
one. -/
theorem subscribed_iff (hr : Reachable subs) (hroom : RoomFor fd subs) :
    (∃ e ∈ subscribe fd topic subs, e.topic = topic ∧ fd ∈ e.clientIds) ↔
      topic.length ≤ 127 ∧ (topic ∈ subs.map Sub.topic ∨ subs.length < maxSubs) := by
  rcases first_cases topic subs with hnone | ⟨front, e, back, h⟩
  · have hany : ¬ (subs.any (fun s => s.topic = topic) = true) := by
      simpa using hnone
    have hmem : topic ∉ subs.map Sub.topic := by
      simpa using hnone
    rw [subscribe, if_neg hany, or_iff_right hmem]
    split_ifs with hfew
    · have htopic : (Sub.add fd { topic := topic.take 127, clientIds := [] }).topic =
          topic.take 127 := Sub.add_topic _ _
      have hlist : fd ∈ (Sub.add fd { topic := topic.take 127, clientIds := [] }).clientIds :=
        Sub.mem_add fun _ => show 0 < maxClients by decide
      constructor
      · rintro ⟨e, he, ht, -⟩
        rcases List.mem_append.mp he with he | he
        · exact absurd ht (hnone e he)
        · rw [List.mem_singleton.mp he, htopic] at ht
          refine ⟨?_, hfew⟩
          rw [← ht]
          exact List.length_take_le _ _
      · rintro ⟨hlen, -⟩
        refine ⟨_, List.mem_append_right _ (List.mem_singleton_self _), ?_, hlist⟩
        rw [htopic, List.take_of_length_le hlen]
    · refine iff_of_false ?_ (fun h => hfew h.2)
      rintro ⟨e, he, ht, -⟩
      exact hnone e he ht
  · have he : e ∈ subs := by simp [h.split]
    have hlen : topic.length ≤ 127 := h.here ▸ (hr.tidy e he).topic
    have hmem : topic ∈ subs.map Sub.topic := h.here ▸ List.mem_map_of_mem he
    refine iff_of_true ?_ ⟨hlen, .inl hmem⟩
    rw [h.subscribe]
    refine ⟨e.add fd, by simp, ?_, Sub.mem_add (hroom e he)⟩
    rw [e.add_topic, h.here]

theorem takesEffect_iff {op : Op} (hk : Kempt s) (hs : s.step op = some s') :
    TakesEffect s op ↔ RoomLeft s op := by
  cases op with
  | connect fd | remove fd => exact Iff.rfl
  | line fd text =>
    simp only [Session.step] at hs
    split_ifs at hs with hc
    simp only [TakesEffect, RoomLeft, handleLine_eq]
    cases request text with
    | sub topic => exact or_congr_left (subscribed_iff hk.reachable (hk.roomFor hc))
    | pub topic rest payload | unsub topic | ping | none => exact Iff.rfl

/-- **Capacity lasts exactly as long as the entries.** In every session, every `SUB` of a connected
client takes effect or finds 256 other topics in use, if and only if every one finds its topic in
the table or fewer than 256 entries made so far, and the topic has at most 127 bytes, or 256 other
topics are in use. -/
theorem capacity_iff (ops : List Op) (s : Session)
    (hrun : run Session.step { connected := [], subs := [] } ops = some s) :
    Meets Session.step TakesEffect { connected := [], subs := [] } ops ↔
      Meets Session.step RoomLeft { connected := [], subs := [] } ops :=
  meets_iff_of_invariant (P := TakesEffect) (Q := RoomLeft) (I := Kempt)
    (fun _ _ _ hk hs => takesEffect_iff hk hs) (fun _ _ _ hk _ hs => hk.step hs) Kempt.init hrun

end Law

theorem capacity_two :
    Meets Session.step TakesEffect { connected := [], subs := [] } twoClients := by
  obtain ⟨s, hs⟩ : ∃ s, run Session.step { connected := [], subs := [] } twoClients = some s :=
    ⟨_, rfl⟩
  exact (capacity_iff twoClients s hs).mpr (by decide)

/-! ## Topics that come and go -/

theorem request_sub {topic : Bytes} (hne : topic ≠ []) (hlen : topic.length ≤ 255)
    (hword : ∀ b ∈ topic, isSpace b = false) : request (ascii "SUB " ++ topic) = .sub topic := by
  have hpub : (ascii "PUB ").isPrefixOf (ascii "SUB " ++ topic) = false := rfl
  have hsub : (ascii "SUB ").isPrefixOf (ascii "SUB " ++ topic) = true := rfl
  have hdrop : (ascii "SUB " ++ topic).drop 4 = topic := rfl
  rw [request]
  simp only [hpub, hsub, hdrop, scanWord_whole hne hlen hword, if_true, if_false,
    Bool.false_eq_true]

theorem request_unsub {topic : Bytes} (hne : topic ≠ []) (hlen : topic.length ≤ 255)
    (hword : ∀ b ∈ topic, isSpace b = false) :
    request (ascii "UNSUB " ++ topic) = .unsub topic := by
  have hpub : (ascii "PUB ").isPrefixOf (ascii "UNSUB " ++ topic) = false := rfl
  have hsub : (ascii "SUB ").isPrefixOf (ascii "UNSUB " ++ topic) = false := rfl
  have hunsub : (ascii "UNSUB ").isPrefixOf (ascii "UNSUB " ++ topic) = true := rfl
  have hdrop : (ascii "UNSUB " ++ topic).drop 6 = topic := rfl
  rw [request]
  simp only [hpub, hsub, hunsub, hdrop, scanWord_whole hne hlen hword, if_true, if_false,
    Bool.false_eq_true]

/-- A client subscribes to each topic and ends the subscription. -/
def churn (fd : Nat) (topics : List Bytes) : List Op :=
  topics.flatMap fun topic =>
    [.line fd (ascii "SUB " ++ topic), .line fd (ascii "UNSUB " ++ topic)]

/-- Entries that list nobody. -/
def vacant (topics : List Bytes) : List Sub := topics.map fun t => { topic := t, clientIds := [] }

/-- Every topic leaves an entry that lists nobody. -/
theorem run_churn {s : Session} {fd : Nat} (hfd : fd ∈ s.connected) {topics : List Bytes}
    (hwords : ∀ t ∈ topics, t ≠ [] ∧ t.length ≤ 127 ∧ ∀ b ∈ t, isSpace b = false)
    (hnew : ∀ t ∈ topics, t ∉ s.subs.map Sub.topic) (hnodup : topics.Nodup)
    (hfew : s.subs.length + topics.length ≤ maxSubs) :
    run Session.step s (churn fd topics) =
      some { s with subs := s.subs ++ vacant topics } := by
  induction topics generalizing s with
  | nil => simp [churn, vacant]
  | cons t topics ih =>
    rw [List.forall_mem_cons] at hwords hnew
    rw [List.nodup_cons] at hnodup
    rw [List.length_cons] at hfew
    obtain ⟨⟨hne, hlen, hword⟩, hwords⟩ := hwords
    have hlen255 : t.length ≤ 255 := hlen.trans (by decide)
    have hnone : ∀ x ∈ s.subs, x.topic ≠ t := fun x hx ht =>
      hnew.1 (ht ▸ List.mem_map_of_mem hx)
    have hany : ¬ (s.subs.any (fun x => x.topic = t) = true) := by simpa using hnone
    have hsub : subscribe fd t s.subs = s.subs ++ [{ topic := t, clientIds := [fd] }] := by
      rw [subscribe, if_neg hany, if_pos (by omega), List.take_of_length_le hlen]
      rfl
    have hfirst : First t (s.subs ++ [{ topic := t, clientIds := [fd] }]) s.subs
        { topic := t, clientIds := [fd] } [] := ⟨rfl, rfl, hnone⟩
    have hunsub : unsubscribe fd t (s.subs ++ [{ topic := t, clientIds := [fd] }]) =
        s.subs ++ [{ topic := t, clientIds := [] }] := by
      rw [hfirst.unsubscribe]
      simp [dropFirst, moveLast]
    have hrest := ih (s := { s with subs := s.subs ++ [{ topic := t, clientIds := [] }] }) hfd
      hwords (fun t' ht' => by
        simp only [List.map_append, List.map_cons, List.map_nil, List.mem_append,
          List.mem_singleton, not_or]
        exact ⟨hnew.2 t' ht', fun h => hnodup.1 (h ▸ ht')⟩) hnodup.2 (by
        simp only [List.length_append, List.length_singleton]
        omega)
    simp only [List.append_assoc, List.singleton_append] at hrest
    rw [churn, List.flatMap_cons]
    simp only [List.cons_append, List.nil_append, run, Session.step, hfd, if_true, handleLine_eq,
      request_sub hne hlen255 hword, request_unsub hne hlen255 hword, hsub, hunsub, vacant,
      List.map_cons]
    exact hrest

/-- Topics of two letters. -/
def letters (i : Nat) : Bytes := [UInt8.ofNat (0x61 + i / 16), UInt8.ofNat (0x61 + i % 16)]

theorem letters_word (i : Nat) (hi : i < 256) :
    letters i ≠ [] ∧ (letters i).length ≤ 127 ∧ ∀ b ∈ letters i, isSpace b = false := by
  refine ⟨by simp [letters], by simp [letters], ?_⟩
  have hletter : ∀ n < 16, isSpace (UInt8.ofNat (0x61 + n)) = false := by decide
  rw [letters, List.forall_mem_cons, List.forall_mem_singleton]
  exact ⟨hletter _ (by omega), hletter _ (by omega)⟩

theorem letters_inj {i j : Nat} (hi : i < 256) (hj : j < 256) (h : letters i = letters j) :
    i = j := by
  have hofNat : ∀ m n, m < 16 → n < 16 →
      UInt8.ofNat (0x61 + m) = UInt8.ofNat (0x61 + n) → m = n := by
    intro m n hm hn he
    have hnat := congrArg UInt8.toNat he
    simp only [UInt8.toNat_ofNat'] at hnat
    omega
  simp only [letters, List.cons.injEq, and_true] at h
  have hhigh := hofNat _ _ (by omega) (by omega) h.1
  have hlow := hofNat _ _ (by omega) (by omega) h.2
  omega

/-- The table after 256 topics. -/
def usedUp : Session where
  connected := [5]
  subs := vacant ((List.range 256).map letters)

theorem run_usedUp :
    run Session.step { connected := [], subs := [] }
      (.connect 5 :: churn 5 ((List.range 256).map letters)) = some usedUp := by
  refine run_cons_eq_some.mpr ⟨{ connected := [5], subs := [] }, rfl, ?_⟩
  refine run_churn (by simp) ?_ (by simp) ?_ (by simp [maxSubs])
  · intro t ht
    obtain ⟨i, hi, rfl⟩ := List.mem_map.mp ht
    exact letters_word i (List.mem_range.mp hi)
  · exact List.nodup_range.map_on fun i hi j hj h =>
      letters_inj (List.mem_range.mp hi) (List.mem_range.mp hj) h

/-- One client, 256 topics in turn: nobody is subscribed to anything, and the next `SUB` does
nothing. -/
theorem capacity_lost :
    run Session.step { connected := [], subs := [] }
        (.connect 5 :: churn 5 ((List.range 256).map letters)) = some usedUp ∧
      inUse usedUp.subs = ∅ ∧
      (handleLine 5 (ascii "SUB led") usedUp.subs).1 = usedUp.subs ∧
      ¬ Meets Session.step TakesEffect { connected := [], subs := [] }
        (.connect 5 :: churn 5 ((List.range 256).map letters) ++ [.line 5 (ascii "SUB led")]) := by
  have hempty : ∀ e ∈ usedUp.subs, e.clientIds = [] ∧ e.topic.length = 2 := by
    simp [usedUp, vacant, letters]
  have hfree : inUse usedUp.subs = ∅ := by
    have hnone : usedUp.subs.filter (fun e => e.clientIds ≠ []) = [] := by
      rw [List.filter_eq_nil_iff]
      intro e he
      simp [(hempty e he).1]
    rw [inUse, hnone]
    rfl
  have hreq : request (ascii "SUB led") = .sub (ascii "led") := rfl
  have hsame : (handleLine 5 (ascii "SUB led") usedUp.subs).1 = usedUp.subs := by
    have hnone : ¬ (usedUp.subs.any (fun e => e.topic = ascii "led") = true) := by
      rw [List.any_eq_true]
      rintro ⟨e, he, ht⟩
      have hlen := (hempty e he).2
      rw [of_decide_eq_true ht] at hlen
      exact absurd hlen (by decide)
    have hfull : ¬ usedUp.subs.length < maxSubs := by simp [usedUp, vacant, maxSubs]
    rw [handleLine_eq, hreq]
    simp only [subscribe, if_neg hnone, if_neg hfull]
  refine ⟨run_usedUp, hfree, hsame, fun hm => ?_⟩
  have hlaw := hm.of_run run_usedUp
  simp only [TakesEffect, hreq, hsame, hfree] at hlaw
  rcases hlaw with ⟨e, he, -, hfd⟩ | hcard
  · rw [(hempty e he).1] at hfd
    exact absurd hfd List.not_mem_nil
  · exact absurd hcard (by decide)

end Busd
end BuildingBlocks
