import BuildingBlocks.Busd.Network

/-!
# BuildingBlocks.Busd.Parsers

The three parsers of a `PUB` line. `handle_line` reads the topic with `sscanf`, which skips blanks
and stops at any of them or after 255 bytes, and the payload with a scan for the first space;
`bb_bus_poll` splits at the first space.

* `firstSpace` is the split at the first space.
* `parsers_iff` — they agree on an accepted line exactly when the text before that space is a word
  `sscanf` reads whole.
-/

namespace BuildingBlocks
namespace Busd

/-- The text before the first space and the text behind it. -/
def firstSpace (text : Bytes) : Option Call :=
  match text.dropWhile (· ≠ 0x20) with
  | [] => none
  | _ :: payload => some (text.takeWhile (· ≠ 0x20), payload)

/-- The text before the first space is a word of at most 255 bytes. -/
structure Plain (text : Bytes) : Prop where
  nonempty : text.takeWhile (· ≠ 0x20) ≠ []
  short : (text.takeWhile (· ≠ 0x20)).length ≤ 255
  word : ∀ b ∈ text.takeWhile (· ≠ 0x20), isSpace b = false

instance (text : Bytes) : Decidable (Plain text) :=
  decidable_of_iff (text.takeWhile (· ≠ 0x20) ≠ [] ∧ (text.takeWhile (· ≠ 0x20)).length ≤ 255 ∧
      ∀ b ∈ text.takeWhile (· ≠ 0x20), isSpace b = false)
    ⟨fun h => ⟨h.1, h.2.1, h.2.2⟩, fun h => ⟨h.nonempty, h.short, h.word⟩⟩

section Words

variable {n : Nat} {text word rest : Bytes}

/-- `sscanf` reads a word of at most `n` bytes. -/
theorem scanWord_eq_some (h : scanWord n text = some (word, rest)) :
    word ≠ [] ∧ word.length ≤ n ∧ ∀ b ∈ word, isSpace b = false := by
  rw [scanWord] at h
  split_ifs at h with hempty
  cases h
  refine ⟨by simpa using hempty, ?_, ?_⟩
  · exact (List.takeWhile_prefix _).length_le.trans (List.length_take_le _ _)
  · intro b hb
    simpa using List.mem_takeWhile_imp hb

/-- A text that is one word leaves nothing behind it. -/
theorem scanWord_whole (hne : text ≠ []) (hle : text.length ≤ n)
    (hword : ∀ b ∈ text, isSpace b = false) : scanWord n text = some (text, []) := by
  have hdrop : text.dropWhile isSpace = text := by
    obtain ⟨b, text, rfl⟩ := List.exists_cons_of_ne_nil hne
    rw [List.dropWhile_cons_of_neg]
    simpa using hword b List.mem_cons_self
  have htake : (text.take n).takeWhile (fun b => !isSpace b) = text := by
    rw [List.take_of_length_le hle, List.takeWhile_eq_self_iff]
    intro b hb
    simpa using hword b hb
  rw [scanWord]
  simp only [hdrop, htake, List.isEmpty_iff, hne, if_false, List.drop_length]

end Words

/-- Either there is no space, or the text is cut at the first. -/
theorem firstSpace_cases (text : Bytes) :
    (firstSpace text = none ∧ text.takeWhile (· ≠ 0x20) = text) ∨
      ∃ topic payload, firstSpace text = some (topic, payload) ∧
        text.takeWhile (· ≠ 0x20) = topic ∧ text = topic ++ 0x20 :: payload ∧
        ∀ b ∈ topic, b ≠ 0x20 := by
  have hsplit :=
    List.takeWhile_append_dropWhile (p := fun b : UInt8 => decide (b ≠ 0x20)) (l := text)
  cases hrest : text.dropWhile (· ≠ 0x20) with
  | nil =>
    rw [hrest, List.append_nil] at hsplit
    exact .inl ⟨by rw [firstSpace, hrest], hsplit⟩
  | cons b payload =>
    have hb : b = 0x20 := by
      have hhead := List.head?_dropWhile_not (fun b : UInt8 => decide (b ≠ 0x20)) text
      rw [hrest] at hhead
      simpa using hhead
    subst hb
    rw [hrest] at hsplit
    refine .inr ⟨_, payload, by rw [firstSpace, hrest], rfl, hsplit.symm, ?_⟩
    intro b hb
    simpa using List.mem_takeWhile_imp hb

/-- `bb_bus_poll` splits a `PUB` line at its first space. -/
theorem pollLine_eq {line : Bytes} (h : (ascii "PUB ").isPrefixOf line = true) :
    pollLine line = firstSpace (line.drop 4) := by
  rw [pollLine, if_pos h]
  rcases firstSpace_cases (line.drop 4) with
    ⟨hnone, hall⟩ | ⟨topic, payload, hsome, htopic, htext, -⟩
  · simp only [hnone, hall, List.drop_length]
  · rw [hsome, htopic, htext]
    simp only [List.drop_left]

/-- What `handle_line` passes to `publish`. -/
theorem handleLine_lineCall {line : Bytes} {call : Call} (h : lineCall line = some call) (fd : Nat)
    (subs : List Sub) : handleLine fd line subs = (subs, publish subs call.1 call.2 fd) := by
  rw [handleLine_eq]
  rw [lineCall] at h
  cases hreq : request line with
  | pub topic rest payload =>
    simp only [hreq] at h
    split_ifs at h with hblank
    cases h
    simp only [hblank, if_false]
  | sub topic | unsub topic | ping | none => simp [hreq] at h

theorem lineCall_pub {line : Bytes} {call : Call} (h : lineCall line = some call) :
    (ascii "PUB ").isPrefixOf line = true ∧ ∃ rest,
      scanWord 255 (line.drop 4) = some (call.1, rest) ∧ ¬ Blank rest ∧
        call.2 = payloadOf (line.drop 4) := by
  rw [lineCall] at h
  cases hreq : request line with
  | sub topic | unsub topic | ping | none => simp [hreq] at h
  | pub topic rest payload =>
    simp only [hreq] at h
    split_ifs at h with hblank
    cases h
    rw [request] at hreq
    split_ifs at hreq with hpub hsub hunsub hping
    · refine ⟨hpub, ?_⟩
      cases hscan : scanWord 255 (line.drop 4) with
      | none => simp [hscan] at hreq
      | some w =>
        simp only [hscan, Request.pub.injEq] at hreq
        obtain ⟨rfl, rfl, rfl⟩ := hreq
        exact ⟨_, rfl, hblank, rfl⟩
    · cases hscan : scanWord 255 (line.drop 4) <;> simp [hscan] at hreq
    · cases hscan : scanWord 255 (line.drop 6) <;> simp [hscan] at hreq

/-- **The parsers agree exactly on plain topics.** On every line `handle_line` publishes, what it
passes to `publish` is the split of the text behind `PUB ` at its first space, and the call
`bb_bus_poll` makes of the same line, if and only if the text before that space is not empty, has at
most 255 bytes and no blank. -/
theorem parsers_iff (line : Bytes) (call : Call) (h : lineCall line = some call) :
    (∀ fd subs, handleLine fd line subs = (subs, publish subs call.1 call.2 fd)) ∧
      ((firstSpace (line.drop 4) = some call ∧ pollLine line = some call) ↔
        Plain (line.drop 4)) := by
  refine ⟨handleLine_lineCall h, ?_⟩
  obtain ⟨hpub, rest, hscan, hblank, hpayload⟩ := lineCall_pub h
  obtain ⟨hne, hle, hword⟩ := scanWord_eq_some hscan
  rw [pollLine_eq hpub, and_self_iff]
  rcases firstSpace_cases (line.drop 4) with
    ⟨hnone, hall⟩ | ⟨topic, payload, hsome, htopic, htext, hspace⟩
  · rw [hnone]
    refine iff_of_false (by simp) fun hplain => hblank ?_
    have hwhole := scanWord_whole (hall ▸ hplain.nonempty) (hall ▸ hplain.short) fun b hb =>
      hplain.word b (by rwa [hall])
    rw [hscan, Option.some.injEq, Prod.mk.injEq] at hwhole
    rw [hwhole.2]
    rfl
  · rw [hsome, Option.some.injEq]
    constructor
    · rintro rfl
      exact ⟨htopic ▸ hne, htopic ▸ hle, htopic ▸ hword⟩
    · intro hplain
      obtain ⟨hne', hle', hword'⟩ := hplain
      rw [htopic] at hne' hle' hword'
      rw [htext] at hscan hpayload
      rw [scanWord_topic (List.length_pos_of_ne_nil hne') hle' hword', Option.some.injEq,
        Prod.mk.injEq] at hscan
      rw [payloadOf_topic hspace] at hpayload
      exact Prod.ext hscan.1 hpayload.symm

theorem parsers_agree :
    firstSpace (ascii "led on") = some (ascii "led", ascii "on") ∧
      pollLine (ascii "PUB led on") = some (ascii "led", ascii "on") :=
  (parsers_iff (ascii "PUB led on") (ascii "led", ascii "on") rfl).2.mpr (by decide +kernel)

/-- Two spaces behind `PUB`: the daemon publishes the topic `led` with the payload `led on`, where
the split at the first space has an empty topic. -/
theorem two_spaces :
    handleLine 5 (ascii "PUB  led on") [{ topic := ascii "led", clientIds := [6] }] =
        ([{ topic := ascii "led", clientIds := [6] }],
          [{ fd := 6, msg := ascii "PUB led led on\n" }]) ∧
      lineCall (ascii "PUB  led on") = some (ascii "led", ascii "led on") ∧
      firstSpace ((ascii "PUB  led on").drop 4) = some ([], ascii "led on") ∧
      pollLine (ascii "PUB  led on") = some ([], ascii "led on") ∧
      ¬ (firstSpace ((ascii "PUB  led on").drop 4) = some (ascii "led", ascii "led on") ∧
        pollLine (ascii "PUB  led on") = some (ascii "led", ascii "led on")) :=
  ⟨rfl, rfl, rfl, rfl, by decide⟩

end Busd
end BuildingBlocks
