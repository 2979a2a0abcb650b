import BuildingBlocks.Json.WellFormed

/-!
# BuildingBlocks.Led.Event

The events of `blocks/bb-led/main.c`.

* `onCmdEvent` is the object `on_cmd` writes for a payload, with the size of its buffer.
* `event_iff` — the text published is that object, unless the state of a `solid` command needs an
  escape or is too long for the buffer.
* `injection_iff` joins it with the law of the writer.
-/

namespace BuildingBlocks
namespace Led

open Json
open JsonText (Clean)

/-! ## The code -/

/-- The size of `evt` and the members added to it; `status` publishes the state instead. -/
def onCmdEvent (payload : Bytes) : Option (Nat × List (Bytes × Value)) :=
  match getString payload (ascii "cmd") with
  | none => none
  | some cmd =>
    if cmd = ascii "blink" then
      some (256, [(ascii "type", .str (ascii "blink_start")),
        (ascii "on_ms", .int (getInt payload (ascii "on_ms") 500)),
        (ascii "off_ms", .int (getInt payload (ascii "off_ms") 500)),
        (ascii "count", .int (getInt payload (ascii "count") 0))])
    else if cmd = ascii "solid" then
      some (256, [(ascii "type", .str (ascii "solid")),
        (ascii "state", .str ((getString payload (ascii "state")).getD (ascii "on")))])
    else if cmd = ascii "heartbeat" then
      some (256, [(ascii "type", .str (ascii "mode")), (ascii "mode", .str (ascii "heartbeat"))])
    else if cmd = ascii "status" then none
    else if cmd = ascii "stop" then some (128, [(ascii "type", .str (ascii "stopped"))])
    else none

/-- The event at the end of `blink_thread`. -/
def blinkDone (cycles : Int) : Nat × List (Bytes × Value) :=
  (256, [(ascii "type", .str (ascii "blink_done")), (ascii "cycles", .int cycles)])

/-- What an event is published as; `mem` is what the stack holds before. -/
def published (mem : Nat → UInt8) (ev : Nat × List (Bytes × Value)) : Bytes :=
  written mem ev.1 ev.2

/-- The event is an object with exactly the members added to it. -/
def Exact (mem : Nat → UInt8) (ev : Nat × List (Bytes × Value)) : Prop :=
  JsonText.parse (published mem ev) = some (.obj (ev.2.map member))

/-- The state a `solid` command names is one the writer can put into the buffer as it is. -/
def EventOk (payload : Bytes) : Prop :=
  getString payload (ascii "cmd") = some (ascii "solid") →
    ∀ s ∈ getString payload (ascii "state"), Clean s ∧ s.length ≤ 228

instance (payload : Bytes) : Decidable (EventOk payload) :=
  inferInstanceAs (Decidable (_ → ∀ _ ∈ _, _ ∧ _))

/-! ## Events that fit -/

section Fits

variable {mem : Nat → UInt8} {ev : Nat × List (Bytes × Value)}

theorem CleanEntry.zero_not_mem {e : Bytes × Value} (h : CleanEntry e) :
    (0 : UInt8) ∉ e.1 ∧ (0 : UInt8) ∉ valueText e.2 := by
  obtain ⟨hkey, hval⟩ := h
  refine ⟨hkey.not_mem (by decide), zero_not_mem_valueText ?_⟩
  intro s hs
  exact (hval s (Value.str?_eq_some.mpr hs)).not_mem (by decide)

/-- Clean entries whose text fits are published as they are. -/
theorem exact_of_fits (hne : ev.2 ≠ []) (hclean : ∀ e ∈ ev.2, CleanEntry e)
    (hshort : ∀ e ∈ ev.2, Short e) (hsize : ev.1 ≤ 256)
    (hroom : 1 + entriesLength ev.2 < ev.1) :
    Exact mem ev := by
  have hlen := length_document hshort hne
  rw [Exact, published, write_document mem (by omega) (by omega)
    (zero_not_mem_document (fun e he => CleanEntry.zero_not_mem (hclean e he)))]
  exact parse_document hshort hclean

theorem cleanEntry_int {key : Bytes} (h : Clean key) (z : Int) : CleanEntry (key, .int z) :=
  ⟨h, fun _ hs => nomatch hs⟩

theorem valueText_int (z : Int) : valueText (.int z) = intText z := rfl

theorem length_getInt_le (payload key : Bytes) {d : Int} (hlo : -0x80000000 ≤ d)
    (hhi : d < 0x80000000) :
    (intText (getInt payload key d)).length ≤ 11 := by
  unfold getInt
  split
  · exact length_intText_le hlo hhi
  · exact length_intText_le (atoi_range _).1 (atoi_range _).2

theorem exact_blink (payload : Bytes) :
    Exact mem (256, [(ascii "type", .str (ascii "blink_start")),
      (ascii "on_ms", .int (getInt payload (ascii "on_ms") 500)),
      (ascii "off_ms", .int (getInt payload (ascii "off_ms") 500)),
      (ascii "count", .int (getInt payload (ascii "count") 0))]) := by
  have hon := length_getInt_le payload (ascii "on_ms") (d := 500) (by decide) (by decide)
  have hoff := length_getInt_le payload (ascii "off_ms") (d := 500) (by decide) (by decide)
  have hcount := length_getInt_le payload (ascii "count") (d := 0) (by decide) (by decide)
  have htype : (valueText (.str (ascii "blink_start"))).length = 13 := by decide
  refine exact_of_fits (by simp) ?_ ?_ le_rfl ?_
  · simp only [List.forall_mem_cons, List.not_mem_nil, false_implies, implies_true, and_true]
    exact ⟨by decide, cleanEntry_int (by decide) _, cleanEntry_int (by decide) _,
      cleanEntry_int (by decide) _⟩
  · simp only [List.forall_mem_cons, List.not_mem_nil, false_implies, implies_true, and_true,
      Short, htype, valueText_int]
    refine ⟨by decide, ⟨by decide, ?_⟩, ⟨by decide, ?_⟩, ⟨by decide, ?_⟩⟩ <;> omega
  · have hkeys : (ascii "type").length = 4 ∧ (ascii "on_ms").length = 5 ∧
        (ascii "off_ms").length = 6 ∧ (ascii "count").length = 5 := by decide
    simp only [entriesLength, htype, valueText_int, hkeys]
    omega

theorem exact_blinkDone {cycles : Int} (hlo : -0x80000000 ≤ cycles) (hhi : cycles < 0x80000000) :
    Exact mem (blinkDone cycles) := by
  have hcycles := length_intText_le hlo hhi
  have htype : (valueText (.str (ascii "blink_done"))).length = 12 := by decide
  refine exact_of_fits (by simp [blinkDone]) ?_ ?_ le_rfl ?_
  · simp only [blinkDone, List.forall_mem_cons, List.not_mem_nil, false_implies, implies_true,
      and_true]
    exact ⟨by decide, cleanEntry_int (by decide) _⟩
  · simp only [blinkDone, List.forall_mem_cons, List.not_mem_nil, false_implies, implies_true,
      and_true, Short, htype, valueText_int]
    refine ⟨by decide, ⟨by decide, ?_⟩⟩
    omega
  · have hkeys : (ascii "type").length = 4 ∧ (ascii "cycles").length = 6 := by decide
    simp only [blinkDone, entriesLength, htype, valueText_int, hkeys]
    omega

end Fits

/-! ## The state of a solid command -/

section Solid

variable {mem : Nat → UInt8} {s : Bytes}

def solidPairs (s : Bytes) : List (Bytes × Bytes) :=
  [(ascii "type", ascii "solid"), (ascii "state", s)]

theorem solidPairs_keys (s : Bytes) : ∀ p ∈ solidPairs s, p.1.all isIdent = true := by
  simp only [solidPairs, List.forall_mem_cons, List.not_mem_nil, false_implies, implies_true,
    and_true]
  exact ⟨by decide, by decide⟩

theorem total_solidPairs (s : Bytes) : JsonText.total (solidPairs s) = 26 + s.length := by
  have hlen : (ascii "type").length = 4 ∧ (ascii "solid").length = 5 ∧
      (ascii "state").length = 5 := by decide
  simp only [solidPairs, JsonText.total, hlen]
  omega

/-- What is in the buffer before the state, with 232 bytes left. -/
theorem solid_head (mem : Nat → UInt8) :
    ∃ text, text.length = 24 ∧
      Holds (addKey (ascii "state") (addString (ascii "type") (some (ascii "solid"))
        (startObject (init mem 256)))) text ∧
      (addKey (ascii "state") (addString (ascii "type") (some (ascii "solid"))
        (startObject (init mem 256)))).size = 256 := by
  have hinit : Holds (init mem 256) [] := ⟨rfl, rfl⟩
  obtain ⟨hstart, hstartSize⟩ := hinit.push (c := 0x7b) (show 0 < 256 by decide)
  obtain ⟨htype, htypeSize⟩ := hstart.add (e := (ascii "type", .str (ascii "solid")))
    (by rw [hstartSize]; show (256 : Nat) < 0x10000000000000000; decide)
    (by rw [hstartSize]; show _ < (256 : Nat); decide)
  rw [hstartSize] at htypeSize
  obtain ⟨hkey, hkeySize⟩ := htype.print (t := quote :: ascii "state" ++ [quote, colon])
    (by rw [htypeSize]; show (256 : Nat) < 0x10000000000000000; decide)
    (by rw [htypeSize]; show _ < (256 : Nat); decide)
  exact ⟨_, by decide, hkey, hkeySize.trans htypeSize⟩

/-- A writer whose position is past the buffer, or at its end behind no comma, closes nothing. -/
theorem endObject_full {w : Writer}
    (h : w.size < w.pos ∨ w.size = w.pos ∧ w.buf (w.pos - 1) ≠ comma) :
    (endObject w).buf = w.buf := by
  have htrim : ∃ pos, w.size ≤ pos ∧
      (if 1 < w.pos ∧ w.buf (w.pos - 1) = comma then { w with pos := w.pos - 1 } else w) =
        { w with pos := pos } := by
    split_ifs with hc
    · refine ⟨w.pos - 1, ?_, rfl⟩
      rcases h with h | ⟨-, hlast⟩
      · omega
      · exact absurd hc.2 hlast
    · refine ⟨w.pos, ?_, rfl⟩
      rcases h with h | ⟨h, -⟩
      · omega
      · omega
  obtain ⟨pos, hpos, he⟩ := htrim
  have hpush : Writer.push 0x7d { w with pos := pos } = { w with pos := pos } :=
    if_neg (Nat.not_lt.mpr hpos)
  rw [endObject, he]
  simp only [hpush, Nat.not_lt.mpr hpos, if_false]

/-- A state that is too long leaves a NUL at the end of the buffer, and no brace. -/
theorem solid_cut (hlen : 228 < s.length) (hint : s.length ≤ 255) :
    (write ((solidPairs s).map strEntry) (init mem 256)).buf 255 = 0 := by
  obtain ⟨text, htext, ⟨hpos, -⟩, hsize⟩ := solid_head mem
  have hwrite : write ((solidPairs s).map strEntry) (init mem 256) =
      endObject ((addKey (ascii "state") (addString (ascii "type") (some (ascii "solid"))
        (startObject (init mem 256)))).print (quote :: s ++ [quote, comma])) := rfl
  rw [hwrite]
  generalize addKey (ascii "state") (addString (ascii "type") (some (ascii "solid"))
    (startObject (init mem 256))) = w at hpos hsize ⊢
  rw [htext] at hpos
  have hval : (quote :: s ++ [quote, comma]).length = s.length + 3 := by
    simp only [List.cons_append, List.length_cons, List.length_append, List.length_nil]
  have hcut : ((quote :: s ++ [quote, comma]).take 231).length = 231 := by
    rw [List.length_take, hval]
    omega
  have hlimit : sizeT (w.size + 0x10000000000000000 - w.pos) = 232 := by
    rw [hsize, hpos]
    decide
  have hbuf : (w.print (quote :: s ++ [quote, comma])).buf =
      store w.buf 24 ((quote :: s ++ [quote, comma]).take 231 ++ [0]) := by
    rw [Writer.print, hlimit, hpos]
    rfl
  have hnewPos : (w.print (quote :: s ++ [quote, comma])).pos = s.length + 27 := by
    rw [Writer.print, hlimit, hpos]
    simp only [snprintf, hval]
    rw [if_pos (show s.length + 3 < 0x80000000 by omega), if_pos (by omega), sizeT_of_lt (by omega)]
    omega
  have hnul : (w.print (quote :: s ++ [quote, comma])).buf 255 = 0 := by
    have hat := store_at w.buf 24
      (show 231 < ((quote :: s ++ [quote, comma]).take 231 ++ [0]).length by
        rw [List.length_append, hcut]; decide)
    rw [hbuf, show 255 = 24 + 231 from rfl, hat, List.getElem_append_right (by omega)]
    simp
  rw [endObject_full, hnul]
  have hsame : (w.print (quote :: s ++ [quote, comma])).size = 256 := hsize
  rw [hsame, hnewPos]
  rcases Nat.lt_or_ge 229 s.length with h | h
  · exact Or.inl (by omega)
  · right
    have hexact : s.length = 229 := by omega
    rw [hexact]
    refine ⟨rfl, ?_⟩
    rw [hnul]
    decide

/-- The event of a state is exact if and only if the state needs no escape and fits. -/
theorem exact_solid_iff (hint : s.length ≤ 255) (hzero : (0 : UInt8) ∉ s) :
    Exact mem (256, (solidPairs s).map strEntry) ↔ Clean s ∧ s.length ≤ 228 := by
  have hmap : ((solidPairs s).map strEntry).map member =
      (solidPairs s).map JsonText.strMember := by
    rw [List.map_map]
    rfl
  rw [Exact, hmap]
  rcases Nat.lt_or_ge 228 s.length with hlong | hfits
  · refine iff_of_false ?_ (fun h => absurd h.2 (by omega))
    intro hparse
    have hlen := (JsonText.parse_length hparse).1
    have hcut : (published mem (256, (solidPairs s).map strEntry)).length ≤ 255 :=
      length_cstr_rows_le (solid_cut hlong hint) 256
    rw [total_solidPairs] at hlen
    omega
  · have hshort : ∀ e ∈ (solidPairs s).map strEntry, Short e := by
      refine List.forall_mem_map.mpr ?_
      intro p hp
      rw [short_strEntry_iff]
      simp only [solidPairs, List.mem_cons, List.not_mem_nil, or_false] at hp
      rcases hp with rfl | rfl
      · decide
      · have hkey : (ascii "state").length = 5 := by decide
        simp only [hkey]
        exact ⟨by decide, by omega⟩
    have hzero' : ∀ e ∈ (solidPairs s).map strEntry,
        (0 : UInt8) ∉ e.1 ∧ (0 : UInt8) ∉ valueText e.2 := by
      refine List.forall_mem_map.mpr ?_
      intro p hp
      simp only [solidPairs, List.mem_cons, List.not_mem_nil, or_false] at hp
      rcases hp with rfl | rfl
      · decide
      · refine ⟨show (0 : UInt8) ∉ ascii "state" by decide, zero_not_mem_valueText ?_⟩
        intro s' hs'
        cases hs'
        exact hzero
    have hroom : (document ((solidPairs s).map strEntry)).length < 256 := by
      rw [length_document_strings (fun p hp => hshort _ (List.mem_map_of_mem hp))
        (by simp [solidPairs]), total_solidPairs]
      omega
    rw [published, write_document mem (by decide) hroom (zero_not_mem_document hzero'),
      parse_document_iff (solidPairs_keys s)]
    simp only [solidPairs, List.forall_mem_cons, List.not_mem_nil, false_implies, implies_true,
      and_true, Writable]
    constructor
    · rintro ⟨-, hclean, -⟩
      exact ⟨hclean, hfits⟩
    · rintro ⟨hclean, -⟩
      exact ⟨by decide, hclean, by decide, by omega⟩

end Solid

section Theorems

variable {mem : Nat → UInt8}

/-- The event of a payload is exact if and only if the state it names can be written. -/
theorem event_iff (payload : Bytes) (hpayload : (0 : UInt8) ∉ payload)
    {ev : Nat × List (Bytes × Value)} (hev : onCmdEvent payload = some ev) :
    Exact mem ev ↔ EventOk payload := by
  unfold onCmdEvent at hev
  cases hcmd : getString payload (ascii "cmd") with
  | none =>
    rw [hcmd] at hev
    cases hev
  | some cmd =>
    simp only [hcmd] at hev
    have hother : cmd ≠ ascii "solid" → EventOk payload := by
      intro hne hsolid
      rw [hcmd] at hsolid
      exact absurd (Option.some.inj hsolid) hne
    split_ifs at hev with hblink hsolid hheart hstatus hstop
    · cases hev
      exact iff_of_true (exact_blink payload) (hother (by rw [hblink]; decide))
    · cases hev
      cases hstate : getString payload (ascii "state") with
      | none =>
        have hok : EventOk payload := by
          intro _ s hs
          rw [hstate] at hs
          cases hs
        exact iff_of_true ((exact_solid_iff (s := ascii "on") (by decide) (by decide)).mpr
          (by decide)) hok
      | some s =>
        obtain ⟨hint, hzero⟩ := getString_bounds hpayload hstate
        have hok : EventOk payload ↔ Clean s ∧ s.length ≤ 228 := by
          rw [EventOk, hcmd, hsolid, hstate]
          simp
        rw [hok]
        exact exact_solid_iff hint hzero
    · cases hev
      exact iff_of_true (exact_of_fits (by simp) (by decide) (by decide) (by decide) (by decide))
        (hother (by rw [hheart]; decide))
    · cases hev
      exact iff_of_true (exact_of_fits (by simp) (by decide) (by decide) (by decide) (by decide))
        (hother (by rw [hstop]; decide))

/-- **The writer escapes nothing.** For every list of identifier keys and strings without NUL that
fits the buffer, the text is a JSON object with exactly these members if and only if no string
needs an escape; and the event published for a payload is exact if and only if the state that a
`solid` command names needs none and fits. -/
theorem injection_iff (mem : Nat → UInt8) :
    (∀ (size : Nat) (pairs : List (Bytes × Bytes)),
      (∀ p ∈ pairs, p.1.all isIdent = true ∧ (0 : UInt8) ∉ p.2) →
      size < 0x10000000000000000 → (document (pairs.map strEntry)).length < size →
      (JsonText.parse (written mem size (pairs.map strEntry)) =
          some (.obj (pairs.map JsonText.strMember)) ↔ ∀ p ∈ pairs, Writable p)) ∧
      (∀ payload : Bytes, (0 : UInt8) ∉ payload →
        ∀ ev, onCmdEvent payload = some ev → (Exact mem ev ↔ EventOk payload)) ∧
      ∀ cycles : Int, -0x80000000 ≤ cycles → cycles < 0x80000000 →
        Exact mem (blinkDone cycles) := by
  refine ⟨?_, fun _ h _ hev => event_iff _ h hev, fun _ hlo hhi => exact_blinkDone hlo hhi⟩
  intro size pairs hpairs hsize hroom
  have hkeys : ∀ p ∈ pairs, p.1.all isIdent = true := fun p hp => (hpairs p hp).1
  have hzero : ∀ e ∈ pairs.map strEntry, (0 : UInt8) ∉ e.1 ∧ (0 : UInt8) ∉ valueText e.2 := by
    refine List.forall_mem_map.mpr ?_
    intro p hp
    refine ⟨(clean_of_isIdent (hkeys p hp)).not_mem (by decide), zero_not_mem_valueText ?_⟩
    intro s hs
    cases hs
    exact (hpairs p hp).2
  rw [write_document mem hsize hroom (zero_not_mem_document hzero)]
  exact parse_document_iff hkeys

/-- A `solid` command with a state no event has trouble with. -/
def dimPayload : Bytes := ascii "\x7b\"cmd\":\"solid\",\"state\":\"dim\"\x7d"

theorem plain_exact :
    JsonText.parse (written (fun _ => 0) 64 [strEntry (ascii "cmd", ascii "ask me")]) =
        some (.obj [JsonText.strMember (ascii "cmd", ascii "ask me")]) ∧
      ∃ ev, onCmdEvent dimPayload = some ev ∧ Exact (fun _ => 0) ev := by
  obtain ⟨hwriter, hevent, -⟩ := injection_iff (fun _ => 0)
  refine ⟨(hwriter 64 [(ascii "cmd", ascii "ask me")] (by decide) (by decide)
    (by decide)).mpr (by decide), _, rfl, ?_⟩
  exact (hevent dimPayload (by decide) _ rfl).mpr (by decide)

/-- A `solid` command whose state holds an escaped quote. -/
def forgedPayload : Bytes :=
  ascii "\x7b\"cmd\":\"solid\",\"state\":\"on\\\",\\\"type\\\":\\\"stopped\"\x7d"

/-- The state becomes a member of the event. -/
theorem forged_member :
    ∃ ev, onCmdEvent forgedPayload = some ev ∧
      published (fun _ => 0) ev =
        ascii "\x7b\"type\":\"solid\",\"state\":\"on\",\"type\":\"stopped\"\x7d" ∧
      ¬ Exact (fun _ => 0) ev := by
  refine ⟨_, rfl, by decide, ?_⟩
  rw [event_iff forgedPayload (by decide) rfl]
  decide

end Theorems

end Led
end BuildingBlocks
