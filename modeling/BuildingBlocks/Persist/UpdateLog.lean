import BuildingBlocks.Json.Reader
import BuildingBlocks.Lib.Print
import BuildingBlocks.Persist.Config
import BuildingBlocks.Update.Install

/-!
# BuildingBlocks.Persist.UpdateLog

The update history of `libbb/bb_persist.c`: one object a line, written with `fprintf`, read with
`strstr`.

* `updateLogAdd`, `updateLogRead` are the functions; the installer prints its own variant of the
  line.
* `parseLine_logText` — what the reader makes of a line, whoever wrote it.
* `updateLog_iff` — the history comes back exactly when no update in it succeeded.
-/

namespace BuildingBlocks
namespace Persist

open Lib Json

/-! ## The code -/

/-- `bb_update_entry_t`. -/
structure UpdateEntry where
  timestamp : UInt64
  fromVersion : Vector UInt8 32
  toVersion : Vector UInt8 32
  targetSlot : UInt8
  success : Int
deriving DecidableEq

/-- The line of an entry; `ok` is how its last field is printed. -/
def logText (ts fromVersion toVersion : Bytes) (slot : UInt8) (ok : Bytes) : Bytes :=
  ascii "\x7b\"ts\":" ++ ts ++ ascii ",\"from\":\"" ++ fromVersion ++ ascii "\",\"to\":\"" ++
    toVersion ++ ascii "\",\"slot\":\"" ++ [slot] ++ ascii "\",\"ok\":" ++ ok ++ ascii "\x7d\n"

/-- What `bb_persist_update_log_add` prints: `%llu`, `%s`, `%s`, `%c`, `%d`. -/
def UpdateEntry.line (e : UpdateEntry) : Bytes :=
  logText (natText e.timestamp.toNat) (cstr e.fromVersion.toList) (cstr e.toVersion.toList)
    e.targetSlot (intText e.success)

/-- `bb_persist_update_log_add` on the file, which `"a"` creates when it opens. -/
def updateLogAdd (opens : Bool) (e : UpdateEntry) (log : Option Bytes) : Int × Option Bytes :=
  if opens then (0, some (log.getD [] ++ e.line)) else (-1, log)

/-- `memcpy` of a text and a NUL behind it. -/
def storeText (old : Vector UInt8 32) (text : Bytes) : Vector UInt8 32 :=
  Vector.ofFn (fun i => if i < text.length then text.getD i 0
    else if i = text.length then 0 else old[i])

/-- A version behind the first `pat`, up to the next quote, if it fits. -/
def scanVersion (pat line : Bytes) (old : Vector UInt8 32) : Vector UInt8 32 :=
  match strstr pat line with
  | none => old
  | some p =>
    let start := p.drop pat.length
    let text := start.takeWhile (· ≠ quote)
    if quote ∈ start ∧ text.length < 32 then storeText old text else old

/-- One pass of the loop of `bb_persist_update_log_read`: a field that is not found keeps the value
the entry had. -/
def parseLine (line : Bytes) (old : UpdateEntry) : UpdateEntry :=
  let line := cstr line
  { timestamp :=
      match strstr (ascii "\"ts\":") line with
      | none => old.timestamp
      | some p => UInt64.ofNat (strtoull (p.drop 5))
    fromVersion := scanVersion (ascii "\"from\":\"") line old.fromVersion
    toVersion := scanVersion (ascii "\"to\":\"") line old.toVersion
    targetSlot :=
      match strstr (ascii "\"slot\":\"") line with
      | none => old.targetSlot
      | some p => p.getD 8 0
    success :=
      match strstr (ascii "\"ok\":") line with
      | none => old.success
      | some p => if p.getD 5 0 = 0x74 then 1 else 0 }

/-- The loop, until the lines or the entries end. -/
def parseLines : List Bytes → List UpdateEntry → Nat × List UpdateEntry
  | line :: lines, e :: entries =>
    let (count, entries) := parseLines lines entries
    (count + 1, parseLine line e :: entries)
  | _, entries => (0, entries)

/-- `bb_persist_update_log_read` into an array of `max_entries` entries. -/
def updateLogRead (log : Option Bytes) (entries : List UpdateEntry) : Nat × List UpdateEntry :=
  match log with
  | none => (0, entries)
  | some file => parseLines (fgetsAll 512 file) entries

/-! ## The search in a line -/

/-- What `strstr` is given: the quoted key, a colon, and for a string its quote. -/
def search (key more : Bytes) : Bytes := quote :: (key ++ quote :: colon :: more)

/-- What stands between the strings of an object. -/
def IsMark (b : UInt8) : Prop := b = colon ∨ b = comma ∨ b = 0x7d

instance : DecidablePred IsMark := fun _ => inferInstanceAs (Decidable (_ ∨ _))

/-- Keys that cannot be taken for what stands between strings. -/
def IsWord (key : Bytes) : Prop := key ≠ [] ∧ ∀ b ∈ key, b ≠ quote ∧ ¬ IsMark b

instance (key : Bytes) : Decidable (IsWord key) := inferInstanceAs (Decidable (_ ∧ _))

/-- A string without quotes, or no string. -/
def Unquoted : Value → Prop
  | .str val => quote ∉ val
  | .int _ => True
  | .bool _ => True

section Search

variable {key more k text rest : Bytes} {b : UInt8}

theorem IsWord.quote_notMem (h : IsWord key) : quote ∉ key := fun hmem => (h.2 _ hmem).1 rfl

theorem strstr_search (h : quote ∉ k) :
    strstr (search key more) (k ++ text) = strstr (search key more) text := strstr_notMem h

theorem strstr_search_cons (h : b ≠ quote) :
    strstr (search key more) (b :: text) = strstr (search key more) text :=
  strstr_skip (fun hp => h (List.cons_prefix_cons.mp hp).1.symm)

/-- The key and its quote, when the pattern stands in front. -/
theorem prefix_of_search (h : search key more <+: quote :: text) : key ++ [quote] <+: text := by
  rw [search, List.cons_prefix_cons] at h
  refine List.IsPrefix.trans ?_ h.2
  rw [List.append_cons key quote (colon :: more)]
  exact List.prefix_append _ _

theorem search_ne (hkey : IsWord key) (hk : quote ∉ k) (hne : k ≠ key) :
    ¬ search key more <+: quote :: (k ++ quote :: rest) :=
  fun h => hne (eq_of_prefix_quote hkey.quote_notMem hk (prefix_of_search h)).symm

/-- The quote that ends a string: the mark behind it is in no key. -/
theorem search_closing (hkey : IsWord key) (hb : IsMark b) :
    ¬ search key more <+: quote :: b :: rest := by
  intro h
  obtain ⟨c, key', rfl⟩ := List.exists_cons_of_ne_nil hkey.1
  have hpre := prefix_of_search h
  rw [List.cons_append, List.cons_prefix_cons] at hpre
  exact (hkey.2 c List.mem_cons_self).2 (hpre.1 ▸ hb)

/-- The quote that starts a string value: no colon stands behind the value. -/
theorem search_value (hkey : IsWord key) (htext : quote ∉ text) (hb : b ≠ colon) :
    ¬ search key more <+: quote :: (text ++ quote :: b :: rest) := by
  intro h
  obtain rfl := eq_of_prefix_quote hkey.quote_notMem htext (prefix_of_search h)
  rw [search, List.cons_prefix_cons, List.prefix_append_right_inj, List.cons_prefix_cons,
    List.cons_prefix_cons] at h
  exact hb h.2.2.1.symm

/-- An entry with another key is passed over. -/
theorem strstr_entry (hkey : IsWord key) {e : Bytes × Value} (hk : quote ∉ e.1) (hne : e.1 ≠ key)
    (hval : Unquoted e.2) (hb : b = 0x7d ∨ b = comma) :
    strstr (search key more) (quoted e.1 ++ colon :: (valueText e.2 ++ b :: rest)) =
      strstr (search key more) rest := by
  have hquote : b ≠ quote ∧ b ≠ colon ∧ IsMark b := by
    rcases hb with rfl | rfl <;> decide
  have hsplit : quoted e.1 ++ colon :: (valueText e.2 ++ b :: rest) =
      quote :: (e.1 ++ quote :: colon :: (valueText e.2 ++ b :: rest)) := by
    simp [quoted]
  rw [hsplit, strstr_skip (search_ne hkey hk hne), strstr_search hk,
    strstr_skip (search_closing hkey (Or.inl rfl)), strstr_search_cons (by decide)]
  cases hv : e.2 with
  | str val =>
    rw [hv] at hval
    have hquoted : valueText (.str val) ++ b :: rest = quote :: (val ++ quote :: b :: rest) := by
      simp [valueText]
    rw [hquoted, strstr_skip (search_value hkey hval hquote.2.1), strstr_search hval,
      strstr_skip (search_closing hkey hquote.2.2), strstr_search_cons hquote.1]
  | int val =>
    rw [strstr_search (quote_not_mem_valueText (by simp)), strstr_search_cons hquote.1]
  | bool val =>
    rw [strstr_search (quote_not_mem_valueText (by simp)), strstr_search_cons hquote.1]

/-- The search in an object ends at the first entry with the key. -/
theorem strstr_entries (hkey : IsWord key) {front : List (Bytes × Value)}
    (hfront : ∀ e ∈ front, quote ∉ e.1 ∧ e.1 ≠ key ∧ Unquoted e.2) {val : Value}
    {entries : List (Bytes × Value)} (hmore : more <+: valueText val ++ (tail entries ++ rest)) :
    strstr (search key more) (0x7b :: (body (front ++ (key, val) :: entries) ++ rest)) =
      some (quoted key ++ colon :: (valueText val ++ (tail entries ++ rest))) := by
  rw [strstr_search_cons (by decide)]
  induction front with
  | nil =>
    have hsplit : body ((key, val) :: entries) ++ rest =
        quote :: (key ++ quote :: colon :: (valueText val ++ (tail entries ++ rest))) := by
      simp [body_cons, quoted]
    have hhere : search key more <+:
        quote :: (key ++ quote :: colon :: (valueText val ++ (tail entries ++ rest))) := by
      rw [search, List.cons_prefix_cons, List.prefix_append_right_inj, List.cons_prefix_cons,
        List.cons_prefix_cons]
      exact ⟨rfl, rfl, rfl, hmore⟩
    rw [List.nil_append, hsplit, strstr_here hhere]
    simp [quoted]
  | cons e front ih =>
    obtain ⟨hk, hne, hval⟩ := hfront e List.mem_cons_self
    obtain ⟨b, hb, htail⟩ := tail_cases (front ++ (key, val) :: entries)
    have hsplit : body (e :: (front ++ (key, val) :: entries)) ++ rest = quoted e.1 ++
        colon :: (valueText e.2 ++ b :: (body (front ++ (key, val) :: entries) ++ rest)) := by
      simp [body_cons, htail]
    rw [List.cons_append, hsplit, strstr_entry hkey hk hne hval hb]
    exact ih (fun e' he' => hfront e' (List.mem_cons_of_mem e he'))

end Search

/-! ## One line -/

/-- Text that ends neither a string nor a line. -/
def LogSafe (text : Bytes) : Prop := ∀ b ∈ text, b ≠ quote ∧ b ≠ newline ∧ b ≠ 0

instance (text : Bytes) : Decidable (LogSafe text) := inferInstanceAs (Decidable (∀ _ ∈ _, _))

def logEntries (ts : Nat) (fromVersion toVersion : Bytes) (slot : UInt8) (ok : Value) :
    List (Bytes × Value) :=
  [(ascii "ts", .int ts), (ascii "from", .str fromVersion), (ascii "to", .str toVersion),
    (ascii "slot", .str [slot]), (ascii "ok", ok)]

/-- The line is an object. -/
theorem logText_eq (ts : Nat) (fromVersion toVersion : Bytes) (slot : UInt8) (ok : Value) :
    logText (natText ts) fromVersion toVersion slot (valueText ok) =
      0x7b :: (body (logEntries ts fromVersion toVersion slot ok) ++ [newline]) := by
  have hts : ascii "\x7b\"ts\":" = 0x7b :: (quoted (ascii "ts") ++ [colon]) := by decide
  have hfrom : ascii ",\"from\":\"" = comma :: (quoted (ascii "from") ++ [colon, quote]) := by
    decide
  have hto : ascii "\",\"to\":\"" = quote :: comma :: (quoted (ascii "to") ++ [colon, quote]) := by
    decide
  have hslot : ascii "\",\"slot\":\"" =
      quote :: comma :: (quoted (ascii "slot") ++ [colon, quote]) := by decide
  have hok : ascii "\",\"ok\":" = quote :: comma :: (quoted (ascii "ok") ++ [colon]) := by decide
  have hend : ascii "\x7d\n" = [0x7d, newline] := by decide
  rw [logText, hts, hfrom, hto, hslot, hok, hend]
  simp [logEntries, body, valueText, intText_ofNat, quoted]

section Line

variable {ts : Nat} {f t : Bytes} {slot : UInt8} {ok : Value} {old : UpdateEntry}

theorem LogSafe.quote_notMem {text : Bytes} (h : LogSafe text) : quote ∉ text :=
  fun hmem => (h _ hmem).1 rfl

theorem LogSafe.newline_notMem {text : Bytes} (h : LogSafe text) : newline ∉ text :=
  fun hmem => (h _ hmem).2.1 rfl

theorem LogSafe.zero_notMem {text : Bytes} (h : LogSafe text) : 0 ∉ text :=
  fun hmem => (h _ hmem).2.2 rfl

theorem scanVersion_eq {pat line version rest : Bytes} {old : Vector UInt8 32}
    (hfind : strstr pat line = some (pat ++ (version ++ quote :: rest)))
    (hversion : quote ∉ version) (hlen : version.length < 32) :
    scanVersion pat line old = storeText old version := by
  have htext := takeWhile_append_delim hversion rest
  have hmem : quote ∈ version ++ quote :: rest := List.mem_append_right _ List.mem_cons_self
  unfold scanVersion
  rw [hfind]
  simp only [List.drop_left, htext, hmem, hlen, and_self, if_true]

/-- The mark behind an entry ends a number. -/
theorem endsDigits_tail (entries : List (Bytes × Value)) (rest : Bytes) :
    EndsDigits (tail entries ++ rest) := by
  obtain ⟨b, hb, htail⟩ := tail_cases entries
  rw [htail]
  rcases hb with rfl | rfl <;> exact EndsDigits.cons (by decide) _

def logKeys : List Bytes :=
  [ascii "ts", ascii "from", ascii "to", ascii "slot", ascii "ok"]

theorem logKeys_words : ∀ key ∈ logKeys, IsWord key := by decide

theorem logKeys_nodup : logKeys.Nodup := by decide

/-- Field `i` of the line is found where it was written: no entry in front of it has its key. -/
theorem strstr_field (hf : quote ∉ f) (ht : quote ∉ t) (hslot : slot ≠ quote) (i : Nat) (hi : i ≤ 4)
    {pat key more rest : Bytes} {val : Value} {entries : List (Bytes × Value)}
    (hdrop : (logEntries ts f t slot ok).drop i = (key, val) :: entries)
    (hpat : pat = search key more) (hval : valueText val = more ++ rest) :
    strstr pat (logText (natText ts) f t slot (valueText ok)) =
      some (pat ++ (rest ++ (tail entries ++ [newline]))) := by
  have hkeys : (logEntries ts f t slot ok).map Prod.fst = logKeys := rfl
  have hsplit : logEntries ts f t slot ok =
      (logEntries ts f t slot ok).take i ++ (key, val) :: entries := by
    rw [← hdrop, List.take_append_drop]
  have hmap := congrArg (List.map Prod.fst) hsplit
  rw [hkeys, List.map_append, List.map_cons] at hmap
  have hnodup := logKeys_nodup
  rw [hmap, List.nodup_middle, List.nodup_cons, List.mem_append, not_or] at hnodup
  have hsafe : ∀ e ∈ (logEntries ts f t slot ok).take 4, Unquoted e.2 := by
    intro e he
    simp only [logEntries, List.take_succ_cons, List.take_zero, List.mem_cons, List.not_mem_nil,
      or_false] at he
    rcases he with rfl | rfl | rfl | rfl
    · trivial
    · exact hf
    · exact ht
    · exact fun h => hslot (List.mem_singleton.mp h).symm
  have hkey : key ∈ logKeys := by
    rw [hmap]
    exact List.mem_append_right _ List.mem_cons_self
  have hmore : more <+: valueText val ++ (tail entries ++ [newline]) := by
    rw [hval, List.append_assoc]
    exact List.prefix_append _ _
  have hfound : pat ++ (rest ++ (tail entries ++ [newline])) =
      quoted key ++ colon :: (valueText val ++ (tail entries ++ [newline])) := by
    rw [hpat, hval]
    simp [search, quoted]
  rw [logText_eq, hsplit, hpat, strstr_entries (logKeys_words key hkey) ?_ hmore, ← hfound, hpat]
  intro e he
  have hmem : e.1 ∈ logKeys := hkeys ▸ List.mem_map_of_mem (List.mem_of_mem_take he)
  refine ⟨(logKeys_words _ hmem).quote_notMem, ?_, ?_⟩
  · intro hk
    have hmemfst := List.mem_map_of_mem (f := Prod.fst) he
    rw [hk] at hmemfst
    exact hnodup.1.1 hmemfst
  · exact hsafe e (List.take_subset_take_left _ hi he)

theorem logSafe_natText (n : Nat) : LogSafe (natText n) := by
  intro b hb
  refine ⟨?_, ?_, ?_⟩ <;> rintro rfl <;> exact notMem_natText rfl n hb

theorem logSafe_intText (z : Int) : LogSafe (intText z) := by
  intro b hb
  refine ⟨?_, ?_, ?_⟩ <;> rintro rfl <;> exact notMem_intText rfl (by decide) z hb

/-- No value but `true` starts with a t. -/
theorem valueText_head (val : Value) (rest : Bytes) :
    (valueText val ++ rest).getD 0 0 = 0x74 ↔ val = .bool true := by
  cases val with
  | str s =>
    have hhead : (valueText (.str s) ++ rest).getD 0 0 = quote := rfl
    rw [hhead]
    exact ⟨fun h => absurd h (by decide), fun h => by cases h⟩
  | int z =>
    obtain ⟨b, bs, he, hb⟩ := intText_head z
    have hhead : (valueText (.int z) ++ rest).getD 0 0 = b := by
      rw [valueText, he]
      rfl
    rw [hhead]
    refine ⟨?_, fun h => by cases h⟩
    rintro rfl
    exact absurd hb (by decide)
  | bool v =>
    cases v with
    | false => exact ⟨fun h => absurd h (by simp [valueText, ascii]), fun h => by cases h⟩
    | true => exact ⟨fun _ => rfl, fun _ => by simp [valueText, ascii]⟩

/-- A line without its newline. -/
def logBody (ts fromVersion toVersion : Bytes) (slot : UInt8) (ok : Bytes) : Bytes :=
  ascii "\x7b\"ts\":" ++ ts ++ ascii ",\"from\":\"" ++ fromVersion ++ ascii "\",\"to\":\"" ++
    toVersion ++ ascii "\",\"slot\":\"" ++ [slot] ++ ascii "\",\"ok\":" ++ ok ++ [0x7d]

theorem logText_body (ts f t : Bytes) (slot : UInt8) (ok : Bytes) :
    logText ts f t slot ok = logBody ts f t slot ok ++ [newline] := by
  have hend : ascii "\x7d\n" = [0x7d] ++ [newline] := by decide
  rw [logText, logBody, hend, ← List.append_assoc]

/-- The characters of the format. -/
def logFormat : Bytes := ascii "\x7b\"ts:,fromlk\x7d"

theorem notMem_logBody {b : UInt8} (hb : b ∉ logFormat) {ts ok : Bytes} (hts : b ∉ ts) (hf : b ∉ f)
    (ht : b ∉ t) (hslot : b ∉ [slot]) (hok : b ∉ ok) : b ∉ logBody ts f t slot ok := by
  have hclosed : ascii "\x7b\"ts\":" ⊆ logFormat ∧ ascii ",\"from\":\"" ⊆ logFormat ∧
      ascii "\",\"to\":\"" ⊆ logFormat ∧ ascii "\",\"slot\":\"" ⊆ logFormat ∧
      ascii "\",\"ok\":" ⊆ logFormat ∧ [0x7d] ⊆ logFormat := by decide
  obtain ⟨h1, h2, h3, h4, h5, h6⟩ := hclosed
  simp only [logBody, List.mem_append, not_or]
  exact ⟨⟨⟨⟨⟨⟨⟨⟨⟨⟨fun h => hb (h1 h), hts⟩, fun h => hb (h2 h)⟩, hf⟩, fun h => hb (h3 h)⟩, ht⟩,
    fun h => hb (h4 h)⟩, hslot⟩, fun h => hb (h5 h)⟩, hok⟩, fun h => hb (h6 h)⟩

theorem length_logBody (ts f t : Bytes) (slot : UInt8) (ok : Bytes) :
    (logBody ts f t slot ok).length = ts.length + f.length + t.length + ok.length + 42 := by
  have h1 : (ascii "\x7b\"ts\":").length = 6 := by decide
  have h2 : (ascii ",\"from\":\"").length = 9 := by decide
  have h3 : (ascii "\",\"to\":\"").length = 8 := by decide
  have h4 : (ascii "\",\"slot\":\"").length = 10 := by decide
  have h5 : (ascii "\",\"ok\":").length = 7 := by decide
  simp only [logBody, List.length_append, List.length_singleton, h1, h2, h3, h4, h5]
  omega

theorem zero_notMem_logText (hf : LogSafe f) (ht : LogSafe t) (hslot : LogSafe [slot])
    (hok : 0 ∉ valueText ok) : 0 ∉ logText (natText ts) f t slot (valueText ok) := by
  have hbody := notMem_logBody (b := 0) (by decide) (logSafe_natText ts).zero_notMem
    hf.zero_notMem ht.zero_notMem hslot.zero_notMem hok
  rw [logText_body, List.mem_append, not_or]
  exact ⟨hbody, by decide⟩

/-- The reader finds each field of the line where it was written. -/
theorem parseLine_logText (hts : ts < 0x10000000000000000) (hf : LogSafe f) (hflen : f.length < 32)
    (ht : LogSafe t) (htlen : t.length < 32) (hslot : LogSafe [slot]) (hok : 0 ∉ valueText ok)
    (old : UpdateEntry) :
    parseLine (logText (natText ts) f t slot (valueText ok)) old =
      { timestamp := UInt64.ofNat ts
        fromVersion := storeText old.fromVersion f
        toVersion := storeText old.toVersion t
        targetSlot := slot
        success := if ok = .bool true then 1 else 0 } := by
  have hquote := (hslot slot (List.mem_singleton_self slot)).1
  have hfind := fun i hi => @strstr_field ts f t slot ok hf.quote_notMem ht.quote_notMem hquote i hi
  have hts' := hfind 0 (by omega) rfl (show ascii "\"ts\":" = search (ascii "ts") [] by decide)
    (show valueText (.int ts) = [] ++ natText ts from intText_ofNat ts)
  have hfrom := hfind 1 (by omega) rfl
    (show ascii "\"from\":\"" = search (ascii "from") [quote] by decide)
    (show valueText (.str f) = [quote] ++ (f ++ [quote]) from rfl)
  have hto := hfind 2 (by omega) rfl
    (show ascii "\"to\":\"" = search (ascii "to") [quote] by decide)
    (show valueText (.str t) = [quote] ++ (t ++ [quote]) from rfl)
  have hslot' := hfind 3 (by omega) rfl
    (show ascii "\"slot\":\"" = search (ascii "slot") [quote] by decide)
    (show valueText (.str [slot]) = [quote] ++ [slot, quote] from rfl)
  have hok' := hfind 4 (by omega) rfl (show ascii "\"ok\":" = search (ascii "ok") [] by decide)
    (show valueText ok = [] ++ valueText ok from rfl)
  have hcstr := cstr_of_notMem (@zero_notMem_logText ts _ _ _ _ hf ht hslot hok)
  rw [List.append_assoc, List.singleton_append] at hfrom hto
  simp only [parseLine, hcstr, hts', hslot', hok', scanVersion_eq hfrom hf.quote_notMem hflen,
    scanVersion_eq hto ht.quote_notMem htlen]
  have htsdrop : ∀ x : Bytes, (ascii "\"ts\":" ++ x).drop 5 = x := fun x => rfl
  have hslotget : ∀ x : Bytes, (ascii "\"slot\":\"" ++ x).getD 8 0 = x.getD 0 0 := fun x => rfl
  have hokget : ∀ x : Bytes, (ascii "\"ok\":" ++ x).getD 5 0 = x.getD 0 0 := fun x => rfl
  rw [htsdrop, hslotget, hokget, strtoull_natText hts (endsDigits_tail _ _)]
  simp only [valueText_head]
  rfl

end Line

/-! ## The installer's lines -/

/-- The line `bb_update_install` prints, with `%lld` and its own text for the last field. -/
def installerLine (e : Update.LogEntry) : Bytes :=
  logText (intText e.ts) e.fromVersion e.toVersion e.slot
    (if e.ok then ascii "true" else ascii "false")

/-- The installer prints a truth value, and that is what the reader looks for. -/
theorem parseLine_installer {e : Update.LogEntry} {ts : Nat} (hts : e.ts = ts)
    (hlt : ts < 0x10000000000000000) (hf : LogSafe e.fromVersion)
    (hflen : e.fromVersion.length < 32) (ht : LogSafe e.toVersion)
    (htlen : e.toVersion.length < 32) (hslot : LogSafe [e.slot]) (old : UpdateEntry) :
    parseLine (installerLine e) old =
      { timestamp := UInt64.ofNat ts
        fromVersion := storeText old.fromVersion e.fromVersion
        toVersion := storeText old.toVersion e.toVersion
        targetSlot := e.slot
        success := if e.ok then 1 else 0 } := by
  have hok : 0 ∉ valueText (.bool e.ok) := by
    cases e.ok <;> decide
  have hline : installerLine e =
      logText (natText ts) e.fromVersion e.toVersion e.slot (valueText (.bool e.ok)) := by
    rw [installerLine, hts, intText_ofNat]
    rfl
  rw [hline, parseLine_logText hlt hf hflen ht htlen hslot hok]
  simp

/-! ## The history -/

/-- Versions that are C strings of their arrays without a quote or a newline, a slot, a flag. -/
structure UpdateEntry.Proper (e : UpdateEntry) : Prop where
  fromVersion : ∀ b ∈ cstr e.fromVersion.toList, b ≠ quote ∧ b ≠ newline
  fromLength : (cstr e.fromVersion.toList).length ≤ 31
  toVersion : ∀ b ∈ cstr e.toVersion.toList, b ≠ quote ∧ b ≠ newline
  toLength : (cstr e.toVersion.toList).length ≤ 31
  slot : e.targetSlot = 0x61 ∨ e.targetSlot = 0x62
  success : e.success = 0 ∨ e.success = 1

/-- All five fields are equal, the versions as strings. -/
structure Same (a b : UpdateEntry) : Prop where
  timestamp : a.timestamp = b.timestamp
  fromVersion : cstr a.fromVersion.toList = cstr b.fromVersion.toList
  toVersion : cstr a.toVersion.toList = cstr b.toVersion.toList
  targetSlot : a.targetSlot = b.targetSlot
  success : a.success = b.success

/-- The file after a sequence of calls, each with whether it opened the file. -/
def updateLogAdds (calls : List (UpdateEntry × Bool)) (log : Option Bytes) : Option Bytes :=
  calls.foldl (fun log c => (updateLogAdd c.2 c.1 log).2) log

/-- The entries that were added. -/
def added (calls : List (UpdateEntry × Bool)) : List UpdateEntry :=
  (calls.filter (·.2)).map Prod.fst

/-- The reader returns the entries that were added, in their order. -/
def RoundTrips (calls : List (UpdateEntry × Bool)) (entries : List UpdateEntry) : Prop :=
  let r := updateLogRead (updateLogAdds calls none) entries
  r.1 = (added calls).length ∧ List.Forall₂ Same (r.2.take r.1) (added calls)

/-- What an entry is read as: all but the flag as it was. -/
structure ReadAs (r e : UpdateEntry) : Prop where
  timestamp : r.timestamp = e.timestamp
  fromVersion : cstr r.fromVersion.toList = cstr e.fromVersion.toList
  toVersion : cstr r.toVersion.toList = cstr e.toVersion.toList
  targetSlot : r.targetSlot = e.targetSlot
  success : r.success = 0

theorem ReadAs.same_iff {r e : UpdateEntry} (h : ReadAs r e) : Same r e ↔ e.success = 0 := by
  constructor
  · intro hsame
    rw [← hsame.success, h.success]
  · intro hsuccess
    exact ⟨h.timestamp, h.fromVersion, h.toVersion, h.targetSlot, by rw [h.success, hsuccess]⟩

theorem forall₂_same_iff {rs es : List UpdateEntry} (h : List.Forall₂ ReadAs rs es) :
    List.Forall₂ Same rs es ↔ ∀ e ∈ es, e.success = 0 := by
  induction h with
  | nil => exact ⟨fun _ e he => absurd he List.not_mem_nil, fun _ => List.Forall₂.nil⟩
  | cons hread _ ih => rw [List.forall₂_cons, ih, hread.same_iff, List.forall_mem_cons]

theorem cstr_storeText {text : Bytes} (h : 0 ∉ text) (hlen : text.length < 32)
    (old : Vector UInt8 32) : cstr (storeText old text).toList = text := by
  have hlist : (storeText old text).toList = text ++ 0 :: old.toList.drop (text.length + 1) := by
    apply List.ext_getElem
    · simp
      omega
    · intro i h₁ h₂
      rcases Nat.lt_trichotomy i text.length with hi | rfl | hi
      · simp [storeText, hi]
      · simp [storeText]
      · obtain ⟨j, rfl⟩ := Nat.exists_eq_add_of_lt hi
        have hlt : ¬ text.length + j + 1 < text.length := by omega
        have hne : text.length + j + 1 ≠ text.length := by omega
        have hidx : text.length + j + 1 - text.length = j + 1 := by omega
        rw [List.getElem_append_right hi.le]
        simp [storeText, hlt, hne, hidx, Nat.add_right_comm]
  rw [hlist, cstr_append_zero h]

theorem zero_notMem_cstr (bytes : Bytes) : 0 ∉ cstr bytes := by
  intro h
  exact absurd (List.mem_takeWhile_imp h) (by decide)

section History

variable {e : UpdateEntry} {es : List UpdateEntry}

theorem UpdateEntry.Proper.logSafe_from (h : e.Proper) : LogSafe (cstr e.fromVersion.toList) := by
  intro b hb
  obtain ⟨hquote, hnl⟩ := h.fromVersion b hb
  exact ⟨hquote, hnl, fun h0 => zero_notMem_cstr _ (h0 ▸ hb)⟩

theorem UpdateEntry.Proper.logSafe_to (h : e.Proper) : LogSafe (cstr e.toVersion.toList) := by
  intro b hb
  obtain ⟨hquote, hnl⟩ := h.toVersion b hb
  exact ⟨hquote, hnl, fun h0 => zero_notMem_cstr _ (h0 ▸ hb)⟩

theorem UpdateEntry.Proper.logSafe_slot (h : e.Proper) : LogSafe [e.targetSlot] := by
  intro b hb
  rw [List.mem_singleton.mp hb]
  rcases h.slot with hs | hs <;> rw [hs] <;> decide

theorem UpdateEntry.Proper.length_success (h : e.Proper) : (intText e.success).length = 1 := by
  rcases h.success with hs | hs <;> rw [hs] <;> rfl

/-- Whatever the flag was, the reader finds a digit where it looks for a t. -/
theorem UpdateEntry.Proper.readAs (h : e.Proper) (old : UpdateEntry) :
    ReadAs (parseLine e.line old) e := by
  have hparse := parseLine_logText e.timestamp.toNat_lt h.logSafe_from
    (Nat.lt_succ_of_le h.fromLength) h.logSafe_to (Nat.lt_succ_of_le h.toLength) h.logSafe_slot
    (show 0 ∉ valueText (.int e.success) from (logSafe_intText e.success).zero_notMem) old
  have hflag : Value.int e.success ≠ .bool true := by simp
  rw [if_neg hflag] at hparse
  have hline : parseLine e.line old = _ := hparse
  rw [hline]
  refine ⟨UInt64.ofNat_toNat, ?_, ?_, rfl, rfl⟩
  · exact cstr_storeText (zero_notMem_cstr _) (Nat.lt_succ_of_le h.fromLength) _
  · exact cstr_storeText (zero_notMem_cstr _) (Nat.lt_succ_of_le h.toLength) _

def UpdateEntry.body (e : UpdateEntry) : Bytes :=
  logBody (natText e.timestamp.toNat) (cstr e.fromVersion.toList) (cstr e.toVersion.toList)
    e.targetSlot (intText e.success)

theorem UpdateEntry.line_eq (e : UpdateEntry) : e.line = e.body ++ [newline] :=
  logText_body _ _ _ _ _

theorem UpdateEntry.Proper.body_fits (h : e.Proper) :
    newline ∉ e.body ∧ e.body.length + 1 < 512 := by
  refine ⟨?_, ?_⟩
  · exact notMem_logBody (by decide) (logSafe_natText _).newline_notMem
      h.logSafe_from.newline_notMem h.logSafe_to.newline_notMem h.logSafe_slot.newline_notMem
      (logSafe_intText _).newline_notMem
  · have hts : (natText e.timestamp.toNat).length ≤ 20 := by
      have hlt := e.timestamp.toNat_lt
      rw [natText, List.length_map]
      exact (Nat.length_toDigits_le_iff (by decide) (by decide)).mpr (by omega)
    have hfrom := h.fromLength
    have hto := h.toLength
    have hok := h.length_success
    rw [UpdateEntry.body, length_logBody]
    omega

theorem fgetsAll_lines (h : ∀ e ∈ es, e.Proper) :
    fgetsAll 512 (es.flatMap UpdateEntry.line) = es.map UpdateEntry.line := by
  have hjoin : es.flatMap UpdateEntry.line = join newline (es.map UpdateEntry.body) := by
    rw [join, List.flatMap_map]
    exact List.flatMap_congr (fun e _ => e.line_eq)
  have hfits : ∀ l ∈ es.map UpdateEntry.body, newline ∉ l ∧ l.length + 1 < 512 := by
    intro l hl
    obtain ⟨e, he, rfl⟩ := List.mem_map.mp hl
    exact (h e he).body_fits
  rw [hjoin, fgetsAll_join (by decide) hfits, List.map_map]
  exact List.map_congr_left (fun e _ => e.line_eq.symm)

/-- The entries are read one by one, in their order. -/
theorem parseLines_lines (h : ∀ e ∈ es, e.Proper) {entries : List UpdateEntry}
    (hroom : es.length ≤ entries.length) :
    (parseLines (es.map UpdateEntry.line) entries).1 = es.length ∧
      List.Forall₂ ReadAs
        ((parseLines (es.map UpdateEntry.line) entries).2.take es.length) es := by
  induction es generalizing entries with
  | nil => exact ⟨rfl, List.Forall₂.nil⟩
  | cons e es ih =>
    cases entries with
    | nil => exact absurd hroom (by simp)
    | cons old entries =>
      rw [List.length_cons, List.length_cons] at hroom
      obtain ⟨hcount, hread⟩ := ih (fun e' he' => h e' (List.mem_cons_of_mem e he'))
        (show es.length ≤ entries.length by omega)
      rw [List.map_cons, parseLines]
      refine ⟨?_, ?_⟩
      · rw [List.length_cons, ← hcount]
      · exact List.Forall₂.cons ((h e List.mem_cons_self).readAs old) hread

/-- The file holds the lines of the entries that were added. -/
theorem updateLogAdds_file (calls : List (UpdateEntry × Bool)) (log : Option Bytes) :
    (updateLogAdds calls log).getD [] = log.getD [] ++ (added calls).flatMap UpdateEntry.line := by
  induction calls generalizing log with
  | nil => simp [updateLogAdds, added]
  | cons c calls ih =>
    rw [updateLogAdds, List.foldl_cons]
    refine (ih _).trans ?_
    obtain ⟨e, opens⟩ := c
    cases opens with
    | false => rfl
    | true =>
      have hadded : added ((e, true) :: calls) = e :: added calls := rfl
      rw [hadded, List.flatMap_cons, ← List.append_assoc]
      rfl

theorem updateLogRead_file (log : Option Bytes) (entries : List UpdateEntry) :
    updateLogRead log entries = parseLines (fgetsAll 512 (log.getD [])) entries := by
  cases log with
  | none => cases entries <;> rfl
  | some file => rfl

theorem roundTrips_iff {calls : List (UpdateEntry × Bool)} (hcalls : ∀ c ∈ calls, c.1.Proper)
    {entries : List UpdateEntry} (hroom : (added calls).length ≤ entries.length) :
    RoundTrips calls entries ↔ ∀ e ∈ added calls, e.success = 0 := by
  have hproper : ∀ e ∈ added calls, e.Proper := by
    intro e he
    obtain ⟨c, hc, rfl⟩ := List.mem_map.mp he
    exact hcalls c (List.mem_filter.mp hc).1
  obtain ⟨hcount, hread⟩ := parseLines_lines hproper hroom
  have hlog : updateLogRead (updateLogAdds calls none) entries =
      parseLines ((added calls).map UpdateEntry.line) entries := by
    rw [updateLogRead_file, updateLogAdds_file, Option.getD_none, List.nil_append,
      fgetsAll_lines hproper]
  unfold RoundTrips
  simp only [hlog, hcount]
  rw [forall₂_same_iff hread]
  exact and_iff_right trivial

end History

/-- **The history comes back without its successes.** For every sequence of calls on a file that
did not exist, and an array with room for all entries, the reader returns what was added if and
only if no added entry is a success: the writer prints a digit, the reader looks for `true`. -/
theorem updateLog_iff (calls : List (UpdateEntry × Bool)) (hcalls : ∀ c ∈ calls, c.1.Proper)
    (entries : List UpdateEntry) (hroom : (added calls).length ≤ entries.length) :
    RoundTrips calls entries ↔ ∀ e ∈ added calls, e.success = 0 :=
  roundTrips_iff hcalls hroom

/-- An update of the slot that does not run. -/
def updateEntry (ts : UInt64) (fromVersion toVersion : String) (slot : UInt8) (success : Int) :
    UpdateEntry where
  timestamp := ts
  fromVersion := storeText (Vector.replicate 32 0) (ascii fromVersion)
  toVersion := storeText (Vector.replicate 32 0) (ascii toVersion)
  targetSlot := slot
  success := success

/-- A version that is stored whole and read whole. -/
def PlainVersion (v : String) : Prop :=
  0 ∉ ascii v ∧ (ascii v).length ≤ 31 ∧ ∀ b ∈ ascii v, b ≠ quote ∧ b ≠ newline

instance (v : String) : Decidable (PlainVersion v) := inferInstanceAs (Decidable (_ ∧ _ ∧ _))

theorem updateEntry_proper {ts : UInt64} {v v' : String} {slot : UInt8} {success : Int}
    (hv : PlainVersion v) (hv' : PlainVersion v') (hslot : slot = 0x61 ∨ slot = 0x62)
    (hsuccess : success = 0 ∨ success = 1) : (updateEntry ts v v' slot success).Proper := by
  have hstored : ∀ {w : String}, PlainVersion w →
      cstr (storeText (Vector.replicate 32 0) (ascii w)).toList = ascii w :=
    fun hw => cstr_storeText hw.1 (Nat.lt_succ_of_le hw.2.1) _
  refine ⟨?_, ?_, ?_, ?_, hslot, hsuccess⟩
  · exact (hstored hv).symm ▸ hv.2.2
  · exact (hstored hv).symm ▸ hv.2.1
  · exact (hstored hv').symm ▸ hv'.2.2
  · exact (hstored hv').symm ▸ hv'.2.1

/-- An update from version 1 to version 2. -/
def sampleEntry (success : Int) : UpdateEntry := updateEntry 1700000000 "1" "2" 0x62 success

theorem sampleEntry_proper {success : Int} (h : success = 0 ∨ success = 1) :
    (sampleEntry success).Proper :=
  updateEntry_proper (by decide) (by decide) (Or.inr rfl) h

/-- Two updates that fail, and between them one that succeeds when the file cannot be opened. -/
def failedUpdates : List (UpdateEntry × Bool) :=
  [(sampleEntry 0, true), (sampleEntry 1, false),
    (updateEntry 1700003600 "2" "2.1-rc3" 0x61 0, true)]

theorem failedUpdates_proper : ∀ c ∈ failedUpdates, c.1.Proper := by
  intro c hc
  simp only [failedUpdates, List.mem_cons, List.not_mem_nil, or_false] at hc
  rcases hc with rfl | rfl | rfl
  · exact sampleEntry_proper (Or.inl rfl)
  · exact sampleEntry_proper (Or.inr rfl)
  · exact updateEntry_proper (by decide) (by decide) (Or.inl rfl) (Or.inl rfl)

theorem updateLog_failed : RoundTrips failedUpdates [sampleEntry 1, sampleEntry 1, sampleEntry 0] :=
  (updateLog_iff failedUpdates failedUpdates_proper _ (by decide)).mpr (by decide)

/-- A successful update is read back as a failed one. -/
theorem success_lost : ¬ RoundTrips [(sampleEntry 1, true)] [sampleEntry 0] ∧
    (parseLine (sampleEntry 1).line (sampleEntry 1)).success = 0 := by
  have hproper := sampleEntry_proper (Or.inr rfl)
  refine ⟨?_, (hproper.readAs _).success⟩
  have hcalls : ∀ c ∈ [(sampleEntry 1, true)], c.1.Proper := by
    intro c hc
    rw [List.mem_singleton.mp hc]
    exact hproper
  rw [roundTrips_iff hcalls (by decide)]
  intro h
  exact absurd (h _ (List.mem_singleton_self _)) (by decide)

end Persist
end BuildingBlocks
