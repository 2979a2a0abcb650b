import BuildingBlocks.Persist.BootLog

/-!
# BuildingBlocks.Persist.Histories

What the two histories of `libbb/bb_persist.c` return once they are longer than the reader's array.
The header calls them a circular buffer of 256 boots and the last 32 updates; the writers append,
and the readers take the first lines of the file.

* `Says` — a line is read as an entry, whatever the array held; `says_iff` has the bytes for it.
* `says_takeLine` — the first line of an update says that update only if it is `Clean`.
* `histories_iff` — exactly when the readers return the last entries: when no more were added than
  they return, or the first ones happen to equal the last ones.
-/

namespace BuildingBlocks
namespace Persist

open Lib Json

/-! ## The law -/

/-- The reader of the boots returns the last `min(n, 256, N)` of the `N` that were added. -/
def KeepsBoots (calls : List (BootEntry × Bool)) (maxEntries : Int) : Prop :=
  bootLogRead (bootLogAdds calls none) maxEntries =
    (boots calls).drop ((boots calls).length - min maxEntries.toNat 256)

/-- The reader of the updates returns the last `min(n, 32, N)`, whatever its array of `n` entries
held before. -/
def KeepsUpdates (calls : List (UpdateEntry × Bool)) (n : Nat) : Prop :=
  ∀ entries : List UpdateEntry, entries.length = n →
    let r := updateLogRead (updateLogAdds calls none) entries
    r.1 = min (min n 32) (added calls).length ∧
      List.Forall₂ Same (r.2.take r.1) ((added calls).drop ((added calls).length - min n 32))

/-- All boots fit and none has a NUL for its slot; or the first ones are equal to the last ones. -/
def BootsFit (calls : List (BootEntry × Bool)) (maxEntries : Int) : Prop :=
  if (boots calls).length ≤ min maxEntries.toNat 256 then ∀ e ∈ boots calls, e.slot ≠ 0
  else
    ((boots calls).filter (fun e => e.slot ≠ 0)).take maxEntries.toNat =
      (boots calls).drop ((boots calls).length - min maxEntries.toNat 256)

/-- A version that fits its array and does not end the string or the line. -/
def VersionOk (v : Vector UInt8 32) : Prop :=
  (cstr v.toList).length < 32 ∧ ∀ b ∈ cstr v.toList, b ≠ quote ∧ b ≠ newline

/-- An update a line can carry, and that failed: a success is printed as a digit. -/
structure Clean (e : UpdateEntry) : Prop where
  fromVersion : VersionOk e.fromVersion
  toVersion : VersionOk e.toVersion
  slot : e.targetSlot ≠ 0
  success : e.success = 0

/-- The line is read as the entry, whatever the array held. -/
def Says (line : Bytes) (e : UpdateEntry) : Prop := ∀ old, Same (parseLine line old) e

/-- What stands in a line behind the first place of a name. -/
def Behind (name line : Bytes) (P : Bytes → Prop) : Prop :=
  ∃ p, strstr name (cstr line) = some p ∧ P (p.drop name.length)

/-- A version in quotes. -/
def Quotes (v : Vector UInt8 32) (text : Bytes) : Prop :=
  quote ∉ cstr v.toList ∧ (cstr v.toList).length < 32 ∧ cstr v.toList ++ [quote] <+: text

/-- The bytes of a line name each field of the entry. -/
structure Spells (line : Bytes) (e : UpdateEntry) : Prop where
  timestamp : Behind (ascii "\"ts\":") line
    (fun text => UInt64.ofNat (strtoull text) = e.timestamp)
  fromVersion : Behind (ascii "\"from\":\"") line (Quotes e.fromVersion)
  toVersion : Behind (ascii "\"to\":\"") line (Quotes e.toVersion)
  targetSlot : Behind (ascii "\"slot\":\"") line (fun text => text.getD 0 0 = e.targetSlot)
  success : Behind (ascii "\"ok\":") line
    (fun text => e.success = if text.getD 0 0 = 0x74 then 1 else 0)

/-- All updates fit and a line can carry each; or the first lines of the file happen to name the
fields of the last updates. -/
def UpdatesFit (calls : List (UpdateEntry × Bool)) (n : Nat) : Prop :=
  if (added calls).length ≤ min n 32 then ∀ e ∈ added calls, Clean e
  else
    List.Forall₂ Spells ((fgetsAll 512 ((added calls).flatMap UpdateEntry.line)).take n)
      ((added calls).drop ((added calls).length - min n 32))

/-! ## The boots -/

theorem keepsBoots_iff {calls : List (BootEntry × Bool)}
    (h : ∀ c ∈ calls, isSpace c.1.slot = false) (maxEntries : Int) :
    KeepsBoots calls maxEntries ↔ BootsFit calls maxEntries := by
  rw [KeepsBoots, bootLogRead_adds h, BootsFit]
  split
  · next hfits =>
    have hdrop : (boots calls).length - min maxEntries.toNat 256 = 0 := by omega
    have hlen := List.length_filter_le (fun e : BootEntry => decide (e.slot ≠ 0)) (boots calls)
    rw [hdrop, List.drop_zero, List.take_of_length_le (by omega), List.filter_eq_self]
    simp only [decide_eq_true_eq]
  · exact Iff.rfl

/-! ## The front of a line -/

/-- The line of an update up to its slot. -/
def logHead (ts f t : Bytes) : Bytes :=
  ascii "\x7b\"ts\":" ++ ts ++ ascii ",\"from\":\"" ++ f ++ ascii "\",\"to\":\"" ++ t ++
    ascii "\",\"slot\":\""

def okText : Bytes := ascii "\",\"ok\":"

section Head

variable {ts : Nat} {f t tail : Bytes} {slot : UInt8}

theorem logText_head (ts f t : Bytes) (slot : UInt8) (ok : Bytes) :
    logText ts f t slot ok = logHead ts f t ++ slot :: (okText ++ (ok ++ ascii "\x7d\n")) := by
  simp [logText, logHead, okText]

theorem length_logHead (ts f t : Bytes) :
    (logHead ts f t).length = ts.length + f.length + t.length + 33 := by
  have h1 : (ascii "\x7b\"ts\":").length = 6 := by decide
  have h2 : (ascii ",\"from\":\"").length = 9 := by decide
  have h3 : (ascii "\",\"to\":\"").length = 8 := by decide
  have h4 : (ascii "\",\"slot\":\"").length = 10 := by decide
  simp only [logHead, List.length_append, h1, h2, h3, h4]
  omega

theorem notMem_logHead {b : UInt8} (hb : b ∉ logFormat) {ts : Bytes} (hts : b ∉ ts) (hf : b ∉ f)
    (ht : b ∉ t) : b ∉ logHead ts f t := by
  have hclosed : ascii "\x7b\"ts\":" ⊆ logFormat ∧ ascii ",\"from\":\"" ⊆ logFormat ∧
      ascii "\",\"to\":\"" ⊆ logFormat ∧ ascii "\",\"slot\":\"" ⊆ logFormat := by decide
  obtain ⟨h1, h2, h3, h4⟩ := hclosed
  simp only [logHead, List.mem_append, not_or]
  exact ⟨⟨⟨⟨⟨⟨fun h => hb (h1 h), hts⟩, fun h => hb (h2 h)⟩, hf⟩, fun h => hb (h3 h)⟩, ht⟩,
    fun h => hb (h4 h)⟩

/-- The front is the start of an object, whatever follows the quote of the slot. -/
theorem logHead_eq (ts : Nat) (f t tail : Bytes) : logHead (natText ts) f t ++ tail =
    0x7b :: (quoted (ascii "ts") ++ colon :: (valueText (.int ts) ++ comma ::
      (quoted (ascii "from") ++ colon :: (valueText (.str f) ++ comma ::
        (quoted (ascii "to") ++ colon :: (valueText (.str t) ++ comma ::
          (quoted (ascii "slot") ++ colon :: quote :: tail))))))) := by
  have hts : ascii "\x7b\"ts\":" = 0x7b :: (quoted (ascii "ts") ++ [colon]) := by decide
  have hfrom : ascii ",\"from\":\"" = comma :: (quoted (ascii "from") ++ [colon, quote]) := by
    decide
  have hto : ascii "\",\"to\":\"" = quote :: comma :: (quoted (ascii "to") ++ [colon, quote]) := by
    decide
  have hslot : ascii "\",\"slot\":\"" =
      quote :: comma :: (quoted (ascii "slot") ++ [colon, quote]) := by decide
  rw [logHead, hts, hfrom, hto, hslot]
  simp [valueText, intText_ofNat, quoted]

/-- A pattern whose key stands in front of its place is found there. -/
theorem strstr_here_search {key more rest : Bytes} :
    strstr (search key more) (quoted key ++ colon :: (more ++ rest)) =
      some (search key more ++ rest) := by
  have hsplit : quoted key ++ colon :: (more ++ rest) =
      quote :: (key ++ quote :: colon :: (more ++ rest)) := by simp [quoted]
  have hfound : search key more ++ rest = quote :: (key ++ quote :: colon :: (more ++ rest)) := by
    simp [search]
  rw [hsplit, ← hfound]
  refine strstr_here ?_
  exact List.prefix_append _ _

/-- An entry in front of another one is passed. -/
theorem strstr_pass {key k more rest : Bytes} {val : Value} (hkey : IsWord key) (hk : quote ∉ k)
    (hne : k ≠ key) (hval : Unquoted val) :
    strstr (search key more) (quoted k ++ colon :: (valueText val ++ comma :: rest)) =
      strstr (search key more) rest :=
  strstr_entry (e := (k, val)) hkey hk hne hval (Or.inr rfl)

theorem unquoted_int (z : Int) : Unquoted (.int z) := trivial

theorem unquoted_str {text : Bytes} (h : quote ∉ text) : Unquoted (.str text) := h

theorem quote_notMem_keys : quote ∉ ascii "ts" ∧ quote ∉ ascii "from" ∧ quote ∉ ascii "to" ∧
    quote ∉ ascii "slot" := by decide

theorem isWord_from : IsWord (ascii "from") := logKeys_words _ (by decide)

theorem isWord_to : IsWord (ascii "to") := logKeys_words _ (by decide)

theorem isWord_slot : IsWord (ascii "slot") := logKeys_words _ (by decide)

theorem isWord_ok : IsWord (ascii "ok") := logKeys_words _ (by decide)

/-- Past the first three entries. -/
theorem strstr_logHead (hf : quote ∉ f) (ht : quote ∉ t) {key more : Bytes} (hkey : IsWord key)
    (hne : key ≠ ascii "ts" ∧ key ≠ ascii "from" ∧ key ≠ ascii "to") :
    strstr (search key more) (logHead (natText ts) f t ++ tail) =
      strstr (search key more) (quoted (ascii "slot") ++ colon :: quote :: tail) := by
  obtain ⟨hts, hfrom, hto, -⟩ := quote_notMem_keys
  rw [logHead_eq, strstr_search_cons (by decide), strstr_pass hkey hts (Ne.symm hne.1)
    (unquoted_int ts), strstr_pass hkey hfrom (Ne.symm hne.2.1) (unquoted_str hf),
    strstr_pass hkey hto (Ne.symm hne.2.2) (unquoted_str ht)]

/-- Where the reader finds the four fields in front of the flag. -/
theorem strstr_ts : strstr (ascii "\"ts\":") (logHead (natText ts) f t ++ tail) =
    some (ascii "\"ts\":" ++ (natText ts ++ comma :: (quoted (ascii "from") ++ colon ::
      (valueText (.str f) ++ comma :: (quoted (ascii "to") ++ colon :: (valueText (.str t) ++
        comma :: (quoted (ascii "slot") ++ colon :: quote :: tail))))))) := by
  have hpat : ascii "\"ts\":" = search (ascii "ts") [] := by decide
  have hval : valueText (.int ts) = natText ts := intText_ofNat ts
  rw [logHead_eq, hpat, strstr_search_cons (by decide), hval]
  exact strstr_here_search

theorem strstr_from : ∃ rest, strstr (ascii "\"from\":\"") (logHead (natText ts) f t ++ tail) =
    some (ascii "\"from\":\"" ++ (f ++ quote :: rest)) := by
  have hpat : ascii "\"from\":\"" = search (ascii "from") [quote] := by decide
  have hval : ∀ rest, valueText (.str f) ++ rest = [quote] ++ (f ++ quote :: rest) := by
    intro rest
    simp [valueText]
  obtain ⟨hts, -, -, -⟩ := quote_notMem_keys
  rw [logHead_eq, hpat, strstr_search_cons (by decide),
    strstr_pass isWord_from hts (by decide) (unquoted_int ts), hval]
  exact ⟨_, strstr_here_search⟩

theorem strstr_to (hf : quote ∉ f) :
    ∃ rest, strstr (ascii "\"to\":\"") (logHead (natText ts) f t ++ tail) =
      some (ascii "\"to\":\"" ++ (t ++ quote :: rest)) := by
  have hpat : ascii "\"to\":\"" = search (ascii "to") [quote] := by decide
  have hval : ∀ rest, valueText (.str t) ++ rest = [quote] ++ (t ++ quote :: rest) := by
    intro rest
    simp [valueText]
  obtain ⟨hts, hfrom, -, -⟩ := quote_notMem_keys
  rw [logHead_eq, hpat, strstr_search_cons (by decide),
    strstr_pass isWord_to hts (by decide) (unquoted_int ts),
    strstr_pass isWord_to hfrom (by decide) (unquoted_str hf), hval (comma :: _)]
  exact ⟨_, strstr_here_search⟩

theorem strstr_slot (hf : quote ∉ f) (ht : quote ∉ t) :
    strstr (ascii "\"slot\":\"") (logHead (natText ts) f t ++ tail) =
      some (ascii "\"slot\":\"" ++ tail) := by
  have hpat : ascii "\"slot\":\"" = search (ascii "slot") [quote] := by decide
  rw [hpat, strstr_logHead hf ht isWord_slot (by decide)]
  exact strstr_here_search

/-- The flag is found behind the slot, whatever the slot is. -/
theorem strstr_ok (hf : quote ∉ f) (ht : quote ∉ t) (rest : Bytes) :
    strstr (ascii "\"ok\":") (logHead (natText ts) f t ++ slot :: (okText ++ rest)) =
      some (ascii "\"ok\":" ++ rest) := by
  have hpat : ascii "\"ok\":" = search (ascii "ok") [] := by decide
  have hok : okText = quote :: comma :: (quoted (ascii "ok") ++ [colon]) := by decide
  have hslot : ∀ tail : Bytes, quoted (ascii "slot") ++ colon :: quote :: tail =
      quote :: 0x73 :: (ascii "lot" ++ quote :: colon :: quote :: tail) := by
    intro tail
    rfl
  have hno : ∀ b : UInt8, ∀ tail : Bytes, b ≠ 0x6f →
      ¬ search (ascii "ok") [] <+: quote :: b :: tail := by
    intro b tail hb h
    rw [search, List.cons_prefix_cons] at h
    exact hb (List.cons_prefix_cons.mp h.2).1.symm
  have hno' : ∀ b c : UInt8, ∀ tail : Bytes, c ≠ 0x6b →
      ¬ search (ascii "ok") [] <+: quote :: b :: c :: tail := by
    intro b c tail hc h
    rw [search, List.cons_prefix_cons] at h
    exact hc (List.cons_prefix_cons.mp (List.cons_prefix_cons.mp h.2).2).1.symm
  rw [hpat, strstr_logHead hf ht isWord_ok (by decide), hslot,
    strstr_skip (hno 0x73 _ (by decide)), strstr_search_cons (by decide), strstr_search (by decide),
    strstr_skip (hno _ _ (by decide)), strstr_search_cons (by decide), hok]
  simp only [List.cons_append]
  rw [strstr_skip (hno' _ _ _ (by decide))]
  have hquote : strstr (search (ascii "ok") []) (slot :: quote :: comma ::
      (quoted (ascii "ok") ++ [colon] ++ rest)) =
      strstr (search (ascii "ok") [])
        (quote :: comma :: (quoted (ascii "ok") ++ [colon] ++ rest)) := by
    by_cases hs : slot = quote
    · rw [hs]
      exact strstr_skip (hno _ _ (by decide))
    · exact strstr_search_cons hs
  rw [hquote, strstr_skip (hno _ _ (by decide)), strstr_search_cons (by decide), List.append_assoc,
    List.singleton_append]
  exact strstr_here_search

/-- A line that ends in front of the slot has no flag. -/
theorem strstr_ok_nil (hf : quote ∉ f) (ht : quote ∉ t) :
    strstr (ascii "\"ok\":") (logHead (natText ts) f t) = none := by
  have hpat : ascii "\"ok\":" = search (ascii "ok") [] := by decide
  have hnil := @strstr_logHead ts f t [] hf ht (ascii "ok") [] isWord_ok (by decide)
  rw [List.append_nil] at hnil
  rw [hpat, hnil]
  decide

/-- What the reader makes of a line that goes on behind its slot with anything but a `t`. -/
theorem parseLine_head (hts : ts < 0x10000000000000000) (hf : quote ∉ f) (hflen : f.length < 32)
    (ht : quote ∉ t) (htlen : t.length < 32) {line rest : Bytes} {c : UInt8} (hc : c ≠ 0x74)
    (hline : cstr line = logHead (natText ts) f t ++ slot :: (okText ++ c :: rest))
    (old : UpdateEntry) :
    parseLine line old =
      { timestamp := UInt64.ofNat ts
        fromVersion := storeText old.fromVersion f
        toVersion := storeText old.toVersion t
        targetSlot := slot
        success := 0 } := by
  obtain ⟨_, hfrom⟩ := @strstr_from ts f t (slot :: (okText ++ c :: rest))
  obtain ⟨_, hto⟩ := @strstr_to ts f t (slot :: (okText ++ c :: rest)) hf
  have htsdrop : ∀ x : Bytes, (ascii "\"ts\":" ++ x).drop 5 = x := fun x => rfl
  have hslotget : ∀ x : Bytes, (ascii "\"slot\":\"" ++ x).getD 8 0 = x.getD 0 0 := fun x => rfl
  have hokget : ∀ x : Bytes, (ascii "\"ok\":" ++ x).getD 5 0 = x.getD 0 0 := fun x => rfl
  have hflag : (c :: rest).getD 0 0 ≠ 0x74 := hc
  simp only [parseLine, hline, strstr_ts, strstr_slot hf ht, strstr_ok hf ht, htsdrop, hslotget,
    hokget, scanVersion_eq hfrom hf hflen, scanVersion_eq hto ht htlen, if_neg hflag,
    strtoull_natText hts (EndsDigits.cons (by decide : isDigit comma = false) _)]
  rfl

end Head

/-! ## One update -/

section Entry

variable {e : UpdateEntry}

def UpdateEntry.head (e : UpdateEntry) : Bytes :=
  logHead (natText e.timestamp.toNat) (cstr e.fromVersion.toList) (cstr e.toVersion.toList)

theorem UpdateEntry.line_head (e : UpdateEntry) :
    e.line = e.head ++ e.targetSlot :: (okText ++ (intText e.success ++ ascii "\x7d\n")) :=
  logText_head _ _ _ _ _

theorem VersionOk.quote_notMem {v : Vector UInt8 32} (h : VersionOk v) : quote ∉ cstr v.toList :=
  fun hmem => (h.2 _ hmem).1 rfl

theorem VersionOk.newline_notMem {v : Vector UInt8 32} (h : VersionOk v) :
    newline ∉ cstr v.toList := fun hmem => (h.2 _ hmem).2 rfl

theorem UpdateEntry.zero_notMem_head (e : UpdateEntry) : 0 ∉ e.head :=
  notMem_logHead (by decide) (logSafe_natText _).zero_notMem (zero_notMem_cstr _)
    (zero_notMem_cstr _)

section Versions

variable (hfrom : VersionOk e.fromVersion) (hto : VersionOk e.toVersion)

include hfrom hto

theorem newline_notMem_head : newline ∉ e.head :=
  notMem_logHead (by decide) (logSafe_natText _).newline_notMem hfrom.newline_notMem
    hto.newline_notMem

theorem length_head : e.head.length ≤ 115 := by
  have hts := length_natText_le (k := 20) (by decide)
    (e.timestamp.toNat_lt.trans (by decide : 2 ^ 64 < 10 ^ 20))
  have hflen := hfrom.1
  have htlen := hto.1
  rw [UpdateEntry.head, length_logHead]
  omega

/-- What the reader makes of a line that starts like that of the entry. -/
theorem parseLine_entry {line rest : Bytes} {c : UInt8} (hc : c ≠ 0x74)
    (hline : cstr line = e.head ++ e.targetSlot :: (okText ++ c :: rest)) (old : UpdateEntry) :
    ReadAs (parseLine line old) e := by
  have hparse := parseLine_head e.timestamp.toNat_lt hfrom.quote_notMem hfrom.1 hto.quote_notMem
    hto.1 hc hline old
  rw [hparse]
  exact ⟨UInt64.ofNat_toNat, cstr_storeText (zero_notMem_cstr _) hfrom.1 _,
    cstr_storeText (zero_notMem_cstr _) hto.1 _, rfl, rfl⟩

end Versions

/-- The line of an update it can carry says the update. -/
theorem Clean.says_line (h : Clean e) : Says e.line e := by
  intro old
  obtain ⟨c, rest, hflag, hc⟩ := intText_head e.success
  have hct : c ≠ 0x74 := by
    rintro rfl
    exact absurd hc (by decide)
  have hcstr : cstr e.line = e.line := by
    have hok : 0 ∉ okText ∧ 0 ∉ ascii "\x7d\n" := by decide
    refine cstr_of_notMem ?_
    rw [e.line_head]
    simp only [List.mem_append, List.mem_cons, not_or]
    exact ⟨e.zero_notMem_head, Ne.symm h.slot, hok.1, (logSafe_intText _).zero_notMem, hok.2⟩
  have hline : cstr e.line = e.head ++ e.targetSlot ::
      (okText ++ c :: (rest ++ ascii "\x7d\n")) := by
    rw [hcstr, e.line_head, hflag, List.cons_append]
  exact (parseLine_entry h.fromVersion h.toVersion hct hline old).same_iff.mpr h.success

/-- A version is read whatever the array held exactly when it stands in quotes behind its name. -/
theorem scanVersion_iff {pat line : Bytes} {v : Vector UInt8 32} :
    (∀ old, cstr (scanVersion pat (cstr line) old).toList = cstr v.toList) ↔
      Behind pat line (Quotes v) := by
  have hzeros : cstr (Vector.replicate 32 (0 : UInt8)).toList = [] := by decide
  have hones : cstr (Vector.replicate 32 (1 : UInt8)).toList ≠ [] := by decide
  constructor
  · intro h
    have h₁ := h (Vector.replicate 32 0)
    have h₂ := h (Vector.replicate 32 1)
    unfold scanVersion at h₁ h₂
    cases hfind : strstr pat (cstr line) with
    | none =>
      rw [hfind] at h₁ h₂
      exact absurd (h₂.trans (h₁.symm.trans hzeros)) hones
    | some p =>
      rw [hfind] at h₁ h₂
      simp only at h₁ h₂
      split at h₁
      · next hfound =>
        obtain ⟨hmem, hlen⟩ := hfound
        have hzero : 0 ∉ (p.drop pat.length).takeWhile (· ≠ quote) := fun hb =>
          zero_notMem_cstr line ((strstr_suffix hfind).subset
            (List.mem_of_mem_drop (List.takeWhile_subset _ hb)))
        rw [cstr_storeText hzero hlen] at h₁
        obtain ⟨a, back, hsplit, ha⟩ := List.eq_append_cons_of_mem hmem
        rw [hsplit, takeWhile_append_delim ha] at h₁ hlen
        refine ⟨p, hfind, ?_⟩
        rw [Quotes, ← h₁, hsplit]
        exact ⟨ha, hlen, back, by simp⟩
      · next hno =>
        rw [if_neg hno] at h₂
        exact absurd (h₂.trans (h₁.symm.trans hzeros)) hones
  · rintro ⟨p, hfind, hquote, hlen, back, hback⟩ old
    have hstart : p.drop pat.length = cstr v.toList ++ quote :: back := by
      rw [← hback]
      simp
    have htext : (p.drop pat.length).takeWhile (· ≠ quote) = cstr v.toList := by
      rw [hstart, takeWhile_append_delim hquote]
    have hmem : quote ∈ p.drop pat.length := by
      rw [hstart]
      exact List.mem_append_right _ List.mem_cons_self
    unfold scanVersion
    rw [hfind]
    simp only [htext]
    rw [if_pos ⟨hmem, hlen⟩]
    exact cstr_storeText (zero_notMem_cstr _) hlen old

/-- The versions of an update that the first line says. -/
theorem versionOk_of_scan {n : Nat} {pat text : Bytes} {v : Vector UInt8 32}
    (h : ∀ old, cstr (scanVersion pat (cstr (takeLine n text)) old).toList = cstr v.toList) :
    VersionOk v := by
  obtain ⟨p, hfind, hquote, hlen, back, hback⟩ := scanVersion_iff.mp h
  obtain ⟨front, hfront⟩ := strstr_suffix hfind
  obtain ⟨more, hmore⟩ : cstr (takeLine n text) <+: takeLine n text := List.takeWhile_prefix _
  have hline : cstr (takeLine n text) =
      (front ++ p.take pat.length ++ cstr v.toList) ++ quote :: back := by
    calc cstr (takeLine n text)
        _ = front ++ (p.take pat.length ++ p.drop pat.length) := by
          rw [List.take_append_drop, hfront]
        _ = (front ++ p.take pat.length ++ cstr v.toList) ++ quote :: back := by
          rw [← hback]
          simp
  have hnl : newline ∉ front ++ p.take pat.length ++ cstr v.toList := by
    refine @newline_notMem_of_takeLine n text _ (back ++ more) quote ?_
    rw [← hmore, hline, List.append_assoc, List.cons_append]
  refine ⟨hlen, fun b hb => ⟨?_, ?_⟩⟩
  · rintro rfl
    exact hquote hb
  · rintro rfl
    exact hnl (List.mem_append_right _ hb)

theorem parseLine_fromVersion (line : Bytes) (old : UpdateEntry) :
    (parseLine line old).fromVersion =
      scanVersion (ascii "\"from\":\"") (cstr line) old.fromVersion := rfl

theorem parseLine_toVersion (line : Bytes) (old : UpdateEntry) :
    (parseLine line old).toVersion =
      scanVersion (ascii "\"to\":\"") (cstr line) old.toVersion := rfl

/-- A line says an entry exactly when its bytes name each field. -/
theorem says_iff {line : Bytes} : Says line e ↔ Spells line e := by
  have hget : ∀ (p : Bytes) (k : Nat), (p.drop k).getD 0 0 = p.getD k 0 := by
    intro p k
    rw [List.getD_eq_getElem?_getD, List.getD_eq_getElem?_getD, List.getElem?_drop, Nat.add_zero]
  constructor
  · intro h
    have htimestamp := fun old => (h { e with timestamp := old }).timestamp
    have hslot := fun old => (h { e with targetSlot := old }).targetSlot
    have hsuccess := fun old => (h { e with success := old }).success
    refine ⟨?_, scanVersion_iff.mp fun old => (h { e with fromVersion := old }).fromVersion,
      scanVersion_iff.mp fun old => (h { e with toVersion := old }).toVersion, ?_, ?_⟩
    · cases hfind : strstr (ascii "\"ts\":") (cstr line) with
      | none =>
        simp only [parseLine, hfind] at htimestamp
        exact absurd ((htimestamp 0).trans (htimestamp 1).symm) (by decide)
      | some p =>
        simp only [parseLine, hfind] at htimestamp
        exact ⟨p, hfind, htimestamp 0⟩
    · cases hfind : strstr (ascii "\"slot\":\"") (cstr line) with
      | none =>
        simp only [parseLine, hfind] at hslot
        exact absurd ((hslot 0).trans (hslot 1).symm) (by decide)
      | some p =>
        simp only [parseLine, hfind] at hslot
        exact ⟨p, hfind, (hget p 8).trans (hslot 0)⟩
    · cases hfind : strstr (ascii "\"ok\":") (cstr line) with
      | none =>
        simp only [parseLine, hfind] at hsuccess
        exact absurd ((hsuccess 0).trans (hsuccess 1).symm) (by decide)
      | some p =>
        simp only [parseLine, hfind, ← hget p 5] at hsuccess
        exact ⟨p, hfind, (hsuccess 0).symm⟩
  · intro h old
    obtain ⟨pts, hts, htimestamp⟩ := h.timestamp
    obtain ⟨pslot, hslot, htarget⟩ := h.targetSlot
    obtain ⟨pok, hok, hsuccess⟩ := h.success
    refine ⟨?_, scanVersion_iff.mpr h.fromVersion old.fromVersion,
      scanVersion_iff.mpr h.toVersion old.toVersion, ?_, ?_⟩
    · simp only [parseLine, hts]
      exact htimestamp
    · simp only [parseLine, hslot]
      exact (hget pslot 8).symm.trans htarget
    · simp only [parseLine, hok, ← hget pok 5]
      exact hsuccess.symm

/-- Of the first line the text up to the flag is read, and at least one byte of the flag. -/
theorem takeLine_line (hfrom : VersionOk e.fromVersion) (hto : VersionOk e.toVersion)
    (hslot : e.targetSlot ≠ newline) {c : UInt8} {flag : Bytes}
    (hflag : intText e.success = c :: flag) :
    ∃ rest, takeLine 511 e.line = e.head ++ e.targetSlot :: (okText ++ c :: rest) := by
  have hlen := length_head hfrom hto
  have hok : newline ∉ okText ∧ okText.length = 7 := by decide
  have hfront : (e.head ++ e.targetSlot :: okText).length = e.head.length + 8 := by
    rw [List.length_append, List.length_cons, hok.2]
  have hline : e.line =
      (e.head ++ e.targetSlot :: okText) ++ (c :: (flag ++ ascii "\x7d\n")) := by
    rw [e.line_head, hflag]
    simp
  have hnl : newline ∉ e.head ++ e.targetSlot :: okText := by
    rw [List.mem_append, List.mem_cons, not_or, not_or]
    exact ⟨newline_notMem_head hfrom hto, Ne.symm hslot, hok.1⟩
  have hroom : 511 - (e.head ++ e.targetSlot :: okText).length =
      (511 - (e.head.length + 9)) + 1 := by omega
  rw [hline, takeLine_append _ hnl (by omega), hroom, takeLine]
  split
  · exact ⟨[], by simp⟩
  · exact ⟨takeLine (511 - (e.head.length + 9)) (flag ++ ascii "\x7d\n"), by simp⟩

/-- The first line says the update only if a line can carry it. -/
theorem says_takeLine (hslot : e.targetSlot ≠ newline) (h : Says (takeLine 511 e.line) e) :
    Clean e := by
  have hfrom : VersionOk e.fromVersion := by
    refine @versionOk_of_scan 511 (ascii "\"from\":\"") e.line _ (fun old => ?_)
    have hsame := (h { e with fromVersion := old }).fromVersion
    rwa [parseLine_fromVersion] at hsame
  have hto : VersionOk e.toVersion := by
    refine @versionOk_of_scan 511 (ascii "\"to\":\"") e.line _ (fun old => ?_)
    have hsame := (h { e with toVersion := old }).toVersion
    rwa [parseLine_toVersion] at hsame
  obtain ⟨c, flag, hflag, hc⟩ := intText_head e.success
  have hct : c ≠ 0x74 ∧ c ≠ 0 := by
    refine ⟨?_, ?_⟩ <;> rintro rfl <;> exact absurd hc (by decide)
  have hok : 0 ∉ okText := by decide
  obtain ⟨rest, hread⟩ := takeLine_line hfrom hto hslot hflag
  by_cases hzero : e.targetSlot = 0
  · have hcstr : cstr (takeLine 511 e.line) = e.head := by
      rw [hread, hzero]
      exact cstr_append_zero e.zero_notMem_head _
    have hnone : strstr (ascii "\"ok\":") e.head = none :=
      strstr_ok_nil hfrom.quote_notMem hto.quote_notMem
    have hsuccess : ∀ old, (parseLine (takeLine 511 e.line) old).success = old.success := by
      intro old
      simp only [parseLine, hcstr, hnone]
    have h₀ := (h { e with success := 0 }).success
    have h₁ := (h { e with success := 1 }).success
    rw [hsuccess] at h₀ h₁
    simp only at h₀ h₁
    omega
  · have hcstr : cstr (takeLine 511 e.line) = e.head ++ e.targetSlot ::
        (okText ++ c :: cstr rest) := by
      have hfree : 0 ∉ e.head ++ e.targetSlot :: (okText ++ [c]) := by
        simp only [List.mem_append, List.mem_cons, not_or, List.not_mem_nil, or_false]
        exact ⟨e.zero_notMem_head, Ne.symm hzero, hok, Ne.symm hct.2⟩
      have hsplit : ∀ rest : Bytes, e.head ++ e.targetSlot :: (okText ++ c :: rest) =
          (e.head ++ e.targetSlot :: (okText ++ [c])) ++ rest := by simp
      have hall : ∀ b ∈ e.head ++ e.targetSlot :: (okText ++ [c]), decide (b ≠ 0) = true :=
        fun b hb => decide_eq_true (fun he => hfree (he ▸ hb))
      rw [hread, hsplit rest, hsplit (cstr rest), cstr, List.takeWhile_append_of_pos hall, cstr]
    refine ⟨hfrom, hto, hzero, ?_⟩
    exact ((parseLine_entry hfrom hto hct.1 hcstr e).same_iff).mp (h e)

end Entry

/-! ## The updates -/

section Reader

/-- The reader parses a line for each entry of the array, as long as there are lines. -/
theorem parseLines_eq (lines : List Bytes) (entries : List UpdateEntry) :
    (parseLines lines entries).1 = min lines.length entries.length ∧
      (parseLines lines entries).2.take (parseLines lines entries).1 =
        List.zipWith parseLine lines entries := by
  induction lines generalizing entries with
  | nil => exact ⟨(Nat.zero_min _).symm, by cases entries <;> rfl⟩
  | cons line lines ih =>
    cases entries with
    | nil => exact ⟨rfl, rfl⟩
    | cons e entries =>
      obtain ⟨hcount, htake⟩ := ih entries
      rw [parseLines]
      refine ⟨?_, ?_⟩
      · simp only [List.length_cons, hcount, Nat.add_min_add_right]
      · simp only [List.take_succ_cons, htake, List.zipWith_cons_cons]

/-- Whatever the array held, the entries read are the given ones exactly when the lines say them. -/
theorem forall₂_says_iff (lines : List Bytes) (n : Nat) (es : List UpdateEntry) :
    (∀ entries : List UpdateEntry, entries.length = n →
        List.Forall₂ Same (List.zipWith parseLine lines entries) es) ↔
      List.Forall₂ Says (lines.take n) es := by
  induction lines generalizing n es with
  | nil =>
    rw [List.take_nil, List.forall₂_nil_left_iff]
    constructor
    · intro h
      have hnil := h (List.replicate n (sampleEntry 0)) List.length_replicate
      exact List.forall₂_nil_left_iff.mp hnil
    · rintro rfl entries -
      exact List.Forall₂.nil
  | cons line lines ih =>
    cases n with
    | zero =>
      rw [List.take_zero, List.forall₂_nil_left_iff]
      constructor
      · intro h
        exact List.forall₂_nil_left_iff.mp (h [] rfl)
      · rintro rfl entries hlen
        rw [List.length_eq_zero_iff.mp hlen, List.zipWith_nil_right]
        exact List.Forall₂.nil
    | succ n =>
      rw [List.take_succ_cons]
      cases es with
      | nil =>
        refine iff_of_false (fun h => ?_) (by simp)
        have hnil := h (List.replicate (n + 1) (sampleEntry 0)) List.length_replicate
        rw [List.replicate_succ, List.zipWith_cons_cons] at hnil
        cases hnil
      | cons e es =>
        rw [List.forall₂_cons, ← ih]
        constructor
        · intro h
          refine ⟨fun old => ?_, fun entries hlen => ?_⟩
          · have hold := h (old :: List.replicate n old) (by simp)
            rw [List.zipWith_cons_cons, List.forall₂_cons] at hold
            exact hold.1
          · have hall := h (sampleEntry 0 :: entries) (by simp [hlen])
            rw [List.zipWith_cons_cons, List.forall₂_cons] at hall
            exact hall.2
        · rintro ⟨hfirst, hrest⟩ entries hlen
          obtain ⟨old, entries, rfl⟩ := List.exists_cons_of_length_eq_add_one hlen
          rw [List.zipWith_cons_cons, List.forall₂_cons]
          exact ⟨hfirst old, hrest entries (by simpa using hlen)⟩

variable {e : UpdateEntry} {es : List UpdateEntry}

/-- The line of an update it can carry is read as one. -/
theorem Clean.fgetsAll_line (h : Clean e) (hslot : e.targetSlot ≠ newline) (rest : Bytes) :
    fgetsAll 512 (e.line ++ rest) = e.line :: fgetsAll 512 rest := by
  have hok : newline ∉ okText ∧ okText.length = 7 := by decide
  have hlen := length_head h.fromVersion h.toVersion
  have hbody : e.line = (e.head ++ e.targetSlot :: (okText ++ ascii "0\x7d")) ++ [newline] := by
    have hflag : intText 0 ++ ascii "\x7d\n" = ascii "0\x7d" ++ [newline] := by decide
    rw [e.line_head, h.success, hflag]
    simp
  have hnl : newline ∉ e.head ++ e.targetSlot :: (okText ++ ascii "0\x7d") := by
    simp only [List.mem_append, List.mem_cons, not_or]
    exact ⟨newline_notMem_head h.fromVersion h.toVersion, Ne.symm hslot, hok.1, by decide⟩
  have hend : (ascii "0\x7d").length = 2 := by decide
  rw [hbody, List.append_assoc, List.singleton_append, Lib.fgetsAll_line (by decide) _ hnl]
  simp only [List.length_append, List.length_cons, hok.2, hend]
  omega

theorem fgetsAll_clean (h : ∀ e ∈ es, Clean e) (hslot : ∀ e ∈ es, e.targetSlot ≠ newline) :
    fgetsAll 512 (es.flatMap UpdateEntry.line) = es.map UpdateEntry.line := by
  induction es with
  | nil => rfl
  | cons e es ih =>
    rw [List.flatMap_cons, List.map_cons,
      (h e List.mem_cons_self).fgetsAll_line (hslot e List.mem_cons_self),
      ih (fun e' he' => h e' (List.mem_cons_of_mem e he'))
        (fun e' he' => hslot e' (List.mem_cons_of_mem e he'))]

/-- Lines that say all updates are those of updates they can carry. -/
theorem clean_of_says (hslot : ∀ e ∈ es, e.targetSlot ≠ newline) {n : Nat}
    (h : List.Forall₂ Says ((fgetsAll 512 (es.flatMap UpdateEntry.line)).take n) es) :
    ∀ e ∈ es, Clean e := by
  induction es generalizing n with
  | nil => exact fun e he => absurd he List.not_mem_nil
  | cons e es ih =>
    have hline : newline ∈ e.line := by
      rw [e.line_eq]
      exact List.mem_append_right _ (List.mem_singleton_self _)
    have hfirst : ∃ pieces, fgetsAll 512 ((e :: es).flatMap UpdateEntry.line) =
        takeLine 511 e.line :: pieces := by
      have htake := takeLine_of_mem (n := 511) (es.flatMap UpdateEntry.line) hline
      obtain ⟨b, bs, hcons⟩ := List.exists_cons_of_ne_nil
        (List.append_ne_nil_of_left_ne_nil (List.ne_nil_of_mem hline)
          (es.flatMap UpdateEntry.line))
      rw [List.flatMap_cons, ← htake, hcons, fgetsAll, List.length_cons, fgetsLoop, fgets_cons]
      exact ⟨_, rfl⟩
    obtain ⟨pieces, hpieces⟩ := hfirst
    cases n with
    | zero =>
      rw [List.take_zero] at h
      cases h
    | succ n =>
      have hclean : Clean e := by
        rw [hpieces, List.take_succ_cons, List.forall₂_cons] at h
        exact says_takeLine (hslot e List.mem_cons_self) h.1
      rw [List.flatMap_cons, hclean.fgetsAll_line (hslot e List.mem_cons_self),
        List.take_succ_cons, List.forall₂_cons] at h
      rw [List.forall_mem_cons]
      exact ⟨hclean, ih (fun e' he' => hslot e' (List.mem_cons_of_mem e he')) h.2⟩

theorem keepsUpdates_iff {calls : List (UpdateEntry × Bool)}
    (h : ∀ c ∈ calls, isSpace c.1.targetSlot = false) (n : Nat) :
    KeepsUpdates calls n ↔ UpdatesFit calls n := by
  have hslot : ∀ e ∈ added calls, e.targetSlot ≠ newline := by
    intro e he hnl
    obtain ⟨c, hc, rfl⟩ := List.mem_map.mp he
    have hblank := h c (List.mem_filter.mp hc).1
    rw [hnl] at hblank
    exact absurd hblank (by decide)
  have hlaw : KeepsUpdates calls n ↔
      List.Forall₂ Says ((fgetsAll 512 ((added calls).flatMap UpdateEntry.line)).take n)
        ((added calls).drop ((added calls).length - min n 32)) := by
    rw [← forall₂_says_iff]
    refine forall_congr' fun entries => forall_congr' fun hlen => ?_
    have hread : updateLogRead (updateLogAdds calls none) entries =
        parseLines (fgetsAll 512 ((added calls).flatMap UpdateEntry.line)) entries := by
      rw [updateLogRead_file, updateLogAdds_file, Option.getD_none, List.nil_append]
    obtain ⟨hcount, htake⟩ :=
      parseLines_eq (fgetsAll 512 ((added calls).flatMap UpdateEntry.line)) entries
    simp only [hread, htake]
    refine and_iff_right_of_imp (fun hsame => ?_)
    have hlength := hsame.length_eq
    rw [List.length_zipWith, List.length_drop] at hlength
    omega
  rw [hlaw, UpdatesFit]
  split
  · next hfits =>
    have hdrop : (added calls).length - min n 32 = 0 := by omega
    rw [hdrop, List.drop_zero]
    constructor
    · exact clean_of_says hslot
    · intro hclean
      rw [fgetsAll_clean hclean hslot, List.take_of_length_le (by rw [List.length_map]; omega),
        List.forall₂_map_left_iff, List.forall₂_same]
      exact fun e he => (hclean e he).says_line
  · have hspells : ∀ lines es, List.Forall₂ Says lines es ↔ List.Forall₂ Spells lines es :=
      fun lines es => ⟨List.Forall₂.imp fun _ _ => says_iff.mp,
        List.Forall₂.imp fun _ _ => says_iff.mpr⟩
    exact hspells _ _

end Reader

/-- **The histories keep the most recent entries exactly when** no more were added than the reader
returns and the lines can carry them, or the first entries happen to equal the last ones, or name
their fields: the writers append, and the readers start at the oldest line. -/
theorem histories_iff {bootCalls : List (BootEntry × Bool)}
    (hboots : ∀ c ∈ bootCalls, isSpace c.1.slot = false) (maxEntries : Int)
    {updateCalls : List (UpdateEntry × Bool)}
    (hupdates : ∀ c ∈ updateCalls, isSpace c.1.targetSlot = false) (n : Nat) :
    (KeepsBoots bootCalls maxEntries ↔ BootsFit bootCalls maxEntries) ∧
      (KeepsUpdates updateCalls n ↔ UpdatesFit updateCalls n) :=
  ⟨keepsBoots_iff hboots maxEntries, keepsUpdates_iff hupdates n⟩

/-- Two boots, of which the second one counts. -/
def twoBoots : List (BootEntry × Bool) :=
  [({ timestamp := 1, slot := 0x61, success := 1, bootTimeMs := 9000 }, true),
    ({ timestamp := 2, slot := 0x62, success := 0, bootTimeMs := 0 }, true)]

theorem histories_two : KeepsBoots twoBoots 2 ∧ KeepsUpdates failedUpdates 3 := by
  have hclean : ∀ e ∈ added failedUpdates, Clean e := by
    intro e he
    obtain ⟨c, hc, rfl⟩ := List.mem_map.mp he
    have hproper := failedUpdates_proper c (List.mem_filter.mp hc).1
    refine ⟨⟨Nat.lt_succ_of_le hproper.fromLength, hproper.fromVersion⟩,
      ⟨Nat.lt_succ_of_le hproper.toLength, hproper.toVersion⟩, ?_, ?_⟩
    · rcases hproper.slot with hslot | hslot
      · rw [hslot]
        decide
      · rw [hslot]
        decide
    · exact (by decide : ∀ e ∈ added failedUpdates, e.success = 0) _ he
  have hboth : (KeepsBoots twoBoots 2 ↔ BootsFit twoBoots 2) ∧
      (KeepsUpdates failedUpdates 3 ↔ UpdatesFit failedUpdates 3) :=
    histories_iff (by decide) 2 (by decide) 3
  refine ⟨hboth.1.mpr ?_, hboth.2.mpr ?_⟩
  · unfold BootsFit
    decide
  · rw [UpdatesFit, if_pos (by decide)]
    exact hclean

/-- A reader with room for one boot gets the older one. -/
theorem oldest_kept : ¬ KeepsBoots twoBoots 1 ∧
    bootLogRead (bootLogAdds twoBoots none) 1 =
      [{ timestamp := 1, slot := 0x61, success := 1, bootTimeMs := 9000 }] := by
  unfold KeepsBoots
  decide

end Persist
end BuildingBlocks
