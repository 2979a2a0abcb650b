import BuildingBlocks.Lib.Assoc
import BuildingBlocks.Lib.Lines
import Mathlib.Data.List.DropRight

/-!
# BuildingBlocks.Persist.Config

The config store of `libbb/bb_persist.c`: a file of `key=value` lines for every namespace.

* `configGet`, `configSet` are the functions; `Files` is what stands under each path.
* `Holds` is the representation: the file is one line per entry, each key once.
* `holds_configSet`, `configGet_of_holds` — a set is a `put` on the entries, a get is theirs.
* `config_isMap` — after any sets the file is the map of the last values.
-/

namespace BuildingBlocks
namespace Persist

open Lib

abbrev Bytes := List UInt8

def equals : UInt8 := 0x3d
def carriageReturn : UInt8 := 0x0d

/-! ## The code -/

/-- The content of the files, by path. -/
abbrev Files := Bytes → Option Bytes

/-- `snprintf(path, sizeof(path), "/persist/config/%s.conf", ns)` with 256 bytes. -/
def confPath (ns : Bytes) : Bytes := (ascii "/persist/config/" ++ ns ++ ascii ".conf").take 255

/-- `snprintf(tmp, sizeof(tmp), "%s.tmp", path)`. -/
def tmpPath (path : Bytes) : Bytes := (path ++ ascii ".tmp").take 255

/-- `strncmp(line, key, klen) == 0 && line[klen] == '='`. -/
def isLineOf (key line : Bytes) : Bool :=
  (cstr line).take key.length == key && (cstr line).getD key.length 0 == equals

/-- The trailing newline is stripped. -/
def stripEnd (v : Bytes) : Bytes := v.rdropWhile (fun b => b == newline || b == carriageReturn)

/-- `bb_persist_config_get`; `none` stands for NULL. -/
def configGet (fs : Files) (ns key : Bytes) : Option Bytes :=
  match fs (confPath ns) with
  | none => none
  | some file =>
    ((fgetsAll 512 file).find? (isLineOf key)).map
      (fun line => stripEnd ((cstr line).drop (key.length + 1)))

/-- `fprintf(out, "%s=%s\n", key, value)`. -/
def entryLine (key value : Bytes) : Bytes := key ++ equals :: value ++ [newline]

/-- The loop of `bb_persist_config_set`: what it has written, and whether it replaced a line. -/
def rewriteLines (key value : Bytes) : List Bytes → Bytes × Bool → Bytes × Bool
  | [], s => s
  | line :: lines, (out, replaced) =>
    if isLineOf key line then rewriteLines key value lines (out ++ entryLine key value, true)
    else rewriteLines key value lines (out ++ cstr line, replaced)

/-- `rename`. -/
def rename (old new : Bytes) (fs : Files) : Files :=
  if old = new then fs else Function.update (Function.update fs new (fs old)) old none

/-- One call of `bb_persist_config_set`; `opens` tells whether the temporary file opens. -/
structure SetCall where
  key : Bytes
  value : Bytes
  opens : Bool
deriving DecidableEq, Repr

def SetCall.entry (c : SetCall) : Bytes × Bytes := (c.key, c.value)

/-- `bb_persist_config_set`. -/
def configSet (ns : Bytes) (c : SetCall) (fs : Files) : Int × Files :=
  let path := confPath ns
  let tmp := tmpPath path
  if c.opens then
    let isIn := (fs path).isSome
    -- opening for writing empties the file
    let fs := Function.update fs tmp (some [])
    let lines := if isIn then fgetsAll 512 ((fs path).getD []) else []
    let (out, replaced) := rewriteLines c.key c.value lines ([], false)
    let out := if replaced then out else out ++ entryLine c.key c.value
    (0, rename tmp path (Function.update fs tmp (some out)))
  else (-1, fs)

/-- A sequence of calls. -/
def configSets (ns : Bytes) (calls : List SetCall) (fs : Files) : Files :=
  calls.foldl (fun fs c => (configSet ns c fs).2) fs

/-! ## Lines and entries -/

/-- A line without its newline. -/
def entryText (e : Bytes × Bytes) : Bytes := e.1 ++ equals :: e.2

/-- The file of some entries. -/
def confText (es : List (Bytes × Bytes)) : Bytes := join newline (es.map entryText)

/-- The key of a line. -/
def keyOf (line : Bytes) : Bytes := line.takeWhile (· ≠ equals)

/-- What the store takes: a line of the file, short enough for the buffer it is read into. -/
structure Proper (e : Bytes × Bytes) : Prop where
  key : ∀ b ∈ e.1, b ≠ equals ∧ b ≠ newline ∧ b ≠ 0
  value : ∀ b ∈ e.2, b ≠ carriageReturn ∧ b ≠ newline ∧ b ≠ 0
  fits : e.1.length + e.2.length + 2 ≤ 511

theorem cstr_of_notMem {text : Bytes} (h : 0 ∉ text) : cstr text = text := by
  refine List.takeWhile_eq_self_iff.mpr (fun b hb => ?_)
  rw [decide_eq_true_eq]
  exact fun he => h (he ▸ hb)

theorem isLineOf_iff {key line : Bytes} :
    isLineOf key line = true ↔ key ++ [equals] <+: cstr line := by
  unfold isLineOf
  rw [Bool.and_eq_true, beq_iff_eq, beq_iff_eq]
  constructor
  · rintro ⟨htake, hget⟩
    have hlt : key.length < (cstr line).length := by
      by_contra hge
      rw [List.getD_eq_default _ _ (by omega)] at hget
      exact absurd hget (by decide)
    rw [List.getD_eq_getElem _ _ hlt] at hget
    rw [← hget]
    nth_rewrite 1 [← htake]
    rw [List.take_append_getElem hlt]
    exact List.take_prefix _ _
  · rintro ⟨rest, hrest⟩
    rw [← hrest, List.append_assoc]
    exact ⟨List.take_left, by simp⟩

/-- The key of a text ends at its first equals sign. -/
theorem keyOf_append {key : Bytes} (h : equals ∉ key) (rest : Bytes) :
    keyOf (key ++ equals :: rest) = key :=
  takeWhile_append_delim h rest

section Entry

variable {e : Bytes × Bytes} {key : Bytes}

theorem Proper.equals_notMem (h : Proper e) : equals ∉ e.1 := fun hmem => (h.key _ hmem).1 rfl

theorem Proper.entryText_mem (h : Proper e) {b : UInt8} (hb : b ∈ entryText e) :
    b ≠ newline ∧ b ≠ 0 := by
  rcases List.mem_append.mp hb with hkey | hb
  · exact (h.key b hkey).2
  · rcases List.mem_cons.mp hb with rfl | hvalue
    · decide
    · exact (h.value b hvalue).2

theorem Proper.newline_notMem (h : Proper e) : newline ∉ entryText e :=
  fun hmem => (h.entryText_mem hmem).1 rfl

theorem Proper.length_lt (h : Proper e) : (entryText e).length + 1 < 512 := by
  have hfits := h.fits
  rw [entryText, List.length_append, List.length_cons]
  omega

theorem Proper.cstr_line (h : Proper e) :
    cstr (entryText e ++ [newline]) = entryText e ++ [newline] := by
  refine cstr_of_notMem (fun hmem => ?_)
  rcases List.mem_append.mp hmem with hmem | hmem
  · exact (h.entryText_mem hmem).2 rfl
  · exact absurd (List.mem_singleton.mp hmem) (by decide)

theorem entryLine_eq (e : Bytes × Bytes) : entryLine e.1 e.2 = entryText e ++ [newline] := by
  rw [entryLine, entryText]

/-- A line is that of its own key, and of no other: the equals sign ends the comparison. -/
theorem Proper.isLineOf_iff (h : Proper e) (hkey : equals ∉ key) :
    isLineOf key (entryText e ++ [newline]) = true ↔ e.1 = key := by
  rw [Persist.isLineOf_iff, h.cstr_line, entryText, List.append_assoc, List.cons_append]
  constructor
  · rintro ⟨rest, hrest⟩
    rw [List.append_assoc, List.singleton_append] at hrest
    have hkeys := congrArg keyOf hrest
    rw [keyOf_append hkey, keyOf_append h.equals_notMem] at hkeys
    exact hkeys.symm
  · rintro rfl
    refine ⟨e.2 ++ [newline], ?_⟩
    rw [List.append_assoc, List.singleton_append]

theorem Proper.stripEnd_line (h : Proper e) :
    stripEnd ((cstr (entryText e ++ [newline])).drop (e.1.length + 1)) = e.2 := by
  have hdrop : (entryText e ++ [newline]).drop (e.1.length + 1) = e.2 ++ [newline] := by
    rw [entryText, List.append_assoc, List.cons_append, ← List.drop_drop, List.drop_left,
      List.drop_one, List.tail_cons]
  rw [h.cstr_line, hdrop, stripEnd, List.rdropWhile_concat_pos _ _ _ (by decide),
    List.rdropWhile_eq_self_iff]
  intro hne hlast
  obtain ⟨hcr, hnl, -⟩ := h.value _ (List.getLast_mem hne)
  rw [Bool.or_eq_true, beq_iff_eq, beq_iff_eq] at hlast
  exact hlast.elim hnl hcr

end Entry

/-! ## The representation -/

/-- The file of the namespace, no bytes when there is none. -/
def confFile (fs : Files) (ns : Bytes) : Bytes := (fs (confPath ns)).getD []

structure Holds (ns : Bytes) (es : List (Bytes × Bytes)) (fs : Files) : Prop where
  file : confFile fs ns = confText es
  proper : ∀ e ∈ es, Proper e

/-- The name of the temporary file is another one: the path leaves room for a dot behind it. -/
def Ordinary (ns : Bytes) : Prop := (ascii "/persist/config/" ++ ns ++ ascii ".conf").length < 255

theorem Ordinary.tmpPath_ne {ns : Bytes} (h : Ordinary ns) :
    tmpPath (confPath ns) ≠ confPath ns := by
  intro he
  have hlen := congrArg List.length he
  have hpath : confPath ns = ascii "/persist/config/" ++ ns ++ ascii ".conf" :=
    List.take_of_length_le h.le
  have htmp : (ascii ".tmp").length = 4 := by decide
  unfold Ordinary at h
  rw [← hpath] at h
  rw [tmpPath, List.length_take, List.length_append, htmp] at hlen
  omega

section Store

variable {ns key : Bytes} {es : List (Bytes × Bytes)} {e : Bytes × Bytes} {fs : Files}

theorem fgetsAll_confText (h : ∀ e ∈ es, Proper e) :
    fgetsAll 512 (confText es) = es.map (fun e => entryText e ++ [newline]) := by
  have hlines : ∀ l ∈ es.map entryText, newline ∉ l ∧ l.length + 1 < 512 := by
    intro l hl
    obtain ⟨e, he, rfl⟩ := List.mem_map.mp hl
    exact ⟨(h e he).newline_notMem, (h e he).length_lt⟩
  rw [confText, fgetsAll_join (by decide) hlines, List.map_map]
  rfl

/-- A get looks through the file, which has no line when there is none. -/
theorem configGet_eq (fs : Files) (ns key : Bytes) :
    configGet fs ns key = ((fgetsAll 512 (confFile fs ns)).find? (isLineOf key)).map
      (fun line => stripEnd ((cstr line).drop (key.length + 1))) := by
  unfold configGet confFile
  cases fs (confPath ns) with
  | none => rfl
  | some file => rfl

/-- A get is that of the entries. -/
theorem configGet_of_holds (h : Holds ns es fs) (hkey : equals ∉ key) :
    configGet fs ns key = valueOf es key := by
  rw [configGet_eq, h.file, fgetsAll_confText h.proper, List.find?_map, Option.map_map, valueOf]
  have hproper := h.proper
  clear h
  induction es with
  | nil => rfl
  | cons e es ih =>
    have he := hproper e List.mem_cons_self
    have hline := he.isLineOf_iff hkey
    by_cases hk : e.1 = key
    · rw [List.find?_cons_of_pos (by simpa using hline.mpr hk),
        List.find?_cons_of_pos (by simpa using hk)]
      subst hk
      exact congrArg some he.stripEnd_line
    · rw [List.find?_cons_of_neg (by simpa using fun h' => hk (hline.mp h')),
        List.find?_cons_of_neg (by simpa using hk)]
      exact ih (fun e' he' => hproper e' (List.mem_cons_of_mem e he'))

/-- The loop writes every line again, that of the key with its new value. -/
theorem rewriteLines_entries (he : Proper e) (hes : ∀ e ∈ es, Proper e) (out : Bytes)
    (replaced : Bool) :
    rewriteLines e.1 e.2 (es.map (fun e => entryText e ++ [newline])) (out, replaced) =
      (out ++ confText (es.map (fun e' => if e'.1 = e.1 then e else e')),
        replaced || decide (e.1 ∈ keys es)) := by
  induction es generalizing out replaced with
  | nil => simp [rewriteLines, confText, keys]
  | cons e' es ih =>
    have he' := hes e' List.mem_cons_self
    have hline := he'.isLineOf_iff he.equals_notMem
    have ih' := ih (fun e'' he'' => hes e'' (List.mem_cons_of_mem e' he''))
    by_cases hk : e'.1 = e.1
    · rw [List.map_cons, rewriteLines, if_pos (hline.mpr hk), ih', List.map_cons, if_pos hk,
        entryLine_eq]
      simp [confText, keys, hk]
    · have hk' : e.1 ≠ e'.1 := Ne.symm hk
      rw [List.map_cons, rewriteLines, if_neg (fun h => hk (hline.mp h)), ih', List.map_cons,
        if_neg hk, he'.cstr_line]
      have hmem : e.1 ∈ keys (e' :: es) ↔ e.1 ∈ keys es := by
        rw [keys, List.map_cons, List.mem_cons]
        exact or_iff_right hk'
      simp [confText, hmem]

theorem confText_put (h : e.1 ∉ keys es) :
    confText (es.map (fun e' => if e'.1 = e.1 then e else e')) ++ entryLine e.1 e.2 =
      confText (put es e) := by
  have hmap : es.map (fun e' => if e'.1 = e.1 then e else e') = es := by
    refine (List.map_congr_left (fun e' he' => if_neg fun hk => h ?_)).trans (List.map_id es)
    exact hk ▸ List.mem_map_of_mem he'
  rw [hmap, put, if_neg h, confText, confText, List.map_append, join_append, entryLine_eq]
  simp

/-- The content a set leaves. -/
theorem rewriteLines_put (he : Proper e) (hes : ∀ e ∈ es, Proper e) :
    (let (out, replaced) :=
        rewriteLines e.1 e.2 (es.map (fun e => entryText e ++ [newline])) ([], false)
      if replaced then out else out ++ entryLine e.1 e.2) = confText (put es e) := by
  rw [rewriteLines_entries he hes, List.nil_append, Bool.false_or]
  by_cases h : e.1 ∈ keys es
  · simp only [h, decide_true, if_true]
    rw [put, if_pos h]
  · simp only [h, decide_false]
    exact confText_put h

/-- A set is a `put` on the entries. -/
theorem holds_configSet (hns : Ordinary ns) (h : Holds ns es fs) {c : SetCall}
    (hc : Proper c.entry) (hopens : c.opens = true) :
    Holds ns (put es c.entry) (configSet ns c fs).2 := by
  have hne := hns.tmpPath_ne
  have hread : (if (fs (confPath ns)).isSome then fgetsAll 512 ((Function.update fs
      (tmpPath (confPath ns)) (some []) (confPath ns)).getD []) else []) =
      es.map (fun e => entryText e ++ [newline]) := by
    rw [Function.update_of_ne hne.symm, ← fgetsAll_confText h.proper, ← h.file, confFile]
    cases fs (confPath ns) with
    | none => rfl
    | some file => rfl
  have hcontent := rewriteLines_put hc h.proper
  refine ⟨?_, ?_⟩
  · unfold confFile configSet
    simp only [hopens, if_true]
    rw [hread, rename, if_neg hne, Function.update_of_ne hne.symm, Function.update_self,
      Function.update_self]
    exact hcontent
  · intro e he
    rw [put] at he
    split at he
    · obtain ⟨e', he', rfl⟩ := List.mem_map.mp he
      split
      · exact hc
      · exact h.proper e' he'
    · rcases List.mem_append.mp he with he | he
      · exact h.proper e he
      · rw [List.mem_singleton.mp he]
        exact hc

theorem configSet_fails {c : SetCall} (hopens : c.opens = false) :
    configSet ns c fs = (-1, fs) := by
  simp [configSet, hopens]

/-- The sets that were made, of a sequence of calls. -/
def made (calls : List SetCall) : List (Bytes × Bytes) :=
  (calls.filter (·.opens)).map SetCall.entry

theorem holds_configSets (hns : Ordinary ns) (h : Holds ns es fs) {calls : List SetCall}
    (hcalls : ∀ c ∈ calls, Proper c.entry) :
    Holds ns (puts es (made calls)) (configSets ns calls fs) := by
  induction calls generalizing es fs with
  | nil => exact h
  | cons c calls ih =>
    have hrest := fun c' hc' => hcalls c' (List.mem_cons_of_mem c hc')
    cases hopens : c.opens with
    | false =>
      have hmade : made (c :: calls) = made calls := by simp [made, hopens]
      rw [hmade, configSets, List.foldl_cons, configSet_fails hopens]
      exact ih h hrest
    | true =>
      have hmade : made (c :: calls) = c.entry :: made calls := by simp [made, hopens]
      rw [hmade]
      exact ih (holds_configSet hns h (hcalls c List.mem_cons_self) hopens) hrest

end Store

/-! ## The map -/

/-- The file and the gets are those of the last value of every key. -/
structure IsMap (ns : Bytes) (sets : List (Bytes × Bytes)) (fs : Files) : Prop where
  whole : (cut newline (confFile fs ns)).2 = []
  once : ((cut newline (confFile fs ns)).1.map keyOf).Nodup
  mem : ∀ key, key ∈ (cut newline (confFile fs ns)).1.map keyOf ↔ key ∈ keys sets
  get : ∀ key, equals ∉ key → configGet fs ns key = last sets key
  apart : ∀ c : SetCall, Proper c.entry → ∀ key, equals ∉ key → key ≠ c.key →
    configGet (configSet ns c fs).2 ns key = configGet fs ns key

theorem cut_confText {es : List (Bytes × Bytes)} (h : ∀ e ∈ es, Proper e) :
    cut newline (confText es) = (es.map entryText, []) ∧
      (es.map entryText).map keyOf = keys es := by
  refine ⟨?_, ?_⟩
  · rw [confText, ← List.append_nil (join newline (es.map entryText))]
    refine cut_join (fun l hl => ?_) List.not_mem_nil
    obtain ⟨e, he, rfl⟩ := List.mem_map.mp hl
    exact (h e he).newline_notMem
  · rw [List.map_map]
    exact List.map_congr_left (fun e he => keyOf_append (h e he).equals_notMem _)

theorem Holds.apart {ns : Bytes} {es : List (Bytes × Bytes)} {fs : Files} (hns : Ordinary ns)
    (h : Holds ns es fs) {c : SetCall} (hc : Proper c.entry) {key : Bytes} (hkey : equals ∉ key)
    (hne : key ≠ c.key) : configGet (configSet ns c fs).2 ns key = configGet fs ns key := by
  cases hopens : c.opens with
  | false => rw [configSet_fails hopens]
  | true =>
    rw [configGet_of_holds (holds_configSet hns h hc hopens) hkey, configGet_of_holds h hkey,
      valueOf_put]
    exact if_neg hne

/-- **The config store is a map.** After any sequence of sets on a namespace that had no file, the
file has one line for every key that was set, a get returns the value of the last set, and a set
leaves the other keys as they are. -/
theorem config_isMap {ns : Bytes} (hns : Ordinary ns) {fs : Files} (hfs : fs (confPath ns) = none)
    (calls : List SetCall) (hcalls : ∀ c ∈ calls, Proper c.entry) :
    IsMap ns (made calls) (configSets ns calls fs) := by
  have hstart : Holds ns [] fs := by
    refine ⟨?_, fun e he => absurd he List.not_mem_nil⟩
    rw [confFile, hfs]
    rfl
  have hholds := holds_configSets hns hstart hcalls
  obtain ⟨hcut, hkeys⟩ := cut_confText hholds.proper
  obtain ⟨hnodup, hmem, hlast⟩ := puts_spec (made calls)
  refine ⟨?_, ?_, ?_, ?_, ?_⟩
  · rw [hholds.file, hcut]
  · rw [hholds.file, hcut, hkeys]
    exact hnodup
  · intro key
    rw [hholds.file, hcut, hkeys]
    exact hmem key
  · intro key hkey
    rw [configGet_of_holds hholds hkey, hlast]
  · intro c hc key hkey hne
    exact hholds.apart hns hc hkey hne

/-- Two keys, one the start of the other. -/
def volumeSets : List SetCall :=
  [⟨ascii "vol", ascii "5", true⟩, ⟨ascii "volume", ascii "a=b", true⟩,
    ⟨ascii "vol", ascii "6", true⟩]

theorem config_volume : IsMap (ascii "audio") (made volumeSets)
    (configSets (ascii "audio") volumeSets (fun _ => none)) := by
  refine config_isMap (show Ordinary (ascii "audio") by unfold Ordinary; decide) rfl volumeSets ?_
  intro c hc
  simp only [volumeSets, List.mem_cons, List.not_mem_nil, or_false] at hc
  rcases hc with rfl | rfl | rfl
  all_goals exact ⟨by decide, by decide, by decide⟩

end Persist
end BuildingBlocks
