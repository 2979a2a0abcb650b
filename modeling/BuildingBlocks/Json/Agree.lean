import BuildingBlocks.Json.Reader

/-!
# BuildingBlocks.Json.Agree

What the reader gets back from what the writer wrote.

* `Agrees` is the law for one text: each key reads as the value added under it, every other key as
  nothing.
* `Unconfused` is the condition: no string value is read as a key that comes later or not at all.
* `agrees_iff` — the law holds of exactly the unconfused objects.
-/

namespace BuildingBlocks
namespace Json

/-! ## The text of an object -/

section Text

variable {e : Bytes × Value}

theorem length_valueText_le {v : Value} (h : v.Ok) : (valueText v).length ≤ 257 := by
  cases v with
  | str val =>
    have hlen := h.1
    simp only [valueText, List.cons_append, List.length_cons, List.length_append, List.length_nil]
    omega
  | int z => exact (length_intText_le h.1 h.2).trans (by decide)
  | bool b => cases b <;> decide

theorem Ok.short (h : Ok e) : Short e := by
  have hkey := h.1.1
  have hval := length_valueText_le h.2
  exact ⟨by omega, by omega⟩

theorem zero_not_mem_of_isPlain {text : Bytes} (h : text.all isPlain = true) :
    (0 : UInt8) ∉ text :=
  fun hz => absurd (List.all_eq_true.mp h 0 hz) (by decide)

theorem Ok.zero_not_mem (h : Ok e) : (0 : UInt8) ∉ e.1 ∧ (0 : UInt8) ∉ valueText e.2 := by
  obtain ⟨hkey, hval⟩ := h
  have hplain : e.1.all isPlain = true :=
    List.all_eq_true.mpr (fun b hb => (isPlain_of_isIdent (List.all_eq_true.mp hkey.2 b hb)).1)
  refine ⟨zero_not_mem_of_isPlain hplain, ?_⟩
  refine zero_not_mem_valueText ?_
  intro s hs
  rw [hs] at hval
  exact zero_not_mem_of_isPlain hval.2

end Text

/-! ## What is read -/

section Read

variable {entries : List (Bytes × Value)} {key : Bytes}

/-- Characters that the reader does not skip. -/
def Stops (text : Bytes) : Prop := ∀ b ∈ text.head?, b ≠ 0x20 ∧ b ≠ colon

theorem dropWhile_of_stops {text : Bytes} (h : Stops text) :
    text.dropWhile (fun b => b = 0x20 || b = colon) = text := by
  cases text with
  | nil => rfl
  | cons b text =>
    obtain ⟨hspace, hcolon⟩ := h b rfl
    rw [List.dropWhile_cons_of_neg (by simp [hspace, hcolon])]

theorem stops_cons {b : UInt8} (h : b ≠ 0x20 ∧ b ≠ colon) (text : Bytes) : Stops (b :: text) := by
  intro b' hb'
  obtain rfl : b = b' := by simpa using hb'
  exact h

theorem stops_valueText (v : Value) (text : Bytes) : Stops (valueText v ++ text) := by
  cases v with
  | str val => exact stops_cons (by decide) _
  | bool b => cases b <;> exact stops_cons (by decide) _
  | int z =>
    obtain ⟨b, bs, he, hb⟩ := intText_head z
    rw [valueText, he]
    refine stops_cons ?_ _
    rcases hb with hb | rfl
    · constructor <;> (rintro rfl; exact absurd hb (by decide))
    · decide

theorem stops_tail (entries : List (Bytes × Value)) : Stops (tail entries) := by
  obtain ⟨b, hb, htail⟩ := tail_cases entries
  rw [htail]
  rcases hb with rfl | rfl
  · exact stops_cons (by decide) _
  · exact stops_cons (by decide) _

/-- Where the reader stands after the search. -/
theorem findKey_document (hkey : IsKey key) (h : ∀ e ∈ entries, Ok e) :
    match firstToken key entries with
    | none => findKey (document entries) key = none
    | some (some v) => ∃ rest, findKey (document entries) key = some (valueText v ++ tail rest)
    | some none => ∃ rest, findKey (document entries) key = some (tail rest) := by
  have htake : (quoted key).take 127 = quoted key := by
    refine List.take_of_length_le ?_
    have hlen := hkey.1
    simp only [quoted, List.length_cons, List.length_append, List.length_nil]
    omega
  have hsearch : strstr (quoted key) (document entries) = strstr (quoted key) (body entries) := by
    rw [document_eq (fun e he => (h e he).short), strstr_ne_quote (by decide)]
    split
    · rename_i hnil
      rw [strstr_ne_quote (by decide), hnil]
      rfl
    · rfl
  have hbody := strstr_body hkey h
  unfold findKey
  simp only [htake, hsearch]
  cases hf : firstToken key entries with
  | none =>
    rw [hf] at hbody
    simp only [hbody]
  | some found =>
    rw [hf] at hbody
    cases found with
    | none =>
      obtain ⟨rest, hrest⟩ := hbody
      refine ⟨rest, ?_⟩
      simp only [hrest, List.drop_left]
      rw [dropWhile_of_stops (stops_tail rest)]
    | some v =>
      obtain ⟨rest, hrest⟩ := hbody
      refine ⟨rest, ?_⟩
      simp only [hrest, List.drop_left]
      rw [List.dropWhile_cons_of_pos (by simp), dropWhile_of_stops (stops_valueText v _)]

theorem firstToken_mem {v : Value} (h : firstToken key entries = some (some v)) :
    (key, v) ∈ entries := by
  induction entries with
  | nil => cases h
  | cons e entries ih =>
    rw [firstToken] at h
    split_ifs at h with hk hv
    · cases h
      rw [← hk]
      exact List.mem_cons_self
    · cases h
    · exact List.mem_cons_of_mem _ (ih h)

theorem unescape_plain {n : Nat} {val : Bytes} (hlen : val.length ≤ n)
    (h : val.all isPlain = true) (text : Bytes) :
    unescape n (val ++ quote :: text) = val := by
  induction n generalizing val with
  | zero =>
    rw [List.length_eq_zero_iff.mp (Nat.le_zero.mp hlen)]
    rfl
  | succ n ih =>
    cases val with
    | nil => simp [unescape]
    | cons b val =>
      rw [List.all_cons, Bool.and_eq_true] at h
      obtain ⟨hb, hrest⟩ := h
      have hquote : b ≠ quote := ne_quote_of_isPlain hb
      have hback : b ≠ backslash := by
        rintro rfl
        exact absurd hb (by decide)
      rw [List.cons_append, unescape.eq_def]
      simp only [hquote, hback, if_false]
      rw [ih (Nat.le_of_succ_le_succ hlen) hrest]

theorem getString_document (hkey : IsKey key) (h : ∀ e ∈ entries, Ok e) :
    getString (document entries) key =
      match firstToken key entries with
      | some (some (.str val)) => some val
      | _ => none := by
  have hfind := findKey_document hkey h
  unfold getString
  cases hf : firstToken key entries with
  | none =>
    rw [hf] at hfind
    simp only [hfind]
  | some found =>
    rw [hf] at hfind
    cases found with
    | none =>
      obtain ⟨rest, hrest⟩ := hfind
      obtain ⟨b, hb, htail⟩ := tail_cases rest
      have hquote : b ≠ quote := by
        rcases hb with rfl | rfl <;> decide
      simp only [hrest, htail, hquote, if_false]
    | some v =>
      obtain ⟨rest, hrest⟩ := hfind
      cases v with
      | str val =>
        obtain ⟨hlen, hplain⟩ := (h _ (firstToken_mem hf)).2
        have hread := unescape_plain (Nat.le_of_lt_succ hlen) hplain (tail rest)
        simp only [hrest, valueText, List.cons_append, List.append_assoc, List.nil_append,
          if_true, hread]
      | int z =>
        obtain ⟨b, bs, he, hb⟩ := intText_head z
        have hquote : b ≠ quote := by
          rintro rfl
          exact absurd hb (by decide)
        simp only [hrest, valueText, he, List.cons_append, hquote, if_false]
      | bool b =>
        simp only [hrest]
        cases b <;> rfl

/-- Where a text has no digits, `atoi` reads zero. -/
theorem atoi_tail (entries : List (Bytes × Value)) : atoi (tail entries) = 0 := by
  obtain ⟨b, hb, htail⟩ := tail_cases entries
  rw [htail]
  rcases hb with rfl | rfl
  · exact atoi_of_not_number (by decide) _
  · exact atoi_of_not_number (by decide) _

theorem endsDigits_tail (entries : List (Bytes × Value)) : EndsDigits (tail entries) := by
  obtain ⟨b, hb, htail⟩ := tail_cases entries
  rw [htail]
  rcases hb with rfl | rfl
  · exact EndsDigits.cons (by decide) _
  · exact EndsDigits.cons (by decide) _

theorem getInt_document (hkey : IsKey key) (h : ∀ e ∈ entries, Ok e) (default : Int) :
    getInt (document entries) key default =
      match firstToken key entries with
      | none => default
      | some (some (.int z)) => z
      | some _ => 0 := by
  have hfind := findKey_document hkey h
  unfold getInt
  cases hf : firstToken key entries with
  | none =>
    rw [hf] at hfind
    simp only [hfind]
  | some found =>
    rw [hf] at hfind
    cases found with
    | none =>
      obtain ⟨rest, hrest⟩ := hfind
      simp only [hrest, atoi_tail]
    | some v =>
      obtain ⟨rest, hrest⟩ := hfind
      cases v with
      | str val =>
        simp only [hrest]
        exact atoi_of_not_number (by decide) _
      | int z =>
        obtain ⟨hlo, hhi⟩ := (h _ (firstToken_mem hf)).2
        simp only [hrest, valueText, atoi_intText hlo hhi (endsDigits_tail rest)]
      | bool b =>
        simp only [hrest]
        cases b
        · exact atoi_of_not_number (b := 0x66) (by decide) _
        · exact atoi_of_not_number (b := 0x74) (by decide) _

theorem getBool_document (hkey : IsKey key) (h : ∀ e ∈ entries, Ok e) (default : Int) :
    getBool (document entries) key default =
      match firstToken key entries with
      | some (some (.bool b)) => if b then 1 else 0
      | _ => default := by
  have hfind := findKey_document hkey h
  unfold getBool
  cases hf : firstToken key entries with
  | none =>
    rw [hf] at hfind
    simp only [hfind]
  | some found =>
    rw [hf] at hfind
    cases found with
    | none =>
      obtain ⟨rest, hrest⟩ := hfind
      obtain ⟨b, hb, htail⟩ := tail_cases rest
      simp only [hrest, htail]
      rcases hb with rfl | rfl <;> rfl
    | some v =>
      obtain ⟨rest, hrest⟩ := hfind
      simp only [hrest]
      cases v with
      | str val => rfl
      | int z =>
        obtain ⟨b, bs, he, hb⟩ := intText_head z
        have hne : b ≠ 0x74 ∧ b ≠ 0x66 := by
          constructor <;> (rintro rfl; exact absurd hb (by decide))
        have htrue : (ascii "true").isPrefixOf (b :: (bs ++ tail rest)) = false := by
          have hb' : ((0x74 : UInt8) == b) = false := by simpa using hne.1.symm
          show (((0x74 : UInt8) == b) && _) = false
          rw [hb', Bool.false_and]
        have hfalse : (ascii "false").isPrefixOf (b :: (bs ++ tail rest)) = false := by
          have hb' : ((0x66 : UInt8) == b) = false := by simpa using hne.2.symm
          show (((0x66 : UInt8) == b) && _) = false
          rw [hb', Bool.false_and]
        rw [valueText, he, List.cons_append, htrue, hfalse]
        rfl
      | bool b => cases b <;> rfl

end Read

/-! ## The law and the condition -/

/-- What the getter of a value's type returns for a key, and all of them for a key not added. -/
def ReadsAs (text key : Bytes) : Option Value → Prop
  | none => getString text key = none ∧ ∀ d, getInt text key d = d ∧ getBool text key d = d
  | some (.str val) => getString text key = some val
  | some (.int z) => ∀ d, getInt text key d = z
  | some (.bool b) => ∀ d, getBool text key d = if b then 1 else 0

def Agrees (text : Bytes) (entries : List (Bytes × Value)) : Prop :=
  ∀ key, IsKey key → ReadsAs text key (entries.lookup key)

def Value.str? : Value → Option Bytes
  | .str val => some val
  | _ => none

/-- A string value that could be a key is the key of its entry or of one before it, or of a later
one whose value is the number zero; `seen` are the keys before. -/
def Unconfused (seen : List Bytes) : List (Bytes × Value) → Prop
  | [] => True
  | (k, v) :: entries =>
    (∀ val ∈ v.str?, IsKey val → val ∈ k :: seen ∨ (val, .int 0) ∈ entries) ∧
      Unconfused (k :: seen) entries

instance Unconfused.decidable : ∀ seen entries, Decidable (Unconfused seen entries)
  | _, [] => .isTrue trivial
  | seen, (k, _) :: entries =>
    have := Unconfused.decidable (k :: seen) entries
    inferInstanceAs (Decidable (_ ∧ _))

theorem Value.str?_eq_some {v : Value} {val : Bytes} : v.str? = some val ↔ v = .str val := by
  cases v <;> simp [Value.str?]

section Law

variable {entries : List (Bytes × Value)} {key : Bytes}

theorem mem_iff_lookup (h : (entries.map Prod.fst).Nodup) {v : Value} :
    (key, v) ∈ entries ↔ entries.lookup key = some v := by
  induction entries with
  | nil => simp
  | cons e entries ih =>
    obtain ⟨k, v₀⟩ := e
    rw [List.map_cons, List.nodup_cons] at h
    rw [List.lookup_cons, List.mem_cons, Prod.mk.injEq]
    by_cases hk : key = k
    · subst hk
      have hnot : (key, v) ∉ entries := fun hm => h.1 (List.mem_map.mpr ⟨_, hm, rfl⟩)
      simp [hnot, eq_comm]
    · have hbeq : (key == k) = false := by simpa using hk
      rw [hbeq, ← ih h.2]
      simp [hk]

/-- When the first token is an entry's key, it is the entry of that key. -/
theorem lookup_of_firstToken {v : Value} (h : firstToken key entries = some (some v)) :
    entries.lookup key = some v := by
  induction entries with
  | nil => cases h
  | cons e entries ih =>
    rw [firstToken] at h
    rw [List.lookup_cons]
    split_ifs at h with hk hv
    · cases h
      simp [hk]
    · cases h
    · have hbeq : (key == e.1) = false := by simpa using fun he : key = e.1 => hk he.symm
      rw [hbeq]
      exact ih h

theorem lookup_of_firstToken_none (h : firstToken key entries = none) :
    entries.lookup key = none := by
  induction entries with
  | nil => rfl
  | cons e entries ih =>
    rw [firstToken] at h
    rw [List.lookup_cons]
    split_ifs at h with hk hv
    have hbeq : (key == e.1) = false := by simpa using fun he : key = e.1 => hk he.symm
    rw [hbeq]
    exact ih h

/-- One key reads right unless a string value is found in its place; and even then when the value
is the zero that `atoi` makes of it. -/
theorem readsAs_iff (hkey : IsKey key) (hok : ∀ e ∈ entries, Ok e)
    (hnodup : (entries.map Prod.fst).Nodup) :
    ReadsAs (document entries) key (entries.lookup key) ↔
      (firstToken key entries = some none → (key, .int 0) ∈ entries) := by
  have hstring := getString_document hkey hok
  have hint := getInt_document hkey hok
  have hbool := getBool_document hkey hok
  cases hf : firstToken key entries with
  | none =>
    simp only [hf] at hstring hint hbool
    rw [lookup_of_firstToken_none hf]
    refine iff_of_true ?_ (fun he => nomatch he)
    exact ⟨hstring, fun d => ⟨hint d, hbool d⟩⟩
  | some found =>
    cases found with
    | some v =>
      simp only [hf] at hstring hint hbool
      rw [lookup_of_firstToken hf]
      refine iff_of_true ?_ (fun he => nomatch he)
      cases v with
      | str val => exact hstring
      | int z => exact hint
      | bool b => exact hbool
    | none =>
      simp only [hf] at hstring hint hbool
      rw [mem_iff_lookup hnodup]
      simp only [forall_const]
      cases hl : entries.lookup key with
      | none =>
        refine iff_of_false ?_ (fun he => nomatch he)
        rintro ⟨-, hdefault⟩
        have hone := (hdefault 1).1
        rw [hint] at hone
        cases hone
      | some v =>
        rw [Option.some.injEq]
        cases v with
        | str val =>
          refine iff_of_false ?_ (fun he => nomatch he)
          rw [ReadsAs, hstring]
          exact fun he => nomatch he
        | int z =>
          rw [ReadsAs, Value.int.injEq]
          constructor
          · intro hread
            rw [← hread 0, hint]
          · rintro rfl d
            exact hint d
        | bool b =>
          refine iff_of_false ?_ (fun he => nomatch he)
          intro hread
          have htwo := hread 2
          rw [hbool] at htwo
          cases b <;> cases htwo

theorem unconfused_iff {seen : List Bytes} :
    Unconfused seen entries ↔
      ∀ key, IsKey key → key ∉ seen → firstToken key entries = some none →
        (key, .int 0) ∈ entries := by
  induction entries generalizing seen with
  | nil => simp [Unconfused, firstToken]
  | cons e entries ih =>
    obtain ⟨k, v⟩ := e
    rw [Unconfused, ih]
    constructor
    · rintro ⟨hfirst, hrest⟩ key hkey hseen hf
      rw [firstToken] at hf
      split_ifs at hf with hk hv
      · cases hf
      · have hnot : key ∉ k :: seen := by
          rw [List.mem_cons, not_or]
          exact ⟨fun he => hk he.symm, hseen⟩
        rcases hfirst key (Value.str?_eq_some.mpr hv) hkey with hmem | hmem
        · exact absurd hmem hnot
        · exact List.mem_cons_of_mem _ hmem
      · have hnot : key ∉ k :: seen := by
          rw [List.mem_cons, not_or]
          exact ⟨fun he => hk he.symm, hseen⟩
        exact List.mem_cons_of_mem _ (hrest key hkey hnot hf)
    · intro hall
      have hlater : ∀ key, IsKey key → key ∉ k :: seen →
          firstToken key ((k, v) :: entries) = some none → (key, .int 0) ∈ entries := by
        intro key hkey hnot hf
        rw [List.mem_cons, not_or] at hnot
        rcases List.mem_cons.mp (hall key hkey hnot.2 hf) with he | hmem
        · exact absurd (congrArg Prod.fst he) hnot.1
        · exact hmem
      have hunfold : ∀ key, key ∉ k :: seen → firstToken key ((k, v) :: entries) =
          if v = .str key then some none else firstToken key entries := by
        intro key hnot
        rw [List.mem_cons, not_or] at hnot
        rw [firstToken, if_neg (fun he => hnot.1 he.symm)]
      refine ⟨?_, ?_⟩
      · intro val hval hkey
        by_cases hmem : val ∈ k :: seen
        · exact Or.inl hmem
        · right
          refine hlater val hkey hmem ?_
          rw [hunfold val hmem, if_pos (Value.str?_eq_some.mp hval)]
      · intro key hkey hnot hf
        refine hlater key hkey hnot ?_
        rw [hunfold key hnot, hf, ite_self]

end Law

/-- **Reading agrees with writing for exactly the unconfused objects.** For every object with
distinct keys, written to a buffer that holds it, each key reads as the value added under it and
every other key as nothing or the default, if and only if every string value that could be a key is
the key of its entry or of one before it, or of a later one whose value is the number zero. -/
theorem agrees_iff (mem : Nat → UInt8) (size : Nat) (entries : List (Bytes × Value))
    (hok : ∀ e ∈ entries, Ok e) (hnodup : (entries.map Prod.fst).Nodup)
    (hsize : size < 0x10000000000000000) (hroom : (document entries).length < size) :
    Agrees (written mem size entries) entries ↔ Unconfused [] entries := by
  have hzero := zero_not_mem_document (fun e he => (hok e he).zero_not_mem)
  rw [write_document mem hsize hroom hzero, Agrees, unconfused_iff]
  constructor
  · intro hreads key hkey _
    exact (readsAs_iff hkey hok hnodup).mp (hreads key hkey)
  · intro hfound key hkey
    exact (readsAs_iff hkey hok hnodup).mpr (hfound key hkey List.not_mem_nil)

/-- No string value could be a key but that of the first entry, which is its own. -/
def topicEntries : List (Bytes × Value) :=
  [(ascii "topic", .str (ascii "topic")), (ascii "path", .str (ascii "/dev/bb-led")),
    (ascii "on_ms", .int (-500)), (ascii "ready", .bool true)]

theorem topicEntries_agrees : Agrees (written (fun _ => 0) 256 topicEntries) topicEntries :=
  (agrees_iff (fun _ => 0) 256 topicEntries (by decide) (by decide) (by decide) (by decide)).mpr
    (by decide)

/-- The value of the first entry is the key of the second. -/
def askState : List (Bytes × Value) :=
  [(ascii "cmd", .str (ascii "state")), (ascii "state", .str (ascii "off"))]

theorem state_not_read :
    getString (written (fun _ => 0) 64 askState) (ascii "state") = none ∧
      ¬ Agrees (written (fun _ => 0) 64 askState) askState := by
  have hnone : getString (written (fun _ => 0) 64 askState) (ascii "state") = none := by decide
  refine ⟨hnone, ?_⟩
  intro h
  have hread := h (ascii "state") (by decide)
  rw [show askState.lookup (ascii "state") = some (.str (ascii "off")) by decide, ReadsAs,
    hnone] at hread
  cases hread

end Json
end BuildingBlocks
