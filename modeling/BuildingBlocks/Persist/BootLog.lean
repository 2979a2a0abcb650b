import BuildingBlocks.Persist.UpdateLog

/-!
# BuildingBlocks.Persist.BootLog

The boot history of `libbb/bb_persist.c`: one line a boot, printed with `fprintf`, read with
`sscanf`.

* `bootLogAdd`, `bootLogRead` are the functions.
* `scanBoot_line` — a line is read back as the entry it was printed from, unless its slot is a NUL.
* `bootLogRead_adds` — so the reader returns the first entries that were added.
-/

namespace BuildingBlocks
namespace Persist

open Lib

/-! ## The code -/

/-- `bb_boot_entry_t`. -/
structure BootEntry where
  timestamp : UInt64
  slot : UInt8
  success : Int32
  bootTimeMs : UInt32
deriving DecidableEq, Repr

def space : UInt8 := 0x20

/-- What `bb_persist_boot_log_add` prints: `"%llu %c %d %u\n"`. -/
def BootEntry.line (e : BootEntry) : Bytes :=
  natText e.timestamp.toNat ++ [space, e.slot, space] ++ intText e.success.toInt ++ [space] ++
    natText e.bootTimeMs.toNat ++ [newline]

/-- `bb_persist_boot_log_add` on the file, which `"a"` creates when it opens. -/
def bootLogAdd (opens : Bool) (e : BootEntry) (log : Option Bytes) : Int × Option Bytes :=
  if opens then (0, some (log.getD [] ++ e.line)) else (-1, log)

/-- Where a number directive of `sscanf` ends: behind blanks, a sign and digits; `none` without a
digit. -/
def numberEnd (text : Bytes) : Option Bytes :=
  let text := text.dropWhile isSpace
  let text := if text.head? = some 0x2d ∨ text.head? = some 0x2b then text.tail else text
  let digits := text.takeWhile isDigit
  if digits.isEmpty then none else some (text.drop digits.length)

/-- `sscanf(line, "%llu %c %d %u", ...)` with all four items. -/
def scanBoot (line : Bytes) : Option BootEntry :=
  let text := cstr line
  match numberEnd text with
  | none => none
  | some rest =>
    match rest.dropWhile isSpace with
    | [] => none
    | slot :: text₁ =>
      match numberEnd text₁ with
      | none => none
      | some text₂ =>
        match numberEnd text₂ with
        | none => none
        | some _ =>
          some { timestamp := UInt64.ofNat (strtoull text), slot := slot,
                 success := Int32.ofInt (atoi text₁), bootTimeMs := UInt32.ofNat (strtoull text₂) }

/-- The loop of `bb_persist_boot_log_read`: a line that does not scan is passed over. -/
def scanBoots : List Bytes → Nat → List BootEntry
  | line :: lines, room + 1 =>
    match scanBoot line with
    | some e => e :: scanBoots lines room
    | none => scanBoots lines (room + 1)
  | _, _ => []

/-- `bb_persist_boot_log_read`: the entries it stores. -/
def bootLogRead (log : Option Bytes) (maxEntries : Int) : List BootEntry :=
  match log with
  | none => []
  | some file => scanBoots (fgetsAll 256 file) maxEntries.toNat

/-! ## One line -/

section Number

/-- A printed number is passed, with the blanks in front of it. -/
theorem numberEnd_intText (z : Int) {blanks rest : Bytes} (hblanks : ∀ b ∈ blanks, isSpace b = true)
    (h : EndsDigits rest) : numberEnd (blanks ++ (intText z ++ rest)) = some rest := by
  have hdrop : (blanks ++ (intText z ++ rest)).dropWhile isSpace = intText z ++ rest := by
    rw [List.dropWhile_append_of_pos hblanks, dropWhile_isSpace_intText]
  have hdigits : ∀ n : Nat, (natText n ++ rest).takeWhile isDigit = natText n := by
    intro n
    rw [List.takeWhile_append_of_pos (isDigit_natText n)]
    cases rest with
    | nil => rw [List.takeWhile_nil, List.append_nil]
    | cons b bs =>
      rw [List.takeWhile_cons_of_neg (by rw [h b rfl]; exact Bool.false_ne_true), List.append_nil]
  have hsign : (if (intText z ++ rest).head? = some 0x2d ∨ (intText z ++ rest).head? = some 0x2b
      then (intText z ++ rest).tail else intText z ++ rest) = natText z.natAbs ++ rest := by
    by_cases hz : z < 0
    · rw [intText, if_pos hz]
      simp
    · rw [intText, if_neg hz]
      obtain ⟨b, bs, he⟩ := List.exists_cons_of_ne_nil (natText_ne_nil z.natAbs)
      have hb := isDigit_natText z.natAbs b (by rw [he]; exact List.mem_cons_self)
      obtain ⟨-, hminus, hplus⟩ := not_isSpace_of_isDigit hb
      rw [he, List.cons_append, if_neg]
      simp only [List.head?_cons, Option.some.injEq, hminus, hplus, or_self, not_false_eq_true]
  unfold numberEnd
  simp only [hdrop, hsign, hdigits, List.drop_left, List.isEmpty_iff, natText_ne_nil, if_false]

/-- Blanks in front of a number do not change it. -/
theorem atoi_cons_space {b : UInt8} (h : isSpace b = true) (text : Bytes) :
    atoi (b :: text) = atoi text := by
  rw [atoi, atoi, strtol, strtol, List.dropWhile_cons_of_pos h]

theorem strtoull_cons_space {b : UInt8} (h : isSpace b = true) (text : Bytes) :
    strtoull (b :: text) = strtoull text := by
  rw [strtoull, strtoull, List.dropWhile_cons_of_pos h]

end Number

section Line

variable {e : BootEntry}

/-- A line without its newline. -/
def BootEntry.body (e : BootEntry) : Bytes :=
  natText e.timestamp.toNat ++ [space, e.slot, space] ++ intText e.success.toInt ++ [space] ++
    natText e.bootTimeMs.toNat

theorem BootEntry.line_eq (e : BootEntry) : e.line = e.body ++ [newline] := rfl

theorem length_natText_le {n k : Nat} (hk : 0 < k) (h : n < 10 ^ k) : (natText n).length ≤ k := by
  rw [natText, List.length_map]
  exact (Nat.length_toDigits_le_iff (by decide) hk).mpr h

theorem BootEntry.length_body (e : BootEntry) : e.body.length ≤ 45 := by
  have hts := length_natText_le (k := 20) (by decide)
    (e.timestamp.toNat_lt.trans (by decide : 2 ^ 64 < 10 ^ 20))
  have hms := length_natText_le (k := 10) (by decide)
    (e.bootTimeMs.toNat_lt.trans (by decide : 2 ^ 32 < 10 ^ 10))
  have hok := length_intText_le (z := e.success.toInt) (Int32.le_toInt _) (Int32.toInt_lt _)
  simp only [BootEntry.body, List.length_append, List.length_cons, List.length_nil]
  omega

theorem BootEntry.body_eq (e : BootEntry) : e.body =
    natText e.timestamp.toNat ++ space :: e.slot :: space ::
      (intText e.success.toInt ++ space :: natText e.bootTimeMs.toNat) := by
  simp [BootEntry.body]

theorem BootEntry.notMem_body {b : UInt8} (hb : b = 0 ∨ b = newline) (hslot : e.slot ≠ b) :
    b ∉ e.body := by
  have hts : b ∉ natText e.timestamp.toNat ∧ b ∉ intText e.success.toInt ∧
      b ∉ natText e.bootTimeMs.toNat := by
    rcases hb with rfl | rfl
    · exact ⟨(logSafe_natText _).zero_notMem, (logSafe_intText _).zero_notMem,
        (logSafe_natText _).zero_notMem⟩
    · exact ⟨(logSafe_natText _).newline_notMem, (logSafe_intText _).newline_notMem,
        (logSafe_natText _).newline_notMem⟩
  have hspace : b ≠ space := by
    rcases hb with rfl | rfl <;> decide
  simp only [BootEntry.body_eq, List.mem_append, List.mem_cons, hts, hspace, Ne.symm hslot,
    or_self, not_false_eq_true]

/-- A line scans as the entry it was printed from; a NUL ends it behind the time stamp. -/
theorem scanBoot_line (hblank : isSpace e.slot = false) :
    scanBoot e.line = if e.slot = 0 then none else some e := by
  have hspace : isSpace space = true := by decide
  have hend : ∀ rest, EndsDigits (space :: rest) := EndsDigits.cons (by decide)
  have hblanks : ∀ b ∈ [space], isSpace b = true := by
    intro b hb
    rw [List.mem_singleton.mp hb]
    decide
  have hnumber : ∀ n : Nat, ∀ rest, numberEnd (natText n ++ space :: rest) = some (space :: rest) :=
    fun n rest => by
      rw [← intText_ofNat]
      exact @numberEnd_intText n [] _ (fun b hb => absurd hb List.not_mem_nil) (hend rest)
  by_cases h0 : e.slot = 0
  · have hcstr : cstr e.line = natText e.timestamp.toNat ++ [space] := by
      have hsplit : e.line = (natText e.timestamp.toNat ++ [space]) ++ 0 :: (space ::
          (intText e.success.toInt ++ space :: natText e.bootTimeMs.toNat) ++ [newline]) := by
        rw [e.line_eq, e.body_eq, h0]
        simp
      rw [hsplit, cstr_append_zero]
      rw [List.mem_append, not_or]
      exact ⟨(logSafe_natText _).zero_notMem, by decide⟩
    rw [if_pos h0]
    unfold scanBoot
    simp only [hcstr, hnumber]
    rfl
  · have hcstr : cstr e.line = e.line := by
      refine cstr_of_notMem ?_
      rw [e.line_eq, List.mem_append, not_or]
      exact ⟨e.notMem_body (Or.inl rfl) h0, by decide⟩
    have hline : e.line = natText e.timestamp.toNat ++ space :: e.slot :: space ::
        (intText e.success.toInt ++ space :: (natText e.bootTimeMs.toNat ++ [newline])) := by
      rw [e.line_eq, e.body_eq]
      simp
    have hdrop : ∀ rest, (space :: e.slot :: rest).dropWhile isSpace = e.slot :: rest := by
      intro rest
      rw [List.dropWhile_cons_of_pos hspace, List.dropWhile_cons_of_neg (by simp [hblank])]
    have hok : ∀ rest, numberEnd (space :: (intText e.success.toInt ++ space :: rest)) =
        some (space :: rest) := fun rest => numberEnd_intText _ hblanks (hend rest)
    have hms : numberEnd (space :: (natText e.bootTimeMs.toNat ++ [newline])) = some [newline] := by
      rw [← intText_ofNat]
      exact numberEnd_intText _ hblanks (EndsDigits.cons (by decide) [])
    have hlast : EndsDigits [newline] := EndsDigits.cons (by decide) []
    rw [if_neg h0]
    unfold scanBoot
    rw [hcstr, hline]
    simp only [hnumber, hdrop, hok, hms, strtoull_cons_space hspace, atoi_cons_space hspace,
      strtoull_natText e.timestamp.toNat_lt (hend _),
      atoi_intText (Int32.le_toInt e.success) (Int32.toInt_lt e.success) (hend _),
      strtoull_natText (e.bootTimeMs.toNat_lt.trans (by decide)) hlast,
      UInt64.ofNat_toNat, UInt32.ofNat_toNat, Int32.ofInt_toInt]

end Line

/-! ## The history -/

/-- The file after a sequence of calls, each with whether it opened the file. -/
def bootLogAdds (calls : List (BootEntry × Bool)) (log : Option Bytes) : Option Bytes :=
  calls.foldl (fun log c => (bootLogAdd c.2 c.1 log).2) log

/-- The boots that were added. -/
def boots (calls : List (BootEntry × Bool)) : List BootEntry :=
  (calls.filter (·.2)).map Prod.fst

section History

variable {es : List BootEntry}

theorem bootLogAdds_file (calls : List (BootEntry × Bool)) (log : Option Bytes) :
    (bootLogAdds calls log).getD [] = log.getD [] ++ (boots calls).flatMap BootEntry.line := by
  induction calls generalizing log with
  | nil => simp [bootLogAdds, boots]
  | cons c calls ih =>
    rw [bootLogAdds, List.foldl_cons]
    refine (ih _).trans ?_
    obtain ⟨e, opens⟩ := c
    cases opens with
    | false => rfl
    | true =>
      have hboots : boots ((e, true) :: calls) = e :: boots calls := rfl
      rw [hboots, List.flatMap_cons, ← List.append_assoc]
      rfl

/-- Every line is read as one. -/
theorem fgetsAll_boots (h : ∀ e ∈ es, isSpace e.slot = false) :
    fgetsAll 256 (es.flatMap BootEntry.line) = es.map BootEntry.line := by
  induction es with
  | nil => rfl
  | cons e es ih =>
    have hnl : newline ∉ e.body := by
      refine e.notMem_body (Or.inr rfl) (fun he => ?_)
      have hslot := h e List.mem_cons_self
      rw [he] at hslot
      exact absurd hslot (by decide)
    have hlen := e.length_body
    rw [List.flatMap_cons, e.line_eq, List.append_assoc, List.singleton_append,
      fgetsAll_line (by decide) _ hnl (by omega), List.map_cons,
      ih (fun e' he' => h e' (List.mem_cons_of_mem e he')), e.line_eq]

/-- The loop stores the first entries that scan. -/
theorem scanBoots_eq (lines : List Bytes) (room : Nat) :
    scanBoots lines room = (lines.filterMap scanBoot).take room := by
  induction lines generalizing room with
  | nil => cases room <;> rfl
  | cons line lines ih =>
    cases room with
    | zero => rfl
    | succ room =>
      rw [scanBoots]
      cases hline : scanBoot line with
      | none => rw [List.filterMap_cons_none hline, ← ih]
      | some e => rw [List.filterMap_cons_some hline, List.take_succ_cons, ih]

/-- The reader returns the first entries that were added, without those whose slot is a NUL. -/
theorem bootLogRead_adds {calls : List (BootEntry × Bool)}
    (h : ∀ c ∈ calls, isSpace c.1.slot = false) (maxEntries : Int) :
    bootLogRead (bootLogAdds calls none) maxEntries =
      ((boots calls).filter (fun e => e.slot ≠ 0)).take maxEntries.toNat := by
  have hboots : ∀ e ∈ boots calls, isSpace e.slot = false := by
    intro e he
    obtain ⟨c, hc, rfl⟩ := List.mem_map.mp he
    exact h c (List.mem_filter.mp hc).1
  have hfile : bootLogRead (bootLogAdds calls none) maxEntries =
      scanBoots (fgetsAll 256 ((bootLogAdds calls none).getD [])) maxEntries.toNat := by
    unfold bootLogRead
    cases bootLogAdds calls none with
    | none => cases maxEntries.toNat <;> rfl
    | some file => rfl
  rw [hfile, bootLogAdds_file, Option.getD_none, List.nil_append, fgetsAll_boots hboots,
    scanBoots_eq, List.filterMap_map]
  refine congrArg (List.take _) ?_
  rw [← List.filterMap_eq_filter]
  refine List.filterMap_congr (fun e he => ?_)
  rw [Function.comp_apply, scanBoot_line (hboots e he)]
  by_cases h0 : e.slot = 0 <;> simp [h0, Option.guard]

end History

end Persist
end BuildingBlocks
