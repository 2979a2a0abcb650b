import BuildingBlocks.Lib.Deliver
import BuildingBlocks.Persist.ConfigFrame

/-!
# BuildingBlocks.Persist.ConfigFaults

What `bb_persist_config_set` leaves when its reads, writes or the rename fail. None of these is
looked at: once the temporary file is open the function returns 0.

* `Faults` — what the calls of one set come to; `configSetWith` is the function under them.
* `Atomic` — the whole new content and 0, or the old file and another result.
* `atomic_iff` — the faults that do no harm.
-/

namespace BuildingBlocks
namespace Persist

open Lib

/-! ## The code -/

/-- What becomes of the reads, of the flushes of the temporary file, and of the rename. -/
structure Faults where
  /-- The calls of `fgets` that return a line before a read fails. -/
  reads : Nat
  /-- The bytes handed to each `write(2)`, and how many of them arrive. -/
  flushes : List (Nat × Nat)
  /-- How many bytes arrive of those that `fclose` hands over. -/
  last : Nat
  renames : Bool
deriving DecidableEq, Repr

/-- `bb_persist_config_set`. -/
def configSetWith (ns : Bytes) (c : SetCall) (x : Faults) (fs : Files) : Int × Files :=
  let path := confPath ns
  let tmp := tmpPath path
  if c.opens then
    let isIn := (fs path).isSome
    let fs := Function.update fs tmp (some [])
    -- a read that fails ends the loop like the end of the file
    let lines := if isIn then (fgetsAll 512 ((fs path).getD [])).take x.reads else []
    let (out, replaced) := rewriteLines c.key c.value lines ([], false)
    let out := if replaced then out else out ++ entryLine c.key c.value
    let fs := Function.update fs tmp (some (deliver x.flushes x.last out))
    (0, if x.renames then rename tmp path fs else fs)
  else (-1, fs)

/-! ## The law -/

/-- A set that nothing fails. -/
def SetCall.complete (c : SetCall) : SetCall := { c with opens := true }

/-- 0 with the whole new content in place, or another result with the file as it was. -/
def Atomic (ns : Bytes) (c : SetCall) (x : Faults) (fs : Files) : Prop :=
  ((configSetWith ns c x fs).1 = 0 ∧
      (configSetWith ns c x fs).2 (confPath ns) = (configSet ns c.complete fs).2 (confPath ns)) ∨
    (configSetWith ns c x fs).1 ≠ 0 ∧ (configSetWith ns c x fs).2 (confPath ns) = fs (confPath ns)

/-- The lines that leave something in the copy; one that starts with a NUL leaves nothing. -/
def leaving (lines : List Bytes) : List Bytes := lines.filter (fun p => cstr p ≠ [])

/-- The lines that are not read leave nothing, or are only the one line of the key. -/
def Enough (key : Bytes) (seen unseen : List Bytes) : Prop :=
  leaving unseen = [] ∨
    (∀ p ∈ seen, isLineOf key p = false) ∧ (leaving unseen).length = 1 ∧
      ∀ p ∈ leaving unseen, isLineOf key p = true

instance (key : Bytes) (seen unseen : List Bytes) : Decidable (Enough key seen unseen) :=
  inferInstanceAs (Decidable (leaving unseen = [] ∨
    (∀ p ∈ seen, isLineOf key p = false) ∧ (leaving unseen).length = 1 ∧
      ∀ p ∈ leaving unseen, isLineOf key p = true))

/-- The key has its value already, on every line of its own. -/
def Settled (key value file : Bytes) : Prop :=
  0 ∉ file ∧ (∃ p ∈ fgetsAll 512 file, isLineOf key p = true) ∧
    ∀ p ∈ fgetsAll 512 file, isLineOf key p = true → p = entryLine key value

instance (key value file : Bytes) : Decidable (Settled key value file) :=
  inferInstanceAs (Decidable (0 ∉ file ∧ (∃ p ∈ fgetsAll 512 file, isLineOf key p = true) ∧
    ∀ p ∈ fgetsAll 512 file, isLineOf key p = true → p = entryLine key value))

/-- The faults that do no harm: with a rename all that is read and written counts, without one the
set has to change nothing. -/
def Harmless (ns : Bytes) (c : SetCall) (x : Faults) (fs : Files) : Prop :=
  let file := confFile fs ns
  let lines := fgetsAll 512 file
  if tmpPath (confPath ns) = confPath ns then
    Arrives x.flushes x.last (entryLine c.key c.value).length
  else if x.renames then
    Arrives x.flushes x.last (written c.key c.value file).length ∧
      Enough c.key (lines.take x.reads) (lines.drop x.reads)
  else Settled c.key c.value file

instance (ns : Bytes) (c : SetCall) (x : Faults) (fs : Files) : Decidable (Harmless ns c x fs) :=
  inferInstanceAs (Decidable
    (if tmpPath (confPath ns) = confPath ns then
      Arrives x.flushes x.last (entryLine c.key c.value).length
    else if x.renames then
      Arrives x.flushes x.last (written c.key c.value (confFile fs ns)).length ∧
        Enough c.key ((fgetsAll 512 (confFile fs ns)).take x.reads)
          ((fgetsAll 512 (confFile fs ns)).drop x.reads)
    else Settled c.key c.value (confFile fs ns)))

/-! ## What is handed over -/

section Handed

variable {key value : Bytes} {lines seen unseen : List Bytes}

/-- What a set writes for some lines. -/
def handed (key value : Bytes) (lines : List Bytes) : Bytes :=
  lines.flatMap (rewritten key value) ++
    if lines.any (isLineOf key) then [] else entryLine key value

theorem written_eq_handed (key value file : Bytes) :
    written key value file = handed key value (fgetsAll 512 file) := rfl

theorem entryLine_ne_nil (key value : Bytes) : entryLine key value ≠ [] :=
  List.append_ne_nil_of_right_ne_nil _ (List.cons_ne_nil _ _)

/-- A line that leaves nothing is not taken for the key. -/
theorem rewritten_eq_nil_iff (key value : Bytes) {p : Bytes} :
    rewritten key value p = [] ↔ cstr p = [] := by
  cases hline : isLineOf key p with
  | true =>
    rw [rewritten_of_line hline]
    refine iff_of_false (entryLine_ne_nil key value) (fun hnil => ?_)
    have hkey := isLineOf_iff.mp hline
    rw [hnil, List.prefix_nil] at hkey
    exact List.append_ne_nil_of_right_ne_nil _ (List.cons_ne_nil _ _) hkey
  | false => rw [rewritten, hline, if_neg Bool.false_ne_true]

/-- Lines that leave nothing can be left out. -/
theorem flatMap_leaving (lines : List Bytes) :
    lines.flatMap (rewritten key value) = (leaving lines).flatMap (rewritten key value) := by
  induction lines with
  | nil => rfl
  | cons p lines ih =>
    by_cases hp : cstr p = []
    · rw [List.flatMap_cons, (rewritten_eq_nil_iff key value).mpr hp, List.nil_append, ih,
        leaving, leaving,
        List.filter_cons_of_neg (by simpa using hp)]
    · rw [List.flatMap_cons, ih, leaving, leaving, List.filter_cons_of_pos (by simpa using hp),
        List.flatMap_cons]

theorem flatMap_rewritten_eq_nil_iff :
    lines.flatMap (rewritten key value) = [] ↔ leaving lines = [] := by
  rw [List.flatMap_eq_nil_iff, leaving, List.filter_eq_nil_iff]
  refine forall₂_congr (fun p _ => ?_)
  rw [rewritten_eq_nil_iff, decide_eq_true_eq, not_not]

theorem any_leaving (lines : List Bytes) :
    (leaving lines).any (isLineOf key) = lines.any (isLineOf key) := by
  rw [leaving, List.any_filter]
  refine congrArg lines.any (funext fun p => ?_)
  cases hline : isLineOf key p with
  | true =>
    have hne : cstr p ≠ [] := by
      rw [Ne, ← rewritten_eq_nil_iff key [], rewritten_of_line hline]
      exact entryLine_ne_nil key []
    rw [decide_eq_true hne, Bool.true_and]
  | false => exact Bool.and_false _

/-- An entry stands for some lines that are not read exactly when it is all they leave. -/
theorem entry_eq_iff (value : Bytes) (hany : unseen.any (isLineOf key) = true) :
    entryLine key value = unseen.flatMap (rewritten key value) ↔
      (leaving unseen).length = 1 ∧ ∀ p ∈ leaving unseen, isLineOf key p = true := by
  rw [flatMap_leaving]
  rw [← any_leaving] at hany
  obtain ⟨q, hq, hline⟩ := List.any_eq_true.mp hany
  obtain ⟨as, bs, hsplit⟩ := List.append_of_mem hq
  have hnil : ∀ ps : List Bytes, (∀ p ∈ ps, p ∈ leaving unseen) →
      ps.flatMap (rewritten key value) = [] → ps = [] := by
    intro ps hps hflat
    refine List.eq_nil_iff_forall_not_mem.mpr (fun p hp => ?_)
    have hleaves := (List.mem_filter.mp (hps p hp)).2
    rw [decide_eq_true_eq, Ne, ← rewritten_eq_nil_iff key value] at hleaves
    exact hleaves (List.flatMap_eq_nil_iff.mp hflat p hp)
  have has := hnil as (fun p hp => hsplit ▸ List.mem_append_left _ hp)
  have hbs := hnil bs (fun p hp =>
    hsplit ▸ List.mem_append_right _ (List.mem_cons_of_mem q hp))
  rw [hsplit, List.flatMap_append, List.flatMap_cons, rewritten_of_line hline]
  constructor
  · intro heq
    have hlen := congrArg List.length heq
    rw [List.length_append, List.length_append] at hlen
    rw [has (List.length_eq_zero_iff.mp (by omega)), hbs (List.length_eq_zero_iff.mp (by omega))]
    refine ⟨rfl, fun p hp => ?_⟩
    rw [List.mem_singleton.mp hp]
    exact hline
  · rintro ⟨hone, -⟩
    rw [List.length_append, List.length_cons] at hone
    rw [List.length_eq_zero_iff.mp (show as.length = 0 by omega),
      List.length_eq_zero_iff.mp (show bs.length = 0 by omega)]
    exact (List.append_nil _).symm

/-- What is handed over after a failed read is never longer than the whole, and is the whole exactly
when enough was read. -/
theorem handed_append (key value : Bytes) (seen unseen : List Bytes) :
    (handed key value seen).length ≤ (handed key value (seen ++ unseen)).length ∧
      (handed key value seen = handed key value (seen ++ unseen) ↔ Enough key seen unseen) := by
  have hnil : unseen.flatMap (rewritten key value) = [] ↔ leaving unseen = [] :=
    flatMap_rewritten_eq_nil_iff
  rw [handed, handed, List.flatMap_append, List.any_append, List.append_assoc,
    List.append_cancel_left_eq, Enough, ← hnil]
  cases hseen : seen.any (isLineOf key) with
  | true =>
    have hno : ¬ ∀ p ∈ seen, isLineOf key p = false := by
      rw [← any_isLineOf_iff, hseen]
      exact Bool.true_eq_false_eq_False.elim
    rw [Bool.true_or, if_pos rfl, List.append_nil, List.append_nil, List.length_append]
    refine ⟨Nat.le_add_right _ _, ?_⟩
    rw [or_iff_left (fun h => hno h.1)]
    exact eq_comm
  | false =>
    rw [Bool.false_or, if_neg Bool.false_ne_true, and_iff_right (any_isLineOf_iff.mp hseen)]
    cases hunseen : unseen.any (isLineOf key) with
    | true =>
      have hentry := entry_eq_iff value hunseen
      rw [if_pos rfl, List.append_nil, List.length_append, List.length_append]
      refine ⟨?_, ?_⟩
      · obtain ⟨q, hq, hline⟩ := List.any_eq_true.mp hunseen
        obtain ⟨as, bs, rfl⟩ := List.append_of_mem hq
        rw [List.flatMap_append, List.flatMap_cons, rewritten_of_line hline, List.length_append,
          List.length_append]
        omega
      · rw [hentry, or_iff_right]
        intro hflat
        rw [← any_leaving, hnil.mp hflat] at hunseen
        exact Bool.false_ne_true hunseen
    | false =>
      rw [if_neg Bool.false_ne_true, List.length_append, List.length_append, List.length_append]
      refine ⟨by omega, ?_⟩
      rw [or_iff_left]
      · rw [eq_comm, List.append_left_eq_self]
      · rintro ⟨hone, hall⟩
        obtain ⟨q, hq⟩ := List.length_eq_one_iff.mp hone
        have hline := hall q (hq ▸ List.mem_singleton_self q)
        rw [← any_leaving, hq, List.any_cons, hline] at hunseen
        exact Bool.false_ne_true hunseen.symm

end Handed

/-! ## A set that changes nothing -/

section Settled

variable {key value file p : Bytes} {ps : List Bytes}

/-- Texts made piece by piece, the first nowhere with more of a byte: equal texts have as many of
it at every piece. -/
theorem count_eq_of_flatMap {f : Bytes → Bytes} (b : UInt8)
    (hle : ∀ p ∈ ps, p.count b ≤ (f p).count b) :
    ps.flatten.count b ≤ (ps.flatMap f).count b ∧
      (ps.flatten.count b = (ps.flatMap f).count b → ∀ p ∈ ps, p.count b = (f p).count b) := by
  induction ps with
  | nil => exact ⟨le_rfl, fun _ p hp => absurd hp List.not_mem_nil⟩
  | cons p ps ih =>
    obtain ⟨hsum, hall⟩ := ih (fun q hq => hle q (List.mem_cons_of_mem p hq))
    have hp := hle p List.mem_cons_self
    rw [List.flatten_cons, List.flatMap_cons, List.count_append, List.count_append,
      List.forall_mem_cons]
    refine ⟨by omega, fun heq => ⟨by omega, hall (by omega)⟩⟩

/-- A row has a newline only at its end. -/
theorem count_row (h : IsRow p) : p.count newline = if newline ∈ p then 1 else 0 := by
  rcases h.cases with ⟨hnl, -⟩ | ⟨hnl, hrow⟩
  · rw [if_neg hnl, List.count_eq_zero_of_not_mem hnl]
  · have hmem : newline ∈ p := by
      rw [hrow]
      exact List.mem_append_right _ List.mem_cons_self
    rw [if_pos hmem, hrow, List.count_append, List.count_eq_zero_of_not_mem hnl]
    rfl

theorem zero_notMem_handed (hkey : 0 ∉ key) (hvalue : 0 ∉ value) (ps : List Bytes) :
    0 ∉ handed key value ps := by
  have hentry : 0 ∉ entryLine key value := by
    rw [entryLine, List.append_assoc, List.cons_append, List.mem_append, List.mem_cons,
      List.mem_append, not_or, not_or, not_or]
    exact ⟨hkey, by decide, hvalue, by decide⟩
  rw [handed, List.mem_append, not_or]
  refine ⟨?_, ?_⟩
  · rw [List.mem_flatMap]
    rintro ⟨p, -, hmem⟩
    rw [rewritten] at hmem
    split at hmem
    · exact hentry hmem
    · have hne := List.mem_takeWhile_imp hmem
      simp at hne
  · split
    · exact List.not_mem_nil
    · exact hentry

/-- An entry that takes the place of a line with as many newlines is that line. -/
theorem eq_entryLine_of_flatMap (hrows : ∀ p ∈ ps, IsRow p) (hzero : ∀ p ∈ ps, 0 ∉ p)
    (hcount : ∀ p ∈ ps, p.count newline = (rewritten key value p).count newline)
    (heq : ps.flatMap (rewritten key value) = ps.flatten) :
    ∀ p ∈ ps, isLineOf key p = true → p = entryLine key value := by
  induction ps with
  | nil => exact fun p hp => absurd hp List.not_mem_nil
  | cons p ps ih =>
    rw [List.forall_mem_cons] at hrows hzero hcount ⊢
    rw [List.flatMap_cons, List.flatten_cons] at heq
    cases hline : isLineOf key p with
    | false =>
      rw [rewritten_of_not hzero.1 hline] at heq
      exact ⟨fun h => absurd h Bool.false_ne_true,
        ih hrows.2 hzero.2 hcount.2 (List.append_cancel_left heq)⟩
    | true =>
      have hp := hcount.1
      have hentry : entryLine key value = entryText (key, value) ++ [newline] :=
        entryLine_eq (key, value)
      rw [rewritten_of_line hline] at heq hp
      have hrow := count_row hrows.1
      rw [hp, hentry, List.count_append] at hrow
      have hone : List.count newline [newline] = 1 := rfl
      have hmem : newline ∈ p := by
        by_contra hno
        rw [if_neg hno] at hrow
        omega
      rw [if_pos hmem] at hrow
      have hnl : newline ∉ entryText (key, value) := List.count_eq_zero.mp (by omega)
      rcases hrows.1.cases with ⟨hno, -⟩ | ⟨hno, hsplit⟩
      · exact absurd hmem hno
      · rw [hentry, hsplit, List.append_assoc, List.append_assoc, List.singleton_append,
          List.singleton_append] at heq
        obtain ⟨htext, hrest⟩ := frame_inj hnl hno heq
        refine ⟨fun _ => ?_, ih hrows.2 hzero.2 hcount.2 hrest⟩
        rw [hsplit, hentry, htext]

/-- A set changes nothing exactly when the key has its value already. -/
theorem written_eq_iff (hkey : 0 ∉ key) (hvalue : 0 ∉ value) :
    written key value file = file ↔ Settled key value file := by
  have hflat := (flatten_fgetsAll (n := 511) (by decide) file).1
  have hrows : ∀ p ∈ fgetsAll 512 file, IsRow p :=
    fun p hp => isRow_of_mem_fgetsAll (n := 511) (by decide) hp
  constructor
  · intro heq
    have h0 : 0 ∉ file := by
      rw [← heq, written_eq_handed]
      exact zero_notMem_handed hkey hvalue _
    have hzero : ∀ p ∈ fgetsAll 512 file, 0 ∉ p := fun p hp => notMem_piece hp h0
    cases hany : (fgetsAll 512 file).any (isLineOf key) with
    | false =>
      rw [written, hany, if_neg Bool.false_ne_true, copied_of_not h0 (any_isLineOf_iff.mp hany),
        List.append_right_eq_self] at heq
      exact absurd heq (entryLine_ne_nil key value)
    | true =>
      refine ⟨h0, List.any_eq_true.mp hany, ?_⟩
      rw [written, hany, if_pos rfl, List.append_nil, copied] at heq
      have hle : ∀ p ∈ fgetsAll 512 file,
          p.count newline ≤ (rewritten key value p).count newline := by
        intro p hp
        cases hline : isLineOf key p with
        | false => rw [rewritten_of_not (hzero p hp) hline]
        | true =>
          have hentry : 0 < (entryLine key value).count newline :=
            List.count_pos_iff.mpr (List.mem_append_right _ (List.mem_singleton_self newline))
          rw [rewritten_of_line hline, count_row (hrows p hp)]
          split <;> omega
      have hcount := (count_eq_of_flatMap newline hle).2 (by rw [heq, hflat])
      exact eq_entryLine_of_flatMap hrows hzero hcount (heq.trans hflat.symm)
  · rintro ⟨h0, ⟨q, hq, hline⟩, hall⟩
    rw [written, List.any_eq_true.mpr ⟨q, hq, hline⟩, if_pos rfl, List.append_nil, copied]
    nth_rewrite 2 [← hflat]
    rw [← List.flatMap_id']
    refine List.flatMap_congr (fun p hp => ?_)
    cases hp' : isLineOf key p with
    | true => rw [rewritten_of_line hp', hall p hp hp']
    | false => exact rewritten_of_not (notMem_piece hp h0) hp'

end Settled

/-! ## The call -/

section Call

variable {ns : Bytes} {c : SetCall} {x : Faults} {fs : Files}

/-- The file a set leaves under faults. -/
theorem configSetWith_path (hopens : c.opens = true) :
    (configSetWith ns c x fs).2 (confPath ns) =
      if tmpPath (confPath ns) = confPath ns then
        some (deliver x.flushes x.last (entryLine c.key c.value))
      else if x.renames then
        some (deliver x.flushes x.last
          (handed c.key c.value ((fgetsAll 512 (confFile fs ns)).take x.reads)))
      else fs (confPath ns) := by
  have hread : (if (fs (confPath ns)).isSome then (fgetsAll 512 ((Function.update fs
      (tmpPath (confPath ns)) (some []) (confPath ns)).getD [])).take x.reads else []) =
      (fgetsAll 512
        (if tmpPath (confPath ns) = confPath ns then [] else confFile fs ns)).take x.reads := by
    rw [← linesRead_eq]
    split
    · rfl
    · rw [List.take_nil]
  have hout := rewriteLines_out c.key c.value ((fgetsAll 512
    (if tmpPath (confPath ns) = confPath ns then [] else confFile fs ns)).take x.reads)
  unfold configSetWith
  simp only [hopens, if_true]
  rw [hread]
  simp only at hout
  rw [hout]
  by_cases hpath : tmpPath (confPath ns) = confPath ns
  · rw [if_pos hpath, if_pos hpath, fgetsAll_nil, List.take_nil]
    cases x.renames with
    | true => exact rename_update
    | false => rw [if_neg Bool.false_ne_true, hpath, Function.update_self]; rfl
  · rw [if_neg hpath, if_neg hpath]
    cases x.renames with
    | true => exact rename_update
    | false =>
      rw [if_neg Bool.false_ne_true, if_neg Bool.false_ne_true,
        Function.update_of_ne (Ne.symm hpath), Function.update_of_ne (Ne.symm hpath)]

/-- **A set is atomic under faults** exactly when it does not begin or the faults do no harm. -/
theorem atomic_iff (hkey : 0 ∉ c.key) (hvalue : 0 ∉ c.value) :
    Atomic ns c x fs ↔ c.opens = false ∨ Harmless ns c x fs := by
  cases hopens : c.opens with
  | false =>
    refine iff_of_true (Or.inr ?_) (Or.inl rfl)
    simp [configSetWith, hopens]
  | true =>
    have hret : (configSetWith ns c x fs).1 = 0 := by simp [configSetWith, hopens]
    have hcomplete : c.complete.opens = true := rfl
    rw [Atomic, hret, or_iff_left (fun h => h.1 rfl), and_iff_right rfl,
      or_iff_right Bool.true_eq_false_eq_False.elim, configSetWith_path hopens,
      configSet_path hcomplete, Harmless]
    by_cases hpath : tmpPath (confPath ns) = confPath ns
    · rw [if_pos hpath, if_pos hpath, if_pos hpath, Option.some.injEq]
      exact deliver_eq_iff x.flushes x.last (entryLine c.key c.value)
    · rw [if_neg hpath, if_neg hpath, if_neg hpath]
      cases hrenames : x.renames with
      | true =>
        rw [if_pos rfl, if_pos rfl, Option.some.injEq]
        obtain ⟨hle, henough⟩ := handed_append c.key c.value
          ((fgetsAll 512 (confFile fs ns)).take x.reads)
          ((fgetsAll 512 (confFile fs ns)).drop x.reads)
        rw [List.take_append_drop, ← written_eq_handed] at hle henough
        rw [← henough]
        constructor
        · intro heq
          have hsub := deliver_sublist x.flushes x.last
            (handed c.key c.value ((fgetsAll 512 (confFile fs ns)).take x.reads))
          have hwhole := hsub.eq_of_length_le (by rw [heq]; exact hle)
          have hsame := hwhole.symm.trans heq
          rw [hsame] at hwhole
          exact ⟨(deliver_eq_iff _ _ _).mp hwhole, hsame⟩
        · rintro ⟨harrives, hsame⟩
          rw [hsame]
          exact (deliver_eq_iff _ _ _).mpr harrives
      | false =>
        rw [if_neg Bool.false_ne_true, if_neg Bool.false_ne_true, ← written_eq_iff hkey hvalue,
          confFile]
        cases fs (confPath ns) with
        | none =>
          refine iff_of_false (Option.some_ne_none _).symm ?_
          exact List.append_ne_nil_of_right_ne_nil _ (entryLine_ne_nil c.key c.value)
        | some file =>
          rw [Option.some.injEq]
          exact eq_comm

/-- The namespace of an audio file with one line. -/
def oneLine : Files := fun path =>
  if path = confPath (ascii "audio") then some (ascii "vol=5\n") else none

/-- A flush that takes everything. -/
theorem oneLine_atomic :
    Atomic (ascii "audio") ⟨ascii "vol", ascii "6", true⟩ ⟨2, [(4, 4)], 2, true⟩ oneLine := by
  refine (atomic_iff (by decide) (by decide)).mpr (Or.inr ?_)
  decide

/-- A full partition: nothing arrives, and an empty file takes the place of the old one. -/
theorem fullPartition_empties :
    ¬ Atomic (ascii "audio") ⟨ascii "vol", ascii "6", true⟩ ⟨2, [], 0, true⟩ oneLine := by
  intro h
  rcases h with ⟨-, hcontent⟩ | ⟨hret, -⟩
  · revert hcontent
    decide
  · exact hret rfl

end Call

end Persist
end BuildingBlocks
