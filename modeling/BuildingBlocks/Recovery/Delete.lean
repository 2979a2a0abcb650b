import BuildingBlocks.Recovery.World

/-!
# BuildingBlocks.Recovery.Delete

What `bb_snapshot_delete` removes. The label goes through two buffers into a command of the shell,
which parts it into words and follows each of them as a path.

* `deleteSnapshot` is the function, `Confined` the law over every shell and every state.
* `Harmless` — a word that `rm` refuses, or that leads to the snapshot or below one.
* `confined_iff` — a label whose command is plain is confined when its words are harmless, and only
  then unless a later word goes up.
-/

namespace BuildingBlocks
namespace Recovery

open Lib

/-! ## The code -/

def recoveryMount : Bytes := ascii "/recovery"
def snapshotDir : Bytes := ascii "/recovery/snapshots"

/-- `snprintf(snapdir, sizeof(snapdir), "%s/%s", SNAPSHOT_DIR, label)`. -/
def snapPath (label : Bytes) : Bytes := (snapshotDir ++ slash :: label).take 255

/-- `snprintf(cmd, sizeof(cmd), "rm -rf %s", snapdir)`. -/
def deleteCommand (label : Bytes) : Bytes := (ascii "rm -rf " ++ snapPath label).take 255

/-- `bb_snapshot_delete`. -/
def deleteSnapshot (sh : Shell) (label : Bytes) (w : World) : Int × World :=
  let w := w.mkdir recoveryMount
  let w := w.mountAnyway
  sh.run (deleteCommand label) w

/-! ## The law -/

/-- A path below the snapshot directory, and that of a snapshot only when it has the label. -/
def Own (label : Bytes) : Path → Prop
  | r :: s :: n :: rest => r = recoveryName ∧ s = snapshotsName ∧ (rest = [] → n = label)
  | _ => False

instance (label : Bytes) : DecidablePred (Own label)
  | r :: s :: n :: rest =>
    inferInstanceAs (Decidable (r = recoveryName ∧ s = snapshotsName ∧ (rest = [] → n = label)))
  | [] | [_] | [_, _] => .isFalse id

/-- Nothing outside the snapshot directory is removed, and no snapshot of another name. -/
def Confined (label : Bytes) : Prop :=
  ∀ sh w, Keeps (Own label) w (deleteSnapshot sh label w).2

/-- A word that `rm` refuses, or an absolute path to the root, to the snapshot of the label, or to
something below a snapshot. -/
def Harmless (label s : Bytes) : Prop :=
  refused s = true ∨
    isAbsolute s = true ∧ (goTo [] (comps s) = [] ∨ Own label (goTo [] (comps s)))

instance (label : Bytes) : DecidablePred (Harmless label) := fun s =>
  inferInstanceAs (Decidable (refused s = true ∨
    isAbsolute s = true ∧ (goTo [] (comps s) = [] ∨ Own label (goTo [] (comps s)))))

/-- The command is plain, and its operands are harmless. -/
structure Safe (label : Bytes) : Prop where
  plain : PlainRm (deleteCommand label)
  harmless : ∀ s ∈ operands (deleteCommand label), Harmless label s

/-! ## A safe label is confined -/

section Sound

variable {label s : Bytes} {p q : Path} {w : World}

theorem Own.append (h : Own label p) (r : Path) : Own label (p ++ r) := by
  match p, h with
  | _ :: _ :: _ :: rest, ⟨hr, hs, hn⟩ =>
    exact ⟨hr, hs, fun hnil => hn (List.append_eq_nil_iff.mp hnil).1⟩

theorem Own.of_prefix (h : Own label p) (hpre : p <+: q) : Own label q := by
  obtain ⟨r, rfl⟩ := hpre
  exact h.append r

theorem removeAt_eq_none {t : Tree} (h : t.node q ≠ none) (hne : p ≠ [])
    (hnone : (removeAt t p).node q = none) : p <+: q := by
  rw [removeAt, if_neg hne, FileTree.remove_eq] at hnone
  by_contra hpre
  rw [if_neg hpre] at hnone
  exact h hnone

/-- A harmless operand removes nothing else. -/
theorem Harmless.keeps (h : Harmless label s) (w : World) :
    Keeps (Own label) w (rmOperand w s) := by
  unfold rmOperand
  split
  · exact Keeps.refl w
  · next hrefused =>
    obtain ⟨habs, hpath⟩ := h.resolve_left hrefused
    split
    · exact Keeps.refl w
    · next p hp =>
      split
      · exact Keeps.refl w
      · next hgo =>
        rw [not_or] at hgo
        rw [World.resolve, World.start, if_pos habs, walk_eq_some_iff] at hp
        rw [← hp.1] at hpath
        have hown := hpath.resolve_left hgo.1
        refine keeps_edit (fun _ q hq hq' => ?_) (fun r hr q hq hq' => ?_)
        · exact hown.of_prefix (removeAt_eq_none hq hgo.1 hq')
        · have hr' : r ≠ [] := by
            rintro rfl
            rw [hr] at hown
            exact hown
          rw [hr] at hown
          exact hown.of_prefix (List.cons_prefix_cons.mpr ⟨rfl, removeAt_eq_none hq hr' hq'⟩)

theorem keeps_rm {ss : List Bytes} (h : ∀ s ∈ ss, Harmless label s) (w : World) :
    Keeps (Own label) w (rm ss w) := by
  induction ss generalizing w with
  | nil => exact Keeps.refl w
  | cons s ss ih =>
    rw [List.forall_mem_cons] at h
    exact (h.1.keeps w).trans (ih h.2 (rmOperand w s))

theorem Safe.confined (h : Safe label) : Confined label := by
  intro sh w
  rw [deleteSnapshot, sh.rm _ _ h.plain]
  exact (keeps_mkdir.trans keeps_mountAnyway).trans (keeps_rm h.harmless _)

end Sound

/-! ## The command -/

section Command

variable {label : Bytes}

/-- The command the shell gets: of a long label only the first 228 bytes. -/
theorem deleteCommand_eq (label : Bytes) :
    deleteCommand label = ascii "rm -rf /recovery/snapshots/" ++ label.take 228 := by
  have hdir : snapshotDir ++ slash :: label = ascii "/recovery/snapshots/" ++ label := by
    rw [List.append_cons]
    rfl
  have hroot : (ascii "/recovery/snapshots/").length = 20 := by decide
  have htake : ∀ n, 20 ≤ n → (ascii "/recovery/snapshots/").take n = ascii "/recovery/snapshots/" :=
    fun n hn => List.take_of_length_le (hroot.trans_le hn)
  have hcmd : (ascii "rm -rf ").take 255 = ascii "rm -rf " ∧ (ascii "rm -rf ").length = 7 := by
    decide
  rw [deleteCommand, snapPath, hdir, List.take_append, List.take_append,
    htake 255 (by decide), hcmd.1, hcmd.2, List.take_append, htake (255 - 7) (by decide), hroot,
    List.take_take, ← List.append_assoc]
  rfl

/-- The operands of the command, the first one an absolute path. -/
theorem operands_delete (label : Bytes) :
    ∃ s ss, operands (deleteCommand label) = s :: ss ∧ isAbsolute s = true := by
  obtain ⟨rest, hrest⟩ : ∃ rest,
      (deleteCommand label).map (fun b => if b = 0x09 then blank else b) =
        ascii "rm" ++ blank :: (ascii "-rf" ++ blank :: slash :: rest) := by
    rw [deleteCommand_eq, List.map_append]
    exact ⟨ascii "recovery/snapshots/" ++ _, rfl⟩
  obtain ⟨f, fs, hpieces⟩ := pieces_cons (show slash ≠ blank by decide) rest
  refine ⟨slash :: f, fs.filter (· ≠ []), ?_, rfl⟩
  rw [operands, words, hrest, pieces_frame (by decide), pieces_frame (by decide), hpieces]
  rfl

end Command

/-! ## Names -/

/-- A label of one word and one component. -/
structure IsName (label : Bytes) : Prop where
  ne_nil : label ≠ []
  byte : ∀ b ∈ label, b ∉ special ∧ b ≠ blank ∧ b ≠ 0x09 ∧ b ≠ slash ∧ b ≠ 0
  notDots : label ≠ ascii "." ∧ label ≠ ascii ".."

instance (label : Bytes) : Decidable (IsName label) :=
  decidable_of_iff (label ≠ [] ∧
      (∀ b ∈ label, b ∉ special ∧ b ≠ blank ∧ b ≠ 0x09 ∧ b ≠ slash ∧ b ≠ 0) ∧
      label ≠ ascii "." ∧ label ≠ ascii "..")
    ⟨fun h => ⟨h.1, h.2.1, h.2.2⟩, fun h => ⟨h.ne_nil, h.byte, h.notDots⟩⟩

section Name

variable {label x : Bytes}

theorem compOf_name (hne : label ≠ []) (hdots : label ≠ ascii "." ∧ label ≠ ascii "..") :
    compOf label = .name label := by
  rw [compOf, if_neg (not_or.mpr ⟨hne, hdots.1⟩), if_neg hdots.2]

theorem IsName.comp (h : IsName label) : compOf label = .name label :=
  compOf_name h.ne_nil h.notDots

theorem IsName.slash_notMem (h : IsName label) : slash ∉ label :=
  fun hmem => (h.byte _ hmem).2.2.2.1 rfl

theorem pieces_snapshotDir (x : Bytes) :
    pieces slash (snapshotDir ++ slash :: x) =
      [] :: recoveryName :: snapshotsName :: pieces slash x := by
  have hdir : snapshotDir ++ slash :: x =
      [] ++ slash :: (recoveryName ++ slash :: (snapshotsName ++ slash :: x)) := rfl
  rw [hdir, pieces_frame List.not_mem_nil, pieces_frame (by decide), pieces_frame (by decide)]

theorem comps_snapshotDir (x : Bytes) : comps (snapshotDir ++ slash :: x) =
    .here :: .name recoveryName :: .name snapshotsName :: comps x := by
  rw [comps, pieces_snapshotDir]
  rfl

theorem IsName.comps (h : IsName label) : comps label = [.name label] := by
  rw [Recovery.comps, pieces_of_notMem h.slash_notMem, List.map_singleton, h.comp]

theorem snapPath_eq (h : label.length ≤ 235) : snapPath label = snapshotDir ++ slash :: label := by
  refine List.take_of_length_le ?_
  have hlen : snapshotDir.length = 19 := by decide
  rw [List.length_append, List.length_cons, hlen]
  omega

/-- The path of a snapshot is one word. -/
theorem IsName.path_byte (h : IsName label) :
    ∀ b ∈ snapshotDir ++ slash :: label, b ≠ blank ∧ b ≠ 0x09 := by
  have hfixed : ∀ b ∈ snapshotDir, b ≠ blank ∧ b ≠ 0x09 := by decide
  intro b hb
  rcases List.mem_append.mp hb with hb | hb
  · exact hfixed b hb
  · rcases List.mem_cons.mp hb with rfl | hb
    · decide
    · exact ⟨(h.byte b hb).2.1, (h.byte b hb).2.2.1⟩

/-- The command for a name. -/
theorem IsName.deleteCommand (h : IsName label) (hlen : label.length ≤ 228) :
    PlainRm (deleteCommand label) ∧
      operands (deleteCommand label) = [snapshotDir ++ slash :: label] := by
  have hcmd : Recovery.deleteCommand label = ascii "rm -rf /recovery/snapshots/" ++ label := by
    rw [deleteCommand_eq, List.take_of_length_le hlen]
  have hwords : words (Recovery.deleteCommand label) =
      [ascii "rm", ascii "-rf", snapshotDir ++ slash :: label] := by
    have hsplit : Recovery.deleteCommand label =
        ascii "rm" ++ blank :: (ascii "-rf" ++ blank :: (snapshotDir ++ slash :: label)) := hcmd
    rw [hsplit, words_append (by decide) (by decide),
      words_append (by decide) (by decide),
      words_word (List.append_ne_nil_of_right_ne_nil _ (List.cons_ne_nil _ _)) h.path_byte]
  have hoperands : operands (Recovery.deleteCommand label) = [snapshotDir ++ slash :: label] := by
    rw [operands, hwords]
    rfl
  have hfixed : ∀ b ∈ ascii "rm -rf /recovery/snapshots/", b ∉ special := by decide
  refine ⟨⟨fun b hb => ?_, by rw [hwords]; rfl, ?_⟩, hoperands⟩
  · rw [hcmd] at hb
    rcases List.mem_append.mp hb with hb | hb
    · exact hfixed b hb
    · exact (h.byte b hb).1
  · rw [hoperands, List.forall_mem_singleton]
    intro b hb
    obtain rfl : slash = b := Option.some.inj hb
    decide

theorem IsName.refused (h : IsName label) : refused (snapshotDir ++ slash :: label) = false := by
  have hlabel : [label].filter (· ≠ []) = [label] :=
    List.filter_cons_of_pos (by simpa using h.ne_nil)
  have hlast : (([[], recoveryName, snapshotsName] ++ [label]).filter (· ≠ [])).getLast? =
      some label := by
    rw [List.filter_append, hlabel, List.getLast?_concat]
  rw [List.cons_append, List.cons_append, List.singleton_append] at hlast
  rw [Recovery.refused, pieces_snapshotDir, pieces_of_notMem h.slash_notMem, hlast]
  simp only [Bool.or_eq_false_iff, beq_eq_false_iff_ne]
  exact h.notDots

/-- A name that is not cut is safe. -/
theorem IsName.safe (h : IsName label) (hlen : label.length ≤ 228) : Safe label := by
  obtain ⟨hplain, hoperands⟩ := h.deleteCommand hlen
  refine ⟨hplain, ?_⟩
  rw [hoperands, List.forall_mem_singleton]
  refine Or.inr ⟨rfl, Or.inr ?_⟩
  rw [comps_snapshotDir, h.comps]
  exact ⟨rfl, rfl, fun _ => rfl⟩

end Name

/-! ## A confined label is safe -/

section Complete

variable {label s : Bytes} {w w' : World} {q : Path}

/-- A change that only removes. -/
structure Shrinks (w w' : World) : Prop where
  mounted : w'.mounted = w.mounted
  cwd : w'.cwd = w.cwd
  root : ∀ q, w'.root.node q = w.root.node q ∨ w'.root.node q = none

theorem place_of_not_mounted (h : w.mounted = false) (q : Path) : w.place q = none := by
  cases q with
  | nil => rfl
  | cons n r =>
    rw [World.place, if_neg]
    intro hm
    rw [h] at hm
    exact Bool.false_ne_true hm.1

theorem look_of_not_mounted (h : w.mounted = false) (q : Path) : w.look q = w.root.node q := by
  rw [World.look, place_of_not_mounted h]

theorem shrinks_rmOperand (w : World) (s : Bytes) : Shrinks w (rmOperand w s) := by
  have hrefl : Shrinks w w := ⟨rfl, rfl, fun _ => Or.inl rfl⟩
  unfold rmOperand
  split
  · exact hrefl
  · split
    · exact hrefl
    · next p _ =>
      split
      · exact hrefl
      · next hgo =>
        rw [not_or] at hgo
        unfold World.edit
        split
        · exact ⟨rfl, rfl, fun _ => Or.inl rfl⟩
        · refine ⟨rfl, rfl, fun q => ?_⟩
          rw [removeAt, if_neg hgo.1, FileTree.remove_eq]
          split
          · exact Or.inr rfl
          · exact Or.inl rfl

theorem shrinks_rm (ss : List Bytes) (w : World) : Shrinks w (rm ss w) := by
  induction ss generalizing w with
  | nil => exact ⟨rfl, rfl, fun _ => Or.inl rfl⟩
  | cons s ss ih =>
    have hs := shrinks_rmOperand w s
    have hss := ih (rmOperand w s)
    refine ⟨hss.mounted.trans hs.mounted, hss.cwd.trans hs.cwd, fun q => ?_⟩
    rcases hss.root q with hq | hq
    · rw [rm, List.foldl_cons] at *
      rw [hq]
      exact hs.root q
    · exact Or.inr hq

/-- An operand whose path is there is removed. -/
theorem rmOperand_removes (hm : w.mounted = false) (hrefused : refused s = false)
    (hne : goTo (w.start s) (comps s) ≠ [])
    (hvis : ∀ v ∈ goTo (w.start s) (comps s) :: through (w.start s) (comps s),
      w.root.node v = some .dir) :
    (rmOperand w s).root.node (goTo (w.start s) (comps s)) = none := by
  rw [List.forall_mem_cons] at hvis
  have hresolve : w.resolve s = some (goTo (w.start s) (comps s)) := by
    rw [World.resolve, walk_eq_some_iff]
    refine ⟨rfl, fun v hv => ?_⟩
    rw [look_of_not_mounted hm, hvis.2 v hv]
    rfl
  have hthere : w.look (goTo (w.start s) (comps s)) ≠ none := by
    rw [look_of_not_mounted hm, hvis.1]
    exact Option.some_ne_none _
  rw [rmOperand, if_neg (by rw [hrefused]; exact Bool.false_ne_true), hresolve]
  simp only
  rw [if_neg (not_or.mpr ⟨hne, hthere⟩), World.edit, place_of_not_mounted hm, removeAt, if_neg hne]
  exact if_pos List.prefix_rfl

/-- Where an operand is followed from, in the directory `/t`. -/
def wayStart (s : Bytes) : Path := if isAbsolute s then [] else [ascii "t"]

/-- The directories on the way of an operand, and nothing else. -/
def wayWorld (s : Bytes) : World where
  root := FileTree.ofPaths (goTo (wayStart s) (comps s) :: through (wayStart s) (comps s))
  disk := FileTree.ofPaths [[]]
  hasDevice := false
  mounted := false
  cwd := [ascii "t"]

theorem mountAnyway_of_not (h : w.hasDevice = false) : w.mountAnyway = w := by
  unfold World.mountAnyway
  split
  · next hok =>
    rw [(mount_ok hok).2.1] at h
    cases h
  · rfl

theorem mkdir_frame (w : World) (s : Bytes) :
    (w.mkdir s).hasDevice = w.hasDevice ∧ (w.mkdir s).mounted = w.mounted ∧
      (w.mkdir s).cwd = w.cwd ∧
      (w.mounted = false →
        ∀ q, w.root.node q ≠ none → (w.mkdir s).root.node q = w.root.node q) := by
  unfold World.mkdir
  split
  · unfold World.edit
    split
    · exact ⟨rfl, rfl, rfl, fun _ _ _ => rfl⟩
    · exact ⟨rfl, rfl, rfl, fun _ q hq => FileTree.mkdir_of_ne_none hq⟩
  · exact ⟨rfl, rfl, rfl, fun _ _ _ => rfl⟩

/-- Below `/t` there is no snapshot. -/
theorem not_own_under (h : [ascii "t"] <+: q) : ¬ Own label q := by
  obtain ⟨r, rfl⟩ := h
  intro hown
  match r, hown with
  | _ :: _ :: _, hown => exact absurd hown.1 (by decide)

/-- The first operand that is not harmless. -/
theorem exists_harmful {ss : List Bytes} (h : ¬ ∀ s ∈ ss, Harmless label s) :
    ∃ pre s post, ss = pre ++ s :: post ∧ (∀ e ∈ pre, Harmless label e) ∧ ¬ Harmless label s := by
  cases hfind : ss.find? (fun s => ¬ Harmless label s) with
  | none =>
    refine absurd (fun s hs => ?_) h
    simpa using List.find?_eq_none.mp hfind s hs
  | some s =>
    obtain ⟨hs, pre, post, hsplit, hpre⟩ := List.find?_eq_some_iff_append.mp hfind
    exact ⟨pre, s, post, hsplit, fun e he => by simpa using hpre e he, by simpa using hs⟩

/-- **A confined label has harmless words**, where no word but the first goes up. -/
theorem harmless_of_confined (h : Confined label) (hplain : PlainRm (deleteCommand label))
    (hup : ∀ s ∈ (operands (deleteCommand label)).tail, Comp.up ∉ comps s) :
    ∀ s ∈ operands (deleteCommand label), Harmless label s := by
  by_contra hall
  obtain ⟨pre, s, post, hsplit, hpre, hs⟩ := exists_harmful hall
  rw [Harmless, not_or] at hs
  have htail : pre ≠ [] → Comp.up ∉ comps s := by
    intro hne
    refine hup s ?_
    rw [hsplit]
    obtain ⟨e, pre, rfl⟩ := List.exists_cons_of_ne_nil hne
    exact List.mem_append_right pre List.mem_cons_self
  have hend : ¬ Own label (goTo (wayStart s) (comps s)) ∧ goTo (wayStart s) (comps s) ≠ [] := by
    cases habs : isAbsolute s with
    | true =>
      rw [wayStart, habs, if_pos rfl]
      have hgo := hs.2
      rw [habs, and_iff_right rfl, not_or] at hgo
      exact ⟨hgo.2, hgo.1⟩
    | false =>
      have hne : pre ≠ [] := by
        rintro rfl
        obtain ⟨s', ss, hops, habs'⟩ := operands_delete label
        rw [hops] at hsplit
        rw [(List.cons.inj hsplit).1, habs] at habs'
        exact Bool.false_ne_true habs'
      have hpre := (prefix_goTo (p := [ascii "t"]) (htail hne)).1
      rw [wayStart, habs, if_neg Bool.false_ne_true]
      refine ⟨not_own_under hpre, fun hnil => ?_⟩
      rw [hnil, List.prefix_nil] at hpre
      exact List.cons_ne_nil _ _ hpre
  -- the state before the first operand
  obtain ⟨hdevice, hmounted, hcwd, hroot⟩ := mkdir_frame (wayWorld s) recoveryMount
  have hway : ∀ v ∈ goTo (wayStart s) (comps s) :: through (wayStart s) (comps s),
      (wayWorld s).root.node v = some .dir := fun v hv => if_pos ⟨v, hv, List.prefix_rfl⟩
  -- the operands in front leave the way as it is
  have halive : ∀ v ∈ goTo (wayStart s) (comps s) :: through (wayStart s) (comps s),
      (rm pre ((wayWorld s).mkdir recoveryMount)).root.node v = some .dir := by
    intro v hv
    have hbefore : ((wayWorld s).mkdir recoveryMount).root.node v = some .dir := by
      rw [hroot rfl v (by rw [hway v hv]; exact Option.some_ne_none _), hway v hv]
    rcases eq_or_ne pre [] with rfl | hne
    · exact hbefore
    · have hpath : v <+: goTo (wayStart s) (comps s) := by
        rcases List.mem_cons.mp hv with rfl | hv
        · exact List.prefix_rfl
        · exact (prefix_goTo (htail hne)).2 v hv
      rcases (shrinks_rm pre ((wayWorld s).mkdir recoveryMount)).root v with hsame | hgone
      · rw [hsame, hbefore]
      · have hown := (keeps_rm hpre ((wayWorld s).mkdir recoveryMount)).root v
          (by rw [hbefore]; exact Option.some_ne_none _) hgone
        exact absurd (hown.of_prefix hpath) hend.1
  have hshrinks := shrinks_rm pre ((wayWorld s).mkdir recoveryMount)
  have hstart : (rm pre ((wayWorld s).mkdir recoveryMount)).start s = wayStart s := by
    rw [World.start, hshrinks.cwd, hcwd]
    rfl
  have hgone := rmOperand_removes (w := rm pre ((wayWorld s).mkdir recoveryMount)) (s := s)
    (hshrinks.mounted.trans hmounted) (by simpa using hs.1) (by rw [hstart]; exact hend.2)
    (by rw [hstart]; exact halive)
  rw [hstart] at hgone
  have hkeeps := h Shell.onlyRm (wayWorld s)
  rw [deleteSnapshot, Shell.onlyRm.rm _ _ hplain, mountAnyway_of_not hdevice, hsplit, rm,
    List.foldl_append, List.foldl_cons] at hkeeps
  refine hend.1 (hkeeps.root _ ?_ ?_)
  · rw [hway _ List.mem_cons_self]
    exact Option.some_ne_none _
  · rcases (shrinks_rm post (rmOperand (rm pre ((wayWorld s).mkdir recoveryMount)) s)).root
      (goTo (wayStart s) (comps s)) with hsame | hnone
    · exact hsame.trans hgone
    · exact hnone

end Complete

/-- **Snapshot deletion is confined** for a label whose command is plain and whose words are
harmless; and where the command is plain and no word but the first goes up, for no other. -/
theorem confined_iff (label : Bytes) :
    (Safe label → Confined label) ∧
      (PlainRm (deleteCommand label) →
        (∀ s ∈ (operands (deleteCommand label)).tail, Comp.up ∉ comps s) →
        Confined label → Safe label) :=
  ⟨Safe.confined, fun hplain hup h => ⟨hplain, harmless_of_confined h hplain hup⟩⟩

/-- The recovery partition is mounted and has one snapshot. -/
def oneSnapshot : World where
  root := FileTree.ofPaths [[recoveryName]]
  disk := FileTree.ofPaths [[snapshotsName, ascii "pre-update"]]
  hasDevice := true
  mounted := true
  cwd := []

/-- The empty label removes the whole snapshot directory. -/
theorem emptyLabel_removes : ¬ Confined [] := by
  intro h
  have hown := (h Shell.onlyRm oneSnapshot).disk [snapshotsName, ascii "pre-update"]
    (by decide +kernel) (by decide +kernel)
  exact absurd hown (by decide)

end Recovery
end BuildingBlocks
