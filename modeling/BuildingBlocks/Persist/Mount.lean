import BuildingBlocks.Lib.Pieces

/-!
# BuildingBlocks.Persist.Mount

Mounting the persist partition: `ensure_mounted` looks for the text of the target anywhere in a line
of `/proc/mounts`.

* `MountEntry` is an entry of the table, `procMounts` the file as the kernel prints it.
* `Shown` — the text of the target stands in a piece of some line.
* `mountsRight_iff` — the call is right exactly when what is shown is what is mounted.
-/

namespace BuildingBlocks
namespace Persist

open Lib

/-! ## The table -/

/-- A C string. -/
abbrev CString := { text : Text // 0 ∉ text }

def blank : UInt8 := 0x20

/-- A byte that would end a field, or start an octal number, is written as one. -/
def escapeByte (b : UInt8) : Text :=
  if b = blank ∨ b = 0x09 ∨ b = newline ∨ b = 0x5c then
    [0x5c, 0x30 + b / 64, 0x30 + b / 8 % 8, 0x30 + b % 8]
  else [b]

/-- A field of `/proc/mounts`. -/
def escape (field : CString) : Text := field.val.flatMap escapeByte

/-- An entry of the mount table. -/
structure MountEntry where
  source : CString
  dir : CString
  fstype : CString
  options : CString
deriving DecidableEq

/-- The line of an entry, without its newline. -/
def MountEntry.line (e : MountEntry) : Text :=
  escape e.source ++ blank :: escape e.dir ++ blank :: escape e.fstype ++
    blank :: escape e.options ++ ascii " 0 0"

/-- The content of `/proc/mounts`. -/
def procMounts (table : List MountEntry) : Text := join newline (table.map MountEntry.line)

/-- An entry of the table has the target as its mount point. -/
def IsMountPoint (target : CString) (table : List MountEntry) : Prop :=
  ∃ e ∈ table, e.dir = target

instance (target : CString) (table : List MountEntry) : Decidable (IsMountPoint target table) :=
  inferInstanceAs (Decidable (∃ e ∈ table, e.dir = target))

/-! ## The code -/

/-- `errno` after a call that failed. -/
structure Errno where
  code : Nat
  pos : 0 < code
deriving DecidableEq

/-- The mount table, and the directories there are. -/
structure Mounts where
  table : List MountEntry
  isDir : CString → Bool

/-- What the calls come to: whether `/proc/mounts` opens, whether `mkdir` makes the directory, and
the error of `mount` or the options the kernel shows for the new entry. -/
structure MountCalls where
  opens : Bool
  mkdirs : Bool
  mount : Except Errno CString

/-- What a call returns, whether it has called `mount`, and the state it leaves. -/
structure Mounted where
  ret : Int
  called : Bool
  state : Mounts

/-- `if (stat(target, &st) != 0) mkdir(target, 0755)`. -/
def makeTarget (target : CString) (x : MountCalls) (m : Mounts) : Mounts :=
  if m.isDir target then m
  else if x.mkdirs then { m with isDir := Function.update m.isDir target true }
  else m

/-- The scan of `/proc/mounts`. -/
def findTarget (target : CString) (x : MountCalls) (m : Mounts) : Bool :=
  x.opens &&
    (fgetsAll 512 (procMounts m.table)).any (fun line => (strstr target.val (cstr line)).isSome)

/-- `ensure_mounted`. -/
def ensureMounted (device target fstype : CString) (x : MountCalls) (m : Mounts) : Mounted :=
  let m := makeTarget target x m
  if findTarget target x m then { ret := 0, called := false, state := m }
  else
    match x.mount with
    | .error e => { ret := -(e.code : Int), called := true, state := m }
    | .ok options =>
      let e : MountEntry := { source := device, dir := target, fstype, options }
      { ret := 0, called := true, state := { m with table := m.table ++ [e] } }

def persistRoot : CString := ⟨ascii "/persist", by decide⟩

/-- `bb_persist_init`; the device is that of the board. -/
def persistInit (persistDevice : CString) (x : MountCalls) (m : Mounts) : Mounted :=
  ensureMounted persistDevice persistRoot ⟨ascii "ext4", by decide⟩ x m

/-! ## The law -/

/-- 0 is returned only with the target mounted, and `mount` is called exactly when it was not. -/
structure MountsRight (target : CString) (m : Mounts) (r : Mounted) : Prop where
  mounted : r.ret = 0 → IsMountPoint target r.state.table
  called : r.called = true ↔ ¬ IsMountPoint target m.table

/-- The text of the target stands in a piece of some line. -/
def Shown (target : CString) (table : List MountEntry) : Prop :=
  ∃ e ∈ table, ∃ p ∈ fgetsAll 512 (e.line ++ [newline]), target.val <:+: p

/-- What the code can see of the table tells whether the target is mounted. -/
def Told (target : CString) (x : MountCalls) (m : Mounts) : Prop :=
  if x.opens then Shown target m.table ↔ IsMountPoint target m.table
  else ¬ IsMountPoint target m.table

/-! ## The scan -/

section Scan

variable {target : CString} {table : List MountEntry} {e : MountEntry} {pat text : Text}

/-- `strstr` finds a text exactly when it is a part. -/
theorem strstr_isSome_iff : (strstr pat text).isSome = true ↔ pat <:+: text := by
  induction text with
  | nil =>
    rw [strstr, List.infix_nil]
    cases pat with
    | nil => exact iff_of_true rfl rfl
    | cons b pat => exact iff_of_false Bool.false_ne_true (List.cons_ne_nil b pat)
  | cons b text ih =>
    rw [strstr, List.infix_cons_iff, ← List.isPrefixOf_iff_prefix, ← ih]
    cases hpre : pat.isPrefixOf (b :: text) with
    | true => exact iff_of_true rfl (Or.inl rfl)
    | false => exact (or_iff_right Bool.false_ne_true).symm

theorem mem_escapeByte {b c : UInt8} (h : c ∈ escapeByte b) :
    c ≠ newline ∧ (b ≠ 0 → c ≠ 0) := by
  rw [escapeByte] at h
  split at h
  · next hb =>
    have hall : ∀ c ∈ escapeByte b, c ≠ newline ∧ c ≠ 0 := by
      rcases hb with rfl | rfl | rfl | rfl <;> decide
    rw [escapeByte, if_pos hb] at hall
    exact ⟨(hall c h).1, fun _ => (hall c h).2⟩
  · next hno =>
    rw [List.mem_singleton.mp h]
    exact ⟨fun he => hno (Or.inr (Or.inr (Or.inl he))), id⟩

/-- A field is printed on one line, without a NUL. -/
theorem mem_escape {field : CString} {c : UInt8} (h : c ∈ escape field) : c ≠ newline ∧ c ≠ 0 := by
  obtain ⟨b, hb, hc⟩ := List.mem_flatMap.mp h
  obtain ⟨hnl, h0⟩ := mem_escapeByte hc
  exact ⟨hnl, h0 (fun he => field.property (he ▸ hb))⟩

theorem MountEntry.mem_line {c : UInt8} (h : c ∈ e.line) : c ≠ newline ∧ c ≠ 0 := by
  have hblank : blank ≠ newline ∧ blank ≠ 0 := by decide
  have htail : ∀ b ∈ ascii " 0 0", b ≠ newline ∧ b ≠ 0 := by decide
  rw [MountEntry.line] at h
  simp only [List.mem_append, List.mem_cons] at h
  rcases h with ((((h | rfl | h) | rfl | h) | rfl | h) | h)
  · exact mem_escape h
  · exact hblank
  · exact mem_escape h
  · exact hblank
  · exact mem_escape h
  · exact hblank
  · exact mem_escape h
  · exact htail c h

/-- The table is read line by line. -/
theorem fgetsAll_procMounts (table : List MountEntry) :
    fgetsAll 512 (procMounts table) =
      table.flatMap (fun e => fgetsAll 512 (e.line ++ [newline])) := by
  induction table with
  | nil => rfl
  | cons e table ih =>
    have hnl : newline ∉ e.line := fun hmem => (MountEntry.mem_line hmem).1 rfl
    rw [procMounts, List.map_cons, join_cons, fgetsAll_line_append (by decide) hnl,
      List.flatMap_cons, ← ih, procMounts]

/-- The scan finds what is shown. -/
theorem findTarget_iff {x : MountCalls} {m : Mounts} :
    findTarget target x m = true ↔ x.opens = true ∧ Shown target m.table := by
  have hcstr : ∀ e : MountEntry, ∀ p ∈ fgetsAll 512 (e.line ++ [newline]), cstr p = p := by
    intro e p hp
    refine List.takeWhile_eq_self_iff.mpr (fun b hb => ?_)
    have hmem : b ∈ e.line ++ [newline] := by
      rw [← (flatten_fgetsAll (n := 511) (by decide) (e.line ++ [newline])).1]
      exact List.mem_flatten_of_mem hp hb
    rw [decide_eq_true_eq]
    rcases List.mem_append.mp hmem with hline | hend
    · exact (MountEntry.mem_line hline).2
    · rw [List.mem_singleton.mp hend]
      decide
  rw [findTarget, Bool.and_eq_true, fgetsAll_procMounts, List.any_eq_true, Shown]
  refine and_congr_right (fun _ => ?_)
  constructor
  · rintro ⟨p, hp, hfound⟩
    obtain ⟨e, he, hpiece⟩ := List.mem_flatMap.mp hp
    rw [strstr_isSome_iff, hcstr e p hpiece] at hfound
    exact ⟨e, he, p, hpiece, hfound⟩
  · rintro ⟨e, he, p, hpiece, hfound⟩
    refine ⟨p, List.mem_flatMap.mpr ⟨e, he, hpiece⟩, ?_⟩
    rw [strstr_isSome_iff, hcstr e p hpiece]
    exact hfound

/-- A mount point with nothing to escape in the first 511 bytes of its line is shown. -/
theorem shown_of_fits (he : e ∈ table) (hdir : escape e.dir = e.dir.val)
    (hfits : (escape e.source).length + 1 + e.dir.val.length ≤ 511) : Shown e.dir table := by
  obtain ⟨rest, hline⟩ : ∃ rest, e.line ++ [newline] =
      (escape e.source ++ blank :: e.dir.val) ++ rest := by
    rw [MountEntry.line, hdir]
    refine ⟨blank :: escape e.fstype ++ blank :: escape e.options ++ ascii " 0 0" ++ [newline], ?_⟩
    simp only [List.append_assoc, List.cons_append]
  have hnl : newline ∉ escape e.source ++ blank :: e.dir.val := by
    rw [← hdir, List.mem_append, List.mem_cons, not_or, not_or]
    exact ⟨fun h => (mem_escape h).1 rfl, by decide, fun h => (mem_escape h).1 rfl⟩
  have hlen : (escape e.source ++ blank :: e.dir.val).length ≤ 511 := by
    rw [List.length_append, List.length_cons]
    omega
  have hne : e.line ++ [newline] ≠ [] := List.append_ne_nil_of_right_ne_nil _ (List.cons_ne_nil _ _)
  refine ⟨e, he, takeLine 511 (e.line ++ [newline]), ?_, ?_⟩
  · rw [fgetsAll_step (by decide) hne]
    exact List.mem_cons_self
  · rw [hline, takeLine_append rest hnl hlen, List.append_cons]
    exact ⟨escape e.source ++ [blank], _, rfl⟩

end Scan

/-! ## The call -/

section Call

variable {device target fstype : CString} {x : MountCalls} {m : Mounts}

@[simp] theorem makeTarget_table : (makeTarget target x m).table = m.table := by
  unfold makeTarget
  split
  · rfl
  · split <;> rfl

theorem findTarget_makeTarget : findTarget target x (makeTarget target x m) = true ↔
    x.opens = true ∧ Shown target m.table := by rw [findTarget_iff, makeTarget_table]

theorem ensureMounted_shown (hopens : x.opens = true) (h : Shown target m.table) :
    ensureMounted device target fstype x m =
      { ret := 0, called := false, state := makeTarget target x m } :=
  if_pos (findTarget_makeTarget.mpr ⟨hopens, h⟩)

/-- When nothing is shown `mount` is called, and 0 is its success. -/
theorem ensureMounted_mount (h : ¬ (x.opens = true ∧ Shown target m.table)) :
    (ensureMounted device target fstype x m).called = true ∧
      ((ensureMounted device target fstype x m).ret = 0 →
        IsMountPoint target (ensureMounted device target fstype x m).state.table) := by
  have hfind : ¬ findTarget target x (makeTarget target x m) = true :=
    fun hf => h (findTarget_makeTarget.mp hf)
  simp only [ensureMounted, if_neg hfind]
  cases x.mount with
  | error e =>
    refine ⟨rfl, fun hret => ?_⟩
    have hpos := e.pos
    simp only at hret
    omega
  | ok options =>
    exact ⟨rfl, fun _ => ⟨_, List.mem_append_right _ (List.mem_singleton_self _), rfl⟩⟩

/-- **The persist partition is mounted once** exactly when the table tells whether it is mounted. -/
theorem mountsRight_iff :
    MountsRight target m (ensureMounted device target fstype x m) ↔ Told target x m := by
  have htold : Told target x m ↔
      ((x.opens = true ∧ Shown target m.table) ↔ IsMountPoint target m.table) := by
    unfold Told
    cases x.opens with
    | true => rw [if_pos rfl, and_iff_right rfl]
    | false => simp
  rw [htold]
  by_cases hshown : x.opens = true ∧ Shown target m.table
  · rw [ensureMounted_shown hshown.1 hshown.2, iff_true_left hshown]
    constructor
    · intro h
      have hmounted := h.mounted rfl
      rwa [makeTarget_table] at hmounted
    · intro h
      refine ⟨fun _ => ?_, iff_of_false Bool.false_ne_true (not_not_intro h)⟩
      rwa [makeTarget_table]
  · obtain ⟨hcalled, hmounted⟩ :
        (ensureMounted device target fstype x m).called = true ∧ _ := ensureMounted_mount hshown
    rw [iff_false_left hshown]
    exact ⟨fun h => h.called.mp hcalled, fun h => ⟨hmounted, iff_of_true hcalled h⟩⟩

/-- The log partition, and nothing else. -/
def logOnly : Mounts where
  table := [⟨⟨ascii "/dev/mmcblk0p11", by decide⟩, ⟨ascii "/var/log/persist", by decide⟩,
    ⟨ascii "ext4", by decide⟩, ⟨ascii "rw", by decide⟩⟩]
  isDir := fun _ => true

/-- With the log partition mounted the persist partition never is: 0 is returned without it. -/
theorem logOnly_hides : ¬ MountsRight persistRoot logOnly
    (persistInit ⟨ascii "/dev/mmcblk0p9", by decide⟩ ⟨true, true, .ok ⟨[], by decide⟩⟩
      logOnly) := by
  intro h
  have hmounted := h.mounted (by decide)
  revert hmounted
  decide

end Call

end Persist
end BuildingBlocks
