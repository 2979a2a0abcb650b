import BuildingBlocks.Lib.FileTree
import BuildingBlocks.Lib.Lines

/-!
# BuildingBlocks.Recovery.World

What the snapshot functions of `libbb/bb_recovery.c` act on: the root file system, the recovery
partition, and whether it is mounted at `/recovery`.

* `World` with the system calls on it; a path has no symbolic links on its way.
* `PlainRm`, `rm` — a command of the shell that is nothing but `rm -rf` and its operands.
* `Keeps` — a change that removes only nodes of a kind.
-/

namespace BuildingBlocks
namespace Recovery

open Lib

abbrev Bytes := List UInt8
abbrev Path := List Bytes
abbrev Tree := FileTree Bytes Bytes

def slash : UInt8 := 0x2f
def blank : UInt8 := 0x20

def recoveryName : Bytes := ascii "recovery"
def snapshotsName : Bytes := ascii "snapshots"

structure World where
  root : Tree
  disk : Tree
  /-- The recovery partition can be mounted. -/
  hasDevice : Bool
  mounted : Bool
  cwd : Path

namespace World

/-- The place on the recovery partition of a path under its mount point. -/
def place (w : World) : Path → Option Path
  | [] => none
  | n :: r => if w.mounted = true ∧ n = recoveryName then some r else none

/-- The node a path leads to. -/
def look (w : World) (q : Path) : Option (Node Bytes) :=
  match w.place q with
  | some r => w.disk.node r
  | none => w.root.node q

/-- A change of the tree a path belongs to. -/
def edit (w : World) (q : Path) (f : Tree → Path → Tree) : World :=
  match w.place q with
  | some r => { w with disk := f w.disk r }
  | none => { w with root := f w.root q }

end World

/-! ## Path names -/

def compOf (s : Bytes) : Comp Bytes :=
  if s = [] ∨ s = ascii "." then .here else if s = ascii ".." then .up else .name s

def comps (s : Bytes) : List (Comp Bytes) := (pieces slash s).map compOf

def isAbsolute (s : Bytes) : Bool := s.head? == some slash

namespace World

def start (w : World) (s : Bytes) : Path := if isAbsolute s then [] else w.cwd

def resolve (w : World) (s : Bytes) : Option Path := walk w.look (w.start s) (comps s)

/-! ## System calls -/

/-- `mkdir`; slashes at the end do not count. -/
def mkdir (w : World) (s : Bytes) : World :=
  match walk w.look (w.start s) (comps (s.rdropWhile (· == slash))) with
  | some p => w.edit p FileTree.mkdir
  | none => w

/-- `stat(path, &st) == 0`. -/
def exist (w : World) (s : Bytes) : Bool :=
  match w.resolve s with
  | some p => (w.look p).isSome
  | none => false

/-- A file opened with `"w"`, and what is written to it; `none` when it does not open. -/
def writeFile (w : World) (s content : Bytes) : Option World :=
  match w.resolve s with
  | none => none
  | some p =>
    match w.place p with
    | some r => (w.disk.write r content).map (fun t => { w with disk := t })
    | none => (w.root.write p content).map (fun t => { w with root := t })

/-- What can be read of a file opened with `"r"`; `none` when it does not open. -/
def readFile (w : World) (s : Bytes) : Option Bytes :=
  match w.resolve s with
  | none => none
  | some p =>
    match w.look p with
    | some (.file content) => some content
    | some .dir => some []
    | none => none

/-- `bb_mount(RECOVERY_DEVICE, RECOVERY_MOUNT, "ext4")`, or `errno`. -/
def mount (w : World) : Except Nat World :=
  -- EBUSY
  if w.mounted then .error 16
  else
    match w.look [recoveryName] with
    | some .dir => if w.hasDevice then .ok { w with mounted := true } else .error 6
    | some (.file _) => .error 20
    | none => .error 2

/-- The mount of a function that does not look at its result. -/
def mountAnyway (w : World) : World :=
  match w.mount with
  | .ok w' => w'
  | .error _ => w

/-- A reboot unmounts the partition. -/
def reboot (w : World) : World := { w with mounted := false }

end World

/-! ## The shell -/

/-- The bytes a shell does not take as they are: `|&;<>()$`, the quotes and the backslash, `*?[{`
and the newline. -/
def special : List UInt8 :=
  [0x7c, 0x26, 0x3b, 0x3c, 0x3e, 0x28, 0x29, 0x24, 0x60, 0x5c, 0x22, 0x27, 0x2a, 0x3f, 0x5b, 0x7b,
    newline]

/-- The words of a command, parted by blanks and tabs. -/
def words (cmd : Bytes) : List Bytes :=
  (pieces blank (cmd.map (fun b => if b = 0x09 then blank else b))).filter (· ≠ [])

def operands (cmd : Bytes) : List Bytes := (words cmd).drop 2

section Words

variable {a : Bytes}

theorem map_tab (ha : ∀ b ∈ a, b ≠ blank ∧ b ≠ 0x09) :
    a.map (fun b => if b = 0x09 then blank else b) = a := by
  nth_rewrite 2 [← List.map_id a]
  exact List.map_congr_left (fun b hb => if_neg (ha b hb).2)

/-- A word and what follows it. -/
theorem words_append (hne : a ≠ []) (ha : ∀ b ∈ a, b ≠ blank ∧ b ≠ 0x09) (rest : Bytes) :
    words (a ++ blank :: rest) = a :: words rest := by
  have hblank : blank ∉ a := fun hmem => (ha blank hmem).1 rfl
  rw [words, List.map_append, map_tab ha, List.map_cons, if_neg (by decide), pieces_frame hblank,
    List.filter_cons_of_pos (by simpa using hne), words]

theorem words_word (hne : a ≠ []) (ha : ∀ b ∈ a, b ≠ blank ∧ b ≠ 0x09) : words a = [a] := by
  have hblank : blank ∉ a := fun hmem => (ha blank hmem).1 rfl
  rw [words, map_tab ha, pieces_of_notMem hblank]
  exact List.filter_cons_of_pos (by simpa using hne)

end Words

/-- A command that is `rm -rf` and its operands: no byte is special, and no operand is an option,
a comment or a home directory. -/
structure PlainRm (cmd : Bytes) : Prop where
  notSpecial : ∀ b ∈ cmd, b ∉ special
  rm : (words cmd).take 2 = [ascii "rm", ascii "-rf"]
  operand : ∀ s ∈ operands cmd, ∀ b ∈ s.head?, b ∉ ascii "-#~"

instance (cmd : Bytes) : Decidable (PlainRm cmd) :=
  decidable_of_iff ((∀ b ∈ cmd, b ∉ special) ∧ (words cmd).take 2 = [ascii "rm", ascii "-rf"] ∧
      ∀ s ∈ operands cmd, ∀ b ∈ s.head?, b ∉ ascii "-#~")
    ⟨fun h => ⟨h.1, h.2.1, h.2.2⟩, fun h => ⟨h.notSpecial, h.rm, h.operand⟩⟩

/-- `rm` removes no operand whose last component is `.` or `..`. -/
def refused (s : Bytes) : Bool :=
  match ((pieces slash s).filter (· ≠ [])).getLast? with
  | some c => c == ascii "." || c == ascii ".."
  | none => false

/-- A node goes with everything below it; the mount point itself stays. -/
def removeAt (t : Tree) (p : Path) : Tree := if p = [] then t.clear else t.remove p

/-- One operand of `rm -rf`; the root is not removed. -/
def rmOperand (w : World) (s : Bytes) : World :=
  if refused s then w
  else
    match w.resolve s with
    | none => w
    | some p => if p = [] ∨ w.look p = none then w else w.edit p removeAt

/-- `rm -rf`. -/
def rm (ss : List Bytes) (w : World) : World := ss.foldl rmOperand w

/-- `system`: what a command returns and what it does to the world. Only `rm` is said here. -/
structure Shell where
  run : Bytes → World → Int × World
  rm : ∀ cmd w, PlainRm cmd → (run cmd w).2 = Recovery.rm (operands cmd) w

/-- A shell all of whose other commands fail. -/
def Shell.onlyRm : Shell where
  run cmd w := if PlainRm cmd then (0, Recovery.rm (operands cmd) w) else (256, w)
  rm cmd w h := by rw [if_pos h]

/-! ## What is kept -/

/-- Every node that is removed has its path among `P`. -/
structure Keeps (P : Path → Prop) (w w' : World) : Prop where
  root : ∀ q, w.root.node q ≠ none → w'.root.node q = none → P q
  disk : ∀ r, w.disk.node r ≠ none → w'.disk.node r = none → P (recoveryName :: r)

section Keeps

variable {P : Path → Prop} {w w' w'' : World} {p : Path} {s : Bytes}

theorem Keeps.refl (w : World) : Keeps P w w :=
  ⟨fun _ h h' => absurd h' h, fun _ h h' => absurd h' h⟩

theorem Keeps.trans (h : Keeps P w w') (h' : Keeps P w' w'') : Keeps P w w'' := by
  refine ⟨fun q hq hq' => ?_, fun r hr hr' => ?_⟩
  · by_cases hmid : w'.root.node q = none
    · exact h.root q hq hmid
    · exact h'.root q hmid hq'
  · by_cases hmid : w'.disk.node r = none
    · exact h.disk r hr hmid
    · exact h'.disk r hmid hr'

/-- A change of one tree removes what it removes there. -/
theorem keeps_edit {f : Tree → Path → Tree}
    (hroot : w.place p = none → ∀ q, w.root.node q ≠ none → (f w.root p).node q = none → P q)
    (hdisk : ∀ r, p = recoveryName :: r → ∀ q, w.disk.node q ≠ none → (f w.disk r).node q = none →
      P (recoveryName :: q)) : Keeps P w (w.edit p f) := by
  unfold World.edit
  cases hplace : w.place p with
  | none => exact ⟨hroot hplace, fun _ h h' => absurd h' h⟩
  | some r =>
    refine ⟨fun _ h h' => absurd h' h, hdisk r ?_⟩
    cases p with
    | nil => cases hplace
    | cons n r' =>
      rw [World.place] at hplace
      split at hplace
      · next hn => rw [hn.2, Option.some.inj hplace]
      · cases hplace

theorem keeps_mkdir : Keeps P w (w.mkdir s) := by
  unfold World.mkdir
  split
  · refine keeps_edit (fun _ q hq hq' => ?_) (fun r _ q hq hq' => ?_)
    · rw [FileTree.mkdir_of_ne_none hq] at hq'
      exact absurd hq' hq
    · rw [FileTree.mkdir_of_ne_none hq] at hq'
      exact absurd hq' hq
  · exact Keeps.refl w

theorem mount_ok (h : w.mount = .ok w') :
    w.mounted = false ∧ w.hasDevice = true ∧ w' = { w with mounted := true } := by
  unfold World.mount at h
  split at h
  · cases h
  · next hm =>
    split at h
    · split at h
      · next hd => exact ⟨by simpa using hm, hd, (Except.ok.inj h).symm⟩
      · cases h
    · cases h
    · cases h

theorem keeps_mountAnyway : Keeps P w w.mountAnyway := by
  unfold World.mountAnyway
  split
  · next h =>
    rw [(mount_ok h).2.2]
    exact ⟨fun _ h h' => absurd h' h, fun _ h h' => absurd h' h⟩
  · exact Keeps.refl w

end Keeps

end Recovery
end BuildingBlocks
