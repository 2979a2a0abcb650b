import BuildingBlocks.Lib.Run
import BuildingBlocks.Recovery.Delete

/-!
# BuildingBlocks.Recovery.Snapshot

The life of the snapshots over any sequence of calls and reboots.

* `createSnapshot`, `restoreSnapshot`, `listSnapshots` are the functions, `step` one call.
* `Lawful` — a create succeeds, a restore finds a snapshot that was created and not deleted.
* `InOrder` — a create only while the partition is not mounted, such a restore only while it is.
* `lifecycle` — with ordinary labels a run is lawful exactly when its calls are in order.
-/

namespace BuildingBlocks
namespace Recovery

open Lib

/-! ## The code -/

/-- `snprintf(manifest, sizeof(manifest), "%s/manifest.txt", snapdir)`. -/
def manifestPath (snapdir : Bytes) : Bytes := (snapdir ++ ascii "/manifest.txt").take 255

def persistPartition : Bytes := ascii "/dev/mmcblk0p9"
def archiveName : Bytes := ascii "persist.tar.gz"

/-- What `bb_snapshot_create` writes to the manifest. -/
def manifestText : Bytes := ascii "/dev/mmcblk0p9 persist.tar.gz\n"

def tarCommand (snapdir : Bytes) : Bytes :=
  (ascii "tar czf " ++ snapdir ++ ascii "/persist.tar.gz -C /persist . 2>/dev/null").take 511

def cpCommand (snapdir : Bytes) : Bytes :=
  (ascii "cp /etc/os-release " ++ snapdir ++ ascii "/os-release 2>/dev/null").take 511

/-- `bb_snapshot_create`. -/
def createSnapshot (sh : Shell) (label : Bytes) (w : World) : Int × World :=
  let w := w.mkdir recoveryMount
  match w.mount with
  | .error e => (-(e : Int), w)
  | .ok w =>
    let snapdir := snapPath label
    let w := (w.mkdir snapshotDir).mkdir snapdir
    match w.writeFile (manifestPath snapdir) manifestText with
    | none => (-1, w)
    | some w =>
      -- what the commands return is not looked at
      let w := (sh.run (tarCommand snapdir) w).2
      let w := (sh.run (cpCommand snapdir) w).2
      (0, w)

/-- The command of `bb_recovery_reimage`. -/
def reimageCommand (partition imagePath : Bytes) : Bytes :=
  let isTar := (strstr (ascii ".tar") imagePath).isSome || (strstr (ascii ".tgz") imagePath).isSome
  let cmd :=
    if isTar then
      List.flatten [ascii "mkfs.ext4 -F ", partition, ascii " && mkdir -p /tmp/reimage && mount ",
        partition, ascii " /tmp/reimage && tar xzf ", imagePath,
        ascii " -C /tmp/reimage && umount /tmp/reimage"]
    else
      List.flatten [ascii "dd if=", imagePath, ascii " of=", partition,
        ascii " bs=4M status=progress"]
  cmd.take 511

/-- `bb_recovery_reimage`. -/
def reimage (sh : Shell) (partition imagePath : Bytes) (w : World) : Int × World :=
  sh.run (reimageCommand partition imagePath) w

/-- `sscanf(line, "%127s %127s", part, img) == 2`. -/
def scanEntry (line : Bytes) : Option (Bytes × Bytes) :=
  match scanWord 127 (cstr line) with
  | none => none
  | some (part, rest) => (scanWord 127 rest).map (fun img => (part, img.1))

/-- `snprintf(img_path, sizeof(img_path), "%s/%s", path, img)`. -/
def imgPath (path img : Bytes) : Bytes := (path ++ slash :: img).take 255

/-- The loop over the lines of a manifest, with the number of errors. -/
def restoreLines (sh : Shell) (path : Bytes) : List Bytes → Nat × World → Nat × World
  | [], s => s
  | line :: lines, (errors, w) =>
    match scanEntry line with
    | none => restoreLines sh path lines (errors, w)
    | some (part, img) =>
      let (rc, w) := reimage sh part (imgPath path img) w
      restoreLines sh path lines (if rc ≠ 0 then errors + 1 else errors, w)

/-- What a function leaves that mounts the partition without looking at the result. -/
def opened (w : World) : World := (w.mkdir recoveryMount).mountAnyway

/-- `bb_recovery_restore_snapshot`; the snapshot is looked for before the partition is mounted. -/
def restoreSnapshot (sh : Shell) (label : Bytes) (w : World) : Int × World :=
  let path := snapPath label
  if w.exist path then
    let w := opened w
    match w.readFile (manifestPath path) with
    | none => (-1, w)
    | some text =>
      let (errors, w) := restoreLines sh path (fgetsAll 256 text) (0, w)
      (errors, w)
  else (-1, w)

/-- `bb_recovery_list_snapshots`; `printed` is what the pipeline prints, `none` when it cannot be
started. -/
def listSnapshots (printed : Option Bytes) (w : World) : Bytes × World :=
  let w := opened w
  match printed with
  | none => (ascii "[]", w)
  | some out =>
    let buf := out.take 4095
    if buf = [] then (ascii "[]", w)
    else
      let buf := if buf.getLast? = some newline then buf.dropLast else buf
      (ascii "[" ++ cstr buf ++ ascii "]", w)

/-! ## Runs -/

inductive Op where
  | create (label : Bytes)
  | list (printed : Option Bytes)
  | delete (label : Bytes)
  | restore (label : Bytes)
  | reboot

/-- The world, and the labels of the snapshots that were created and not deleted since. -/
structure State where
  world : World
  kept : List Bytes

/-- One call, or a reboot. -/
def step (sh : Shell) (s : State) : Op → Option State
  | .create label =>
    let (ret, w) := createSnapshot sh label s.world
    some { world := w, kept := if ret = 0 then label :: s.kept else s.kept }
  | .list printed => some { s with world := (listSnapshots printed s.world).2 }
  | .delete label =>
    some { world := (deleteSnapshot sh label s.world).2, kept := s.kept.filter (· ≠ label) }
  | .restore label => some { s with world := (restoreSnapshot sh label s.world).2 }
  | .reboot => some { s with world := s.world.reboot }

/-- A create succeeds, and a restore of a kept snapshot finds it. -/
def Lawful (sh : Shell) (s : State) : Op → Prop
  | .create label => (createSnapshot sh label s.world).1 = 0
  | .restore label => label ∈ s.kept → 0 ≤ (restoreSnapshot sh label s.world).1
  | _ => True

instance (sh : Shell) (s : State) : DecidablePred (Lawful sh s)
  | .create label => inferInstanceAs (Decidable ((createSnapshot sh label s.world).1 = 0))
  | .restore label =>
    inferInstanceAs (Decidable (label ∈ s.kept → 0 ≤ (restoreSnapshot sh label s.world).1))
  | .list _ | .delete _ | .reboot => .isTrue trivial

/-- A create while the partition is not mounted, a restore of a kept snapshot while it is. -/
def InOrder (s : State) : Op → Prop
  | .create _ => s.world.mounted = false
  | .restore label => label ∈ s.kept → s.world.mounted = true
  | _ => True

instance (s : State) : DecidablePred (InOrder s)
  | .create _ => inferInstanceAs (Decidable (s.world.mounted = false))
  | .restore label => inferInstanceAs (Decidable (label ∈ s.kept → s.world.mounted = true))
  | .list _ | .delete _ | .reboot => .isTrue trivial

/-- The manifest that would be read names the persist partition and its archive alone. -/
def PersistOnly (w : World) (label : Bytes) : Prop :=
  ∀ text ∈ (opened w).readFile (manifestPath (snapPath label)), ∀ line ∈ fgetsAll 256 text,
    ∀ e ∈ scanEntry line, e = (persistPartition, archiveName)

instance (w : World) (label : Bytes) : Decidable (PersistOnly w label) :=
  inferInstanceAs (Decidable
    (∀ text ∈ (opened w).readFile (manifestPath (snapPath label)), ∀ line ∈ fgetsAll 256 text,
      ∀ e ∈ scanEntry line, e = (persistPartition, archiveName)))

/-- Labels are names that the buffers hold, and a manifest that is restored names the persist
partition alone. -/
def Ordinary (s : State) : Op → Prop
  | .create label => IsName label ∧ label.length ≤ 233
  | .delete label => IsName label ∧ label.length ≤ 228
  | .restore label => IsName label ∧ label.length ≤ 233 ∧ PersistOnly s.world label
  | _ => True

instance (s : State) : DecidablePred (Ordinary s)
  | .create label => inferInstanceAs (Decidable (IsName label ∧ label.length ≤ 233))
  | .delete label => inferInstanceAs (Decidable (IsName label ∧ label.length ≤ 228))
  | .restore label =>
    inferInstanceAs (Decidable (IsName label ∧ label.length ≤ 233 ∧ PersistOnly s.world label))
  | .list _ | .reboot => .isTrue trivial

/-! ## What the shell does -/

/-- A change that leaves the recovery partition and its mount point as they are. -/
structure Spares (w w' : World) : Prop where
  disk : w'.disk = w.disk
  hasDevice : w'.hasDevice = w.hasDevice
  mounted : w'.mounted = w.mounted
  root : w'.root.node [] = w.root.node []
  point : ∀ r, w'.root.node (recoveryName :: r) = w.root.node (recoveryName :: r)

/-- `tar` and `cp` leave a file in the snapshot or nothing, and a persist partition that is
re-imaged is another one than the recovery partition. -/
structure BacksUp (sh : Shell) : Prop where
  tar : ∀ label w, IsName label → label.length ≤ 233 →
    (sh.run (tarCommand (snapPath label)) w).2 = w ∨ ∃ content, w.writeFile
      (snapPath label ++ slash :: archiveName) content =
        some (sh.run (tarCommand (snapPath label)) w).2
  cp : ∀ label w, IsName label → label.length ≤ 233 →
    (sh.run (cpCommand (snapPath label)) w).2 = w ∨ ∃ content, w.writeFile
      (snapPath label ++ slash :: ascii "os-release") content =
        some (sh.run (cpCommand (snapPath label)) w).2
  reimage : ∀ label w, IsName label → label.length ≤ 233 →
    Spares w (reimage sh persistPartition (imgPath (snapPath label) archiveName) w).2

/-! ## The states of a run -/

/-- The mount point is there or can be made, and empty while nothing is mounted. -/
structure Base (w : World) : Prop where
  hasDevice : w.hasDevice = true
  root : w.root.node [] = some .dir
  point : isFile (w.root.node [recoveryName]) = false
  empty : ∀ n r, w.root.node (recoveryName :: n :: r) = none

/-- Snapshots are directories of files. -/
structure Tidy (t : Tree) : Prop where
  root : t.node [] = some .dir
  dir : isFile (t.node [snapshotsName]) = false
  snapshot : ∀ n, isFile (t.node [snapshotsName, n]) = false
  file : ∀ n m, isDir (t.node [snapshotsName, n, m]) = false

/-- The name of the manifest, which the buffer may cut. -/
def manifestName (label : Bytes) : Bytes := (ascii "manifest.txt").take (234 - label.length)

/-- The manifest of a snapshot is there. -/
def HasManifest (t : Tree) (label : Bytes) : Prop :=
  isFile (t.node [snapshotsName, label, manifestName label]) = true

structure Inv (s : State) : Prop where
  base : Base s.world
  tidy : Tidy s.world.disk
  kept : ∀ label ∈ s.kept, IsName label ∧ label.length ≤ 233 ∧ HasManifest s.world.disk label

/-- A run starts with no snapshot of its own, mounted or not. -/
structure Start (s : State) : Prop where
  base : Base s.world
  tidy : Tidy s.world.disk
  kept : s.kept = []

/-! ## The partition -/

section Partition

variable {w : World} {label m content : Bytes} {r : Path}

theorem look_mounted (hm : w.mounted = true) (r : Path) :
    w.look (recoveryName :: r) = w.disk.node r := by
  rw [World.look, World.place, if_pos ⟨hm, rfl⟩]

theorem place_mounted (hm : w.mounted = true) (r : Path) :
    w.place (recoveryName :: r) = some r := if_pos ⟨hm, rfl⟩

theorem edit_mounted (hm : w.mounted = true) (r : Path) (f : Tree → Path → Tree) :
    w.edit (recoveryName :: r) f = { w with disk := f w.disk r } := by
  rw [World.edit, place_mounted hm]

/-- A path below the snapshot directory is followed from there. -/
theorem walk_snapshotDir (hroot : w.root.node [] = some .dir) (cs : List (Comp Bytes)) :
    walk w.look [] (.here :: .name recoveryName :: .name snapshotsName :: cs) =
      if isDir (w.look [recoveryName]) then walk w.look [recoveryName, snapshotsName] cs
      else none := by
  have hdir : isDir (w.look []) = true := isDir_iff.mpr hroot
  rw [walk, if_pos hdir, walk, Comp.apply, if_pos hdir, walk]
  rfl

theorem resolve_snapshotDir (hroot : w.root.node [] = some .dir) (x : Bytes) :
    w.resolve (snapshotDir ++ slash :: x) =
      if isDir (w.look [recoveryName]) then walk w.look [recoveryName, snapshotsName] (comps x)
      else none := by
  rw [World.resolve, comps_snapshotDir]
  exact walk_snapshotDir hroot (comps x)

/-- A component of a path that is a name. -/
structure IsComp (m : Bytes) : Prop where
  ne_nil : m ≠ []
  slash_notMem : slash ∉ m
  notDots : m ≠ ascii "." ∧ m ≠ ascii ".."

theorem IsName.isComp (h : IsName label) : IsComp label := ⟨h.ne_nil, h.slash_notMem, h.notDots⟩

theorem IsComp.comps (h : IsComp m) : comps m = [.name m] := by
  rw [Recovery.comps, pieces_of_notMem h.slash_notMem, List.map_singleton,
    compOf_name h.ne_nil h.notDots]

theorem IsComp.comps_append (h : IsComp label) (hm : IsComp m) :
    Recovery.comps (label ++ slash :: m) = [.name label, .name m] := by
  rw [Recovery.comps, pieces_frame h.slash_notMem, pieces_of_notMem hm.slash_notMem, List.map_cons,
    List.map_singleton, compOf_name h.ne_nil h.notDots, compOf_name hm.ne_nil hm.notDots]

theorem IsComp.rdropWhile (h : IsComp m) (front : Bytes) :
    (front ++ slash :: m).rdropWhile (· == slash) = front ++ slash :: m := by
  rw [List.rdropWhile_eq_self_iff]
  intro hne hlast
  have hmem : (front ++ slash :: m).getLast hne ∈ m := by
    rw [List.getLast_append_of_ne_nil _ (List.cons_ne_nil slash m), List.getLast_cons h.ne_nil]
    exact List.getLast_mem h.ne_nil
  rw [beq_iff_eq.mp hlast] at hmem
  exact h.slash_notMem hmem

theorem isComp_manifestName (h : label.length ≤ 233) : IsComp (manifestName label) := by
  obtain ⟨k, hk⟩ : ∃ k, 234 - label.length = k + 1 := ⟨233 - label.length, by omega⟩
  have hname : manifestName label = 0x6d :: (ascii "anifest.txt").take k := by
    rw [manifestName, hk]
    rfl
  have hslash : slash ∉ ascii "manifest.txt" := by decide
  refine ⟨by rw [hname]; exact List.cons_ne_nil _ _, fun hmem => hslash ?_, ?_⟩
  · exact List.mem_of_mem_take hmem
  · rw [hname]
    exact ⟨fun he => absurd (List.cons.inj he).1 (by decide),
      fun he => absurd (List.cons.inj he).1 (by decide)⟩

theorem manifestPath_eq (h : label.length ≤ 233) :
    manifestPath (snapPath label) =
      snapshotDir ++ slash :: (label ++ slash :: manifestName label) := by
  have hdir : (snapshotDir ++ slash :: label).length = 20 + label.length := by
    rw [List.length_append, List.length_cons, show snapshotDir.length = 19 from by decide]
    omega
  obtain ⟨k, hk⟩ : ∃ k, 255 - (20 + label.length) = k + 1 := ⟨234 - label.length, by omega⟩
  have hname : (ascii "/manifest.txt").take (255 - (20 + label.length)) =
      slash :: manifestName label := by
    rw [hk, manifestName, show 234 - label.length = k from by omega]
    rfl
  rw [manifestPath, snapPath_eq (by omega), List.take_append, hdir, hname,
    List.take_of_length_le (by rw [hdir]; omega), List.append_assoc, List.cons_append]

/-! ### While it is mounted -/

theorem rdropWhile_recoveryMount : recoveryMount.rdropWhile (· == slash) = recoveryMount := by
  decide

theorem comps_recoveryMount : comps recoveryMount = [.here, .name recoveryName] := by decide

section Mounted

variable (hm : w.mounted = true) (hroot : w.root.node [] = some .dir)
  (hdisk : w.disk.node [] = some .dir)

include hm

/-- Making the mount point changes nothing while something is mounted there. -/
theorem mkdir_mount_mounted : w.mkdir recoveryMount = w := by
  unfold World.mkdir
  rw [rdropWhile_recoveryMount, comps_recoveryMount]
  split
  · next p hp =>
    obtain ⟨rfl, -⟩ := walk_eq_some_iff.mp hp
    change w.edit [recoveryName] FileTree.mkdir = w
    rw [edit_mounted hm, FileTree.mkdir, dif_neg (fun h => h.2.1 rfl)]
  · rfl

include hroot hdisk

theorem resolve_mounted (x : Bytes) : w.resolve (snapshotDir ++ slash :: x) =
    walk w.look [recoveryName, snapshotsName] (comps x) := by
  rw [resolve_snapshotDir hroot, if_pos]
  rw [look_mounted hm, hdisk]
  rfl

theorem mkdir_snapshotDir :
    w.mkdir snapshotDir = { w with disk := w.disk.mkdir [snapshotsName] } := by
  have hpath : snapshotDir.rdropWhile (· == slash) = snapshotDir := by decide
  have hcomps : comps snapshotDir = [.here, .name recoveryName, .name snapshotsName] := by
    decide
  have hdir : isDir (w.look [recoveryName]) = true := by
    rw [look_mounted hm, hdisk]
    rfl
  unfold World.mkdir
  rw [hpath, hcomps]
  have hwalk : walk w.look (w.start snapshotDir)
      [.here, .name recoveryName, .name snapshotsName] = some [recoveryName, snapshotsName] := by
    have h := walk_snapshotDir hroot []
    rw [if_pos hdir] at h
    exact h
  rw [hwalk]
  exact edit_mounted hm [snapshotsName] FileTree.mkdir

theorem resolve_snapPath (hname : IsName label) (hlen : label.length ≤ 235) :
    w.resolve (snapPath label) = if isDir (w.disk.node [snapshotsName]) then
      some [recoveryName, snapshotsName, label] else none := by
  rw [snapPath_eq hlen, resolve_mounted hm hroot hdisk, hname.comps, walk, look_mounted hm]
  rfl

theorem mkdir_snapPath (hname : IsName label) (hlen : label.length ≤ 235)
    (hdir : w.disk.node [snapshotsName] = some .dir) :
    w.mkdir (snapPath label) = { w with disk := w.disk.mkdir [snapshotsName, label] } := by
  have hresolve := resolve_snapPath hm hroot hdisk hname hlen
  rw [hdir, isDir_dir, if_pos rfl, World.resolve, snapPath_eq hlen] at hresolve
  unfold World.mkdir
  rw [snapPath_eq hlen, hname.isComp.rdropWhile, hresolve]
  exact edit_mounted hm [snapshotsName, label] FileTree.mkdir

/-- A file in a snapshot. -/
theorem resolve_file (hname : IsName label) (hcomp : IsComp m)
    (hdir : w.disk.node [snapshotsName] = some .dir)
    (hsnap : w.disk.node [snapshotsName, label] = some .dir) :
    w.resolve (snapshotDir ++ slash :: (label ++ slash :: m)) =
      some [recoveryName, snapshotsName, label, m] := by
  have hlook := look_mounted hm
  rw [resolve_mounted hm hroot hdisk, hname.isComp.comps_append hcomp, walk, hlook, hdir, isDir_dir,
    if_pos rfl, Comp.apply, walk, List.cons_append, hlook, List.singleton_append, hsnap, isDir_dir,
    if_pos rfl]
  rfl

theorem writeFile_file (hname : IsName label) (hcomp : IsComp m)
    (hdir : w.disk.node [snapshotsName] = some .dir)
    (hsnap : w.disk.node [snapshotsName, label] = some .dir) (content : Bytes) :
    w.writeFile (snapshotDir ++ slash :: (label ++ slash :: m)) content =
      (w.disk.write [snapshotsName, label, m] content).map (fun t => { w with disk := t }) := by
  rw [World.writeFile, resolve_file hm hroot hdisk hname hcomp hdir hsnap]
  simp only
  rw [place_mounted hm]

end Mounted
end Partition

/-! ## The mount -/

section Mount

variable {w : World}

theorem Base.reboot (h : Base w) : Base w.reboot := ⟨h.hasDevice, h.root, h.point, h.empty⟩

/-- The mount point is made where there is none. -/
theorem mkdir_mount (h : Base w) (hm : w.mounted = false) :
    w.mkdir recoveryMount = { w with root := w.root.mkdir [recoveryName] } ∧
      (w.root.mkdir [recoveryName]).node [recoveryName] = some .dir := by
  have hroot : isDir (w.root.node []) = true := isDir_iff.mpr h.root
  refine ⟨?_, FileTree.mkdir_self h.point hroot (List.cons_ne_nil _ _)⟩
  have hwalk : walk w.look (w.start recoveryMount) [.here, .name recoveryName] =
      some [recoveryName] := by
    rw [walk_eq_some_iff]
    refine ⟨rfl, fun v hv => ?_⟩
    have hways : v ∈ [([] : Path), []] := hv
    obtain rfl : v = [] := by simpa using hways
    exact hroot
  unfold World.mkdir
  rw [rdropWhile_recoveryMount, comps_recoveryMount, hwalk]
  simp only
  rw [World.edit, place_of_not_mounted hm]

/-- `mount` after `mkdir`: EBUSY when something is mounted there, else it succeeds. -/
theorem mount_mkdir (h : Base w) :
    (w.mkdir recoveryMount).mount =
      if w.mounted then .error 16
      else .ok { w with root := w.root.mkdir [recoveryName], mounted := true } := by
  cases hm : w.mounted with
  | true => rw [mkdir_mount_mounted hm, World.mount, hm, if_pos rfl, if_pos rfl]
  | false =>
    obtain ⟨hmkdir, hpoint⟩ := mkdir_mount h hm
    have hm' : (w.mkdir recoveryMount).mounted = false := by rw [hmkdir]; exact hm
    have hd : (w.mkdir recoveryMount).hasDevice = true := by rw [hmkdir]; exact h.hasDevice
    have hlook : (w.mkdir recoveryMount).look [recoveryName] = some .dir := by
      rw [look_of_not_mounted hm', hmkdir]
      exact hpoint
    rw [World.mount, hm', if_neg Bool.false_ne_true, if_neg Bool.false_ne_true, hlook]
    simp only
    rw [if_pos hd, hmkdir]

/-- The partition is mounted after a function that mounts it. -/
theorem opened_spec (h : Base w) :
    Base (opened w) ∧ (opened w).mounted = true ∧ (opened w).disk = w.disk ∧
      (w.mounted = true → opened w = w) := by
  unfold opened World.mountAnyway
  rw [mount_mkdir h]
  cases hm : w.mounted with
  | true =>
    rw [if_pos rfl, mkdir_mount_mounted hm]
    exact ⟨h, hm, rfl, fun _ => rfl⟩
  | false =>
    rw [if_neg Bool.false_ne_true]
    obtain ⟨-, hpoint⟩ := mkdir_mount h hm
    refine ⟨⟨h.hasDevice, ?_, ?_, ?_⟩, rfl, rfl, fun hm => absurd hm Bool.false_ne_true⟩
    · exact (FileTree.mkdir_of_ne (List.cons_ne_nil _ _).symm).trans h.root
    · rw [hpoint]
      rfl
    · intro n r
      refine (FileTree.mkdir_of_ne (fun he => ?_)).trans (h.empty n r)
      exact absurd (List.cons.inj he).2 (List.cons_ne_nil n r)

end Mount

/-! ## What the operations preserve -/

section Tree

variable {t t' : Tree} {p : Path} {label l m content : Bytes}

theorem Tidy.mkdir (h : Tidy t) (hp : ∀ n m, p ≠ [snapshotsName, n, m]) : Tidy (t.mkdir p) := by
  have hnew : ∀ q, isFile (t.node q) = false → isFile ((t.mkdir p).node q) = false := by
    intro q hq
    rcases FileTree.mkdir_cases t p q with hsame | ⟨-, hdir⟩
    · rw [hsame, hq]
    · rw [hdir, isFile_dir]
  refine ⟨?_, hnew _ h.dir, fun n => hnew _ (h.snapshot n), fun n m => ?_⟩
  · rw [FileTree.mkdir_of_ne_none (by rw [h.root]; exact Option.some_ne_none _), h.root]
  · rw [FileTree.mkdir_of_ne (hp n m).symm]
    exact h.file n m

theorem Tidy.write (h : Tidy t) (hw : t.write [snapshotsName, l, m] content = some t') :
    Tidy t' := by
  obtain ⟨hself, hother⟩ := FileTree.write_eq_some hw
  refine ⟨?_, ?_, fun n => ?_, fun n m' => ?_⟩
  · rw [hother [] (List.cons_ne_nil _ _).symm, h.root]
  · rw [hother _ (by simp), h.dir]
  · rw [hother _ (by simp), h.snapshot n]
  · by_cases hq : [snapshotsName, n, m'] = [snapshotsName, l, m]
    · rw [hq, hself, isDir_file]
    · rw [hother _ hq, h.file n m']

theorem Tidy.remove (h : Tidy t) (l : Bytes) : Tidy (t.remove [snapshotsName, l]) := by
  have hdir : ∀ q, isDir (t.node q) = false →
      isDir ((t.remove [snapshotsName, l]).node q) = false := by
    intro q hq
    rw [FileTree.remove_eq]
    split
    · rfl
    · exact hq
  have hfile : ∀ q, isFile (t.node q) = false →
      isFile ((t.remove [snapshotsName, l]).node q) = false := by
    intro q hq
    rw [FileTree.remove_eq]
    split
    · rfl
    · exact hq
  refine ⟨?_, hfile _ h.dir, fun n => hfile _ (h.snapshot n), fun n m => hdir _ (h.file n m)⟩
  rw [FileTree.remove_of_not (fun hpre => absurd (List.prefix_nil.mp hpre) (List.cons_ne_nil _ _)),
    h.root]

/-- The directories of a manifest are there. -/
theorem HasManifest.dirs (h : HasManifest t label) :
    t.node [snapshotsName] = some .dir ∧ t.node [snapshotsName, label] = some .dir := by
  have hnode : t.node [snapshotsName, label, manifestName label] ≠ none := by
    intro hnone
    rw [HasManifest, hnone] at h
    cases h
  exact ⟨FileTree.isDir_of_prefix hnode ⟨[label, manifestName label], rfl⟩ (by simp),
    FileTree.isDir_of_prefix hnode ⟨[manifestName label], rfl⟩ (by simp)⟩

theorem HasManifest.mkdir (h : HasManifest t label) (p : Path) : HasManifest (t.mkdir p) label := by
  rw [HasManifest, FileTree.mkdir_of_ne_none]
  · exact h
  · intro hnone
    rw [HasManifest, hnone] at h
    cases h

theorem HasManifest.write (h : HasManifest t label) (hw : t.write p content = some t') :
    HasManifest t' label := by
  obtain ⟨hself, hother⟩ := FileTree.write_eq_some hw
  by_cases hq : [snapshotsName, label, manifestName label] = p
  · rw [HasManifest, hq, hself, isFile_file]
  · rw [HasManifest, hother _ hq]
    exact h

theorem HasManifest.remove (h : HasManifest t label) (hne : label ≠ l) :
    HasManifest (t.remove [snapshotsName, l]) label := by
  rw [HasManifest, FileTree.remove_of_not]
  · exact h
  · intro hpre
    exact hne (List.cons_prefix_cons.mp (List.cons_prefix_cons.mp hpre).2).1.symm

end Tree

section Ops

variable {sh : Shell} {w w' : World} {kept : List Bytes} {label m content : Bytes}

/-- A file more in a kept snapshot. -/
theorem Inv.write (h : Inv ⟨w, kept⟩) (hm : w.mounted = true) (hl : label ∈ kept) (hcomp : IsComp m)
    (hw : w.writeFile (snapshotDir ++ slash :: (label ++ slash :: m)) content = some w') :
    Inv ⟨w', kept⟩ ∧ w'.mounted = true := by
  obtain ⟨hname, -, hmanifest⟩ := h.kept label hl
  obtain ⟨hdir, hsnap⟩ := hmanifest.dirs
  rw [writeFile_file hm h.base.root h.tidy.root hname hcomp hdir hsnap,
    Option.map_eq_some_iff] at hw
  obtain ⟨t, ht, rfl⟩ := hw
  refine ⟨⟨⟨h.base.hasDevice, h.base.root, h.base.point, h.base.empty⟩, h.tidy.write ht, ?_⟩, hm⟩
  intro l hl
  obtain ⟨hname, hlen, hl⟩ := h.kept l hl
  exact ⟨hname, hlen, hl.write ht⟩

/-- The partition is mounted: no snapshot changes. -/
theorem Inv.opened (h : Inv ⟨w, kept⟩) : Inv ⟨opened w, kept⟩ := by
  obtain ⟨hbase, -, hdisk, -⟩ := opened_spec h.base
  refine ⟨hbase, ?_, ?_⟩
  · rw [hdisk]
    exact h.tidy
  · rw [hdisk]
    exact h.kept

theorem mount_opened (h : Base w) (hm : w.mounted = false) :
    (w.mkdir recoveryMount).mount = .ok (opened w) := by
  have hmount := mount_mkdir h
  rw [hm, if_neg Bool.false_ne_true] at hmount
  rw [Recovery.opened, World.mountAnyway, hmount]

/-- The directories and the manifest of a snapshot can be made on a mounted partition. -/
theorem Inv.manifest (h : Inv ⟨w, kept⟩) (hm : w.mounted = true) (hname : IsName label)
    (hlen : label.length ≤ 233) :
    ∃ w', ((w.mkdir snapshotDir).mkdir (snapPath label)).writeFile
        (manifestPath (snapPath label)) manifestText = some w' ∧
      Inv ⟨w', label :: kept⟩ ∧ w'.mounted = true := by
  have htidy₁ : Tidy (w.disk.mkdir [snapshotsName]) := h.tidy.mkdir (by simp)
  have htidy₂ : Tidy ((w.disk.mkdir [snapshotsName]).mkdir [snapshotsName, label]) :=
    htidy₁.mkdir (by simp)
  have hdir₁ : (w.disk.mkdir [snapshotsName]).node [snapshotsName] = some .dir :=
    FileTree.mkdir_self h.tidy.dir (isDir_iff.mpr h.tidy.root) (List.cons_ne_nil _ _)
  have hdir₂ : ((w.disk.mkdir [snapshotsName]).mkdir [snapshotsName, label]).node
      [snapshotsName] = some .dir := by
    rw [FileTree.mkdir_of_ne_none (by rw [hdir₁]; exact Option.some_ne_none _), hdir₁]
  have hsnap₂ : ((w.disk.mkdir [snapshotsName]).mkdir [snapshotsName, label]).node
      [snapshotsName, label] = some .dir :=
    FileTree.mkdir_self (htidy₁.snapshot label) (isDir_iff.mpr hdir₁) (List.cons_ne_nil _ _)
  have hmkdir : (w.mkdir snapshotDir).mkdir (snapPath label) =
      { w with disk := (w.disk.mkdir [snapshotsName]).mkdir [snapshotsName, label] } := by
    rw [mkdir_snapshotDir hm h.base.root h.tidy.root]
    exact mkdir_snapPath hm h.base.root htidy₁.root hname (by omega) hdir₁
  obtain ⟨t, ht⟩ := FileTree.write_isSome manifestText
    (List.cons_ne_nil snapshotsName [label, manifestName label]) (isDir_iff.mpr hsnap₂)
    (htidy₂.file label (manifestName label))
  refine ⟨{ w with disk := t }, ?_, ⟨⟨h.base.hasDevice, h.base.root, h.base.point, h.base.empty⟩,
    htidy₂.write ht, ?_⟩, hm⟩
  · rw [hmkdir, manifestPath_eq hlen]
    refine (writeFile_file
      (w := { w with disk := (w.disk.mkdir [snapshotsName]).mkdir [snapshotsName, label] })
      hm h.base.root htidy₂.root hname (isComp_manifestName hlen) hdir₂ hsnap₂ _).trans ?_
    rw [ht]
    rfl
  · rw [List.forall_mem_cons]
    refine ⟨⟨hname, hlen, ?_⟩, fun l hl => ?_⟩
    · rw [HasManifest, (FileTree.write_eq_some ht).1, isFile_file]
    · obtain ⟨hname, hlen, hl⟩ := h.kept l hl
      exact ⟨hname, hlen, ((hl.mkdir _).mkdir _).write ht⟩

/-- A command that leaves a file in a kept snapshot, or nothing. -/
theorem Inv.command (h : Inv ⟨w, kept⟩) (hm : w.mounted = true) (hl : label ∈ kept)
    (hcomp : IsComp m) (hcmd : w' = w ∨ ∃ content,
      w.writeFile (snapPath label ++ slash :: m) content = some w') :
    Inv ⟨w', kept⟩ ∧ w'.mounted = true := by
  obtain ⟨-, hlen, -⟩ := h.kept label hl
  rcases hcmd with rfl | ⟨content, hw⟩
  · exact ⟨h, hm⟩
  · rw [snapPath_eq (by omega), List.append_assoc, List.cons_append] at hw
    exact h.write hm hl hcomp hw

/-- **A create on an unmounted partition succeeds.** -/
theorem create_unmounted (hsh : BacksUp sh) (h : Inv ⟨w, kept⟩) (hm : w.mounted = false)
    (hname : IsName label) (hlen : label.length ≤ 233) :
    ∃ w', createSnapshot sh label w = (0, w') ∧ Inv ⟨w', label :: kept⟩ ∧ w'.mounted = true := by
  obtain ⟨w₁, hw₁, hinv₁, hm₁⟩ := h.opened.manifest (opened_spec h.base).2.1 hname hlen
  obtain ⟨hinv₂, hm₂⟩ := hinv₁.command hm₁ List.mem_cons_self
    (show IsComp archiveName from ⟨by decide, by decide, by decide⟩) (hsh.tar label w₁ hname hlen)
  obtain ⟨hinv₃, hm₃⟩ := hinv₂.command hm₂ List.mem_cons_self
    (show IsComp (ascii "os-release") from ⟨by decide, by decide, by decide⟩)
    (hsh.cp label _ hname hlen)
  refine ⟨_, ?_, hinv₃, hm₃⟩
  unfold createSnapshot
  simp only
  rw [mount_opened h.base hm]
  simp only
  rw [hw₁]

/-- **A create on a mounted partition fails**, with EBUSY. -/
theorem create_mounted (h : Base w) (hm : w.mounted = true) :
    createSnapshot sh label w = (-16, w) := by
  have hmount := mount_mkdir h
  rw [hm, if_pos rfl] at hmount
  unfold createSnapshot
  simp only
  rw [hmount, mkdir_mount_mounted hm]
  rfl

theorem Spares.refl (w : World) : Spares w w := ⟨rfl, rfl, rfl, rfl, fun _ => rfl⟩

theorem Spares.trans {w'' : World} (h : Spares w w') (h' : Spares w' w'') : Spares w w'' :=
  ⟨h'.disk.trans h.disk, h'.hasDevice.trans h.hasDevice, h'.mounted.trans h.mounted,
    h'.root.trans h.root, fun r => (h'.point r).trans (h.point r)⟩

theorem Inv.spared (h : Inv ⟨w, kept⟩) (hs : Spares w w') : Inv ⟨w', kept⟩ := by
  refine ⟨⟨hs.hasDevice.trans h.base.hasDevice, hs.root.trans h.base.root, ?_, ?_⟩, ?_, ?_⟩
  · rw [hs.point]
    exact h.base.point
  · intro n r
    rw [hs.point]
    exact h.base.empty n r
  · rw [hs.disk]
    exact h.tidy
  · rw [hs.disk]
    exact h.kept

/-- The lines of a manifest of the persist partition. -/
theorem restoreLines_spares (hsh : BacksUp sh) (hname : IsName label) (hlen : label.length ≤ 233)
    {lines : List Bytes}
    (hlines : ∀ line ∈ lines, ∀ e ∈ scanEntry line, e = (persistPartition, archiveName))
    (errors : Nat) (w : World) :
    Spares w (restoreLines sh (snapPath label) lines (errors, w)).2 := by
  induction lines generalizing errors w with
  | nil => exact Spares.refl w
  | cons line lines ih =>
    rw [List.forall_mem_cons] at hlines
    rw [restoreLines]
    cases hscan : scanEntry line with
    | none => exact ih hlines.2 errors w
    | some e =>
      obtain rfl := hlines.1 e hscan
      exact (hsh.reimage label w hname hlen).trans (ih hlines.2 _ _)

/-- **A restore on an unmounted partition finds nothing**: it looks before it mounts. -/
theorem restore_unmounted (h : Base w) (hm : w.mounted = false) (hname : IsName label)
    (hlen : label.length ≤ 233) : restoreSnapshot sh label w = (-1, w) := by
  have hexist : w.exist (snapPath label) = false := by
    unfold World.exist
    split
    · next p hp =>
      rw [snapPath_eq (by omega), resolve_snapshotDir h.root, hname.comps, walk,
        look_of_not_mounted hm, look_of_not_mounted hm, h.empty] at hp
      split at hp <;> cases hp
    · rfl
  rw [restoreSnapshot, hexist]
  rfl

/-- **A restore on a mounted partition finds a kept snapshot.** -/
theorem restore_mounted (h : Inv ⟨w, kept⟩) (hm : w.mounted = true) (hl : label ∈ kept) :
    0 ≤ (restoreSnapshot sh label w).1 := by
  obtain ⟨hname, hlen, hmanifest⟩ := h.kept label hl
  obtain ⟨hdir, hsnap⟩ := hmanifest.dirs
  have hresolve :=
    resolve_snapPath hm h.base.root h.tidy.root hname (show label.length ≤ 235 by omega)
  have hexist : w.exist (snapPath label) = true := by
    rw [World.exist, hresolve, hdir, isDir_dir, if_pos rfl]
    simp only
    rw [look_mounted hm, hsnap]
    rfl
  have hread : ∃ text, w.readFile (manifestPath (snapPath label)) = some text := by
    rw [manifestPath_eq hlen, World.readFile, resolve_file hm h.base.root h.tidy.root hname
      (isComp_manifestName hlen) hdir hsnap]
    simp only
    rw [look_mounted hm]
    rw [HasManifest] at hmanifest
    cases hnode : w.disk.node [snapshotsName, label, manifestName label] with
    | none =>
      rw [hnode] at hmanifest
      cases hmanifest
    | some v => cases v <;> exact ⟨_, rfl⟩
  obtain ⟨text, htext⟩ := hread
  rw [restoreSnapshot]
  simp only
  rw [hexist, if_pos rfl, (opened_spec h.base).2.2.2 hm, htext]
  exact Int.natCast_nonneg _

theorem Inv.restore (hsh : BacksUp sh) (h : Inv ⟨w, kept⟩) (hname : IsName label)
    (hlen : label.length ≤ 233) (honly : PersistOnly w label) :
    Inv ⟨(restoreSnapshot sh label w).2, kept⟩ := by
  rw [restoreSnapshot]
  simp only
  split
  · split
    · exact h.opened
    · next text htext =>
      exact h.opened.spared (restoreLines_spares hsh hname hlen (honly text htext) 0 _)
  · exact h

/-- A snapshot that is deleted, by its own name. -/
theorem Inv.delete (h : Inv ⟨w, kept⟩) (hname : IsName label) (hlen : label.length ≤ 228) :
    Inv ⟨(deleteSnapshot sh label w).2, kept.filter (· ≠ label)⟩ := by
  obtain ⟨hplain, hoperands⟩ := hname.deleteCommand hlen
  obtain ⟨-, hm, -, -⟩ := opened_spec h.base
  have hopened := h.opened
  have hrun : (deleteSnapshot sh label w).2 =
      rmOperand (Recovery.opened w) (snapshotDir ++ slash :: label) := by
    rw [deleteSnapshot, sh.rm _ _ hplain, hoperands]
    rfl
  have hfew : Inv ⟨Recovery.opened w, kept.filter (· ≠ label)⟩ :=
    ⟨hopened.base, hopened.tidy, fun l hl => hopened.kept l (List.mem_filter.mp hl).1⟩
  have hresolve := resolve_mounted hm hopened.base.root hopened.tidy.root label
  rw [hrun, rmOperand, hname.refused, if_neg Bool.false_ne_true, hresolve, hname.comps, walk]
  split
  · exact hfew
  · next p hp =>
    split at hp
    · obtain rfl := Option.some.inj hp
      split
      · exact hfew
      · change Inv ⟨(Recovery.opened w).edit [recoveryName, snapshotsName, label] removeAt, _⟩
        rw [edit_mounted hm, removeAt, if_neg (List.cons_ne_nil _ _)]
        refine ⟨⟨hopened.base.hasDevice, hopened.base.root, hopened.base.point,
          hopened.base.empty⟩, hopened.tidy.remove label, fun l hl => ?_⟩
        obtain ⟨hl, hne⟩ := List.mem_filter.mp hl
        obtain ⟨hname, hlen, hmanifest⟩ := hopened.kept l hl
        exact ⟨hname, hlen, hmanifest.remove (by simpa using hne)⟩
    · cases hp

/-! ## The runs -/

theorem listSnapshots_world (printed : Option Bytes) (w : World) :
    (listSnapshots printed w).2 = opened w := by
  unfold listSnapshots
  cases printed with
  | none => rfl
  | some out =>
    simp only
    split <;> rfl

/-- What holds before a call holds after it. -/
theorem Inv.step (hsh : BacksUp sh) {s s' : State} {op : Op} (h : Inv s) (hop : Ordinary s op)
    (hs : step sh s op = some s') : Inv s' := by
  cases op with
  | create label =>
    obtain ⟨hname, hlen⟩ := hop
    cases hm : s.world.mounted with
    | true =>
      simp only [Recovery.step, create_mounted h.base hm, Option.some.injEq] at hs
      rw [if_neg (by decide)] at hs
      rw [← hs]
      exact h
    | false =>
      obtain ⟨w', hcreate, hinv, -⟩ := create_unmounted hsh h hm hname hlen
      simp only [Recovery.step, hcreate, Option.some.injEq, if_true] at hs
      rw [← hs]
      exact hinv
  | list printed =>
    rw [Recovery.step, listSnapshots_world] at hs
    rw [← Option.some.inj hs]
    exact h.opened
  | delete label =>
    rw [← Option.some.inj hs]
    exact h.delete hop.1 hop.2
  | restore label =>
    rw [← Option.some.inj hs]
    exact h.restore hsh hop.1 hop.2.1 hop.2.2
  | reboot =>
    rw [← Option.some.inj hs]
    exact ⟨h.base.reboot, h.tidy, h.kept⟩

/-- An ordinary call is lawful exactly when it is in order. -/
theorem lawful_iff (hsh : BacksUp sh) {s : State} {op : Op} (h : Inv s) (hop : Ordinary s op) :
    Lawful sh s op ↔ InOrder s op := by
  cases op with
  | create label =>
    rw [Lawful, InOrder]
    cases hm : s.world.mounted with
    | true =>
      rw [create_mounted h.base hm]
      exact iff_of_false (show (-16 : Int) ≠ 0 by decide) Bool.true_eq_false_eq_False.elim
    | false =>
      obtain ⟨w', hcreate, -⟩ := create_unmounted hsh h hm hop.1 hop.2
      rw [hcreate]
      exact iff_of_true rfl rfl
  | restore label =>
    rw [Lawful, InOrder]
    refine forall_congr' (fun hl => ?_)
    cases hm : s.world.mounted with
    | true => exact iff_of_true (restore_mounted h hm hl) rfl
    | false =>
      rw [restore_unmounted h.base hm hop.1 hop.2.1]
      exact iff_of_false (show ¬ (0 : Int) ≤ -1 by decide) Bool.false_ne_true
  | list printed => exact Iff.rfl
  | delete label => exact Iff.rfl
  | reboot => exact Iff.rfl

theorem Start.inv {s : State} (h : Start s) : Inv s :=
  ⟨h.base, h.tidy, fun _ hl => absurd hl (h.kept ▸ List.not_mem_nil)⟩

/-- **The snapshot lifecycle.** A run of ordinary calls in order is lawful: every create succeeds,
and every restore finds a snapshot that was created and not deleted since. A lawful run of ordinary
calls is in order. -/
theorem lifecycle (hsh : BacksUp sh) {s : State} (h : Start s) (ops : List Op) :
    (Meets (step sh) (fun s op => Ordinary s op ∧ InOrder s op) s ops →
        Meets (step sh) (Lawful sh) s ops) ∧
      (Meets (step sh) Ordinary s ops → Meets (step sh) (Lawful sh) s ops →
        Meets (step sh) InOrder s ops) := by
  refine ⟨fun hmeets => ?_, fun hordinary hlawful => ?_⟩
  · refine Meets.of_invariant (I := Inv) (fun s op hi hop => ?_) (fun s op s' hi hop hs => ?_) h.inv
      hmeets
    · exact (lawful_iff hsh hi hop.1).mpr hop.2
    · exact hi.step hsh hop.1 hs
  · refine Meets.of_invariant (I := Inv) (fun s op hi hop => ?_) (fun s op s' hi hop hs => ?_) h.inv
      (meets_and hordinary hlawful)
    · exact (lawful_iff hsh hi hop.1).mp hop.2
    · exact hi.step hsh hop.1 hs

end Ops

/-! ## A shell -/

section Example

variable {w : World} {label : Bytes}

/-- A shell that knows the commands of the snapshot functions: `tar` and `cp` leave a file under
their third word, and a re-image makes its mount point. -/
def Shell.backing : Shell where
  run cmd w :=
    if PlainRm cmd then (0, Recovery.rm (operands cmd) w)
    else
      match words cmd with
      | c :: _ :: path :: _ =>
        if c = ascii "tar" ∨ c = ascii "cp" then (0, (w.writeFile path (ascii "backup")).getD w)
        else if c = ascii "mkfs.ext4" then
          (0, (w.mkdir (ascii "/tmp")).mkdir (ascii "/tmp/reimage"))
        else (0, w)
      | _ => (0, w)
  rm cmd w h := by rw [if_pos h]

/-- A command of three words at least, the first not `rm`. -/
theorem backing_run {c a path : Bytes} {rest : List Bytes} {cmd : Bytes}
    (hwords : words cmd = c :: a :: path :: rest) (hc : c ≠ ascii "rm") (w : World) :
    Shell.backing.run cmd w =
      if c = ascii "tar" ∨ c = ascii "cp" then (0, (w.writeFile path (ascii "backup")).getD w)
      else if c = ascii "mkfs.ext4" then
        (0, (w.mkdir (ascii "/tmp")).mkdir (ascii "/tmp/reimage"))
      else (0, w) := by
  have hplain : ¬ PlainRm cmd := by
    intro h
    have hrm := h.rm
    rw [hwords] at hrm
    exact hc (List.cons.inj hrm).1
  simp only [Shell.backing, if_neg hplain, hwords]

/-- A command of `tar` or `cp` leaves a file, or nothing. -/
theorem backing_file {c a path rest cmd : Bytes} (hc : c = ascii "tar" ∨ c = ascii "cp")
    (hcmd : cmd = c ++ blank :: (a ++ blank :: (path ++ blank :: rest)))
    (ha : a ≠ [] ∧ ∀ b ∈ a, b ≠ blank ∧ b ≠ 0x09)
    (hpath : path ≠ [] ∧ ∀ b ∈ path, b ≠ blank ∧ b ≠ 0x09) (w : World) :
    (Shell.backing.run cmd w).2 = w ∨
      ∃ content, w.writeFile path content = some (Shell.backing.run cmd w).2 := by
  have hword : c ≠ ascii "rm" ∧ c ≠ [] ∧ ∀ b ∈ c, b ≠ blank ∧ b ≠ 0x09 := by
    rcases hc with rfl | rfl <;> decide
  have hwords : words cmd = c :: a :: path :: words rest := by
    rw [hcmd, words_append hword.2.1 hword.2.2, words_append ha.1 ha.2,
      words_append hpath.1 hpath.2]
  rw [backing_run hwords hword.1, if_pos hc]
  cases hw : w.writeFile path (ascii "backup") with
  | none => exact Or.inl rfl
  | some w' => exact Or.inr ⟨_, hw⟩

/-- A directory that is made outside the mount point. -/
theorem spares_mkdir {s : Bytes} (n : Bytes) (names : List Bytes) (habs : isAbsolute s = true)
    (hcomps : comps (s.rdropWhile (· == slash)) = .here :: (n :: names).map .name)
    (hne : n ≠ recoveryName) (w : World) : Spares w (w.mkdir s) := by
  unfold World.mkdir
  rw [hcomps, World.start, habs, if_pos rfl]
  split
  · next p hp =>
    obtain rfl : p = n :: names := (walk_eq_some_iff.mp hp).1.trans (goTo_names [] (n :: names))
    have hplace : w.place (n :: names) = none := if_neg (fun h => hne h.2)
    rw [World.edit, hplace]
    refine ⟨rfl, rfl, rfl, FileTree.mkdir_of_ne (List.cons_ne_nil _ _).symm, fun r => ?_⟩
    exact FileTree.mkdir_of_ne (fun he => hne (List.cons.inj he).1.symm)
  · exact Spares.refl w

/-- A command of another program changes nothing but outside the mount point. -/
theorem backing_spares {c rest cmd : Bytes} (hcmd : cmd = (c ++ blank :: rest).take 511)
    (hlen : c.length < 511 ∧ c ≠ [] ∧ ∀ b ∈ c, b ≠ blank ∧ b ≠ 0x09)
    (hc : c ∉ [ascii "rm", ascii "tar", ascii "cp"]) (w : World) :
    Spares w (Shell.backing.run cmd w).2 := by
  obtain ⟨hlen, hne, hbyte⟩ := hlen
  obtain ⟨k, hk⟩ : ∃ k, 511 - c.length = k + 1 := ⟨510 - c.length, by omega⟩
  have hwords : words cmd = c :: words (rest.take k) := by
    rw [hcmd, List.take_append, List.take_of_length_le hlen.le, hk, List.take_succ_cons,
      words_append hne hbyte]
  simp only [List.mem_cons, List.not_mem_nil, or_false, not_or] at hc
  have hplain : ¬ PlainRm cmd := by
    intro h
    have hrm := h.rm
    rw [hwords] at hrm
    exact hc.1 (List.cons.inj hrm).1
  have hmkdirs : Spares w ((w.mkdir (ascii "/tmp")).mkdir (ascii "/tmp/reimage")) :=
    (spares_mkdir (ascii "tmp") [] rfl (by decide) (by decide) w).trans
      (spares_mkdir (ascii "tmp") [ascii "reimage"] rfl (by decide) (by decide) _)
  simp only [Shell.backing, if_neg hplain, hwords]
  split
  · next hsplit =>
    obtain ⟨rfl, -⟩ := List.cons.inj hsplit
    rw [if_neg (not_or.mpr hc.2)]
    split
    · exact hmkdirs
    · exact Spares.refl w
  · exact Spares.refl w

/-- A command between whose front and back the path of the snapshot stands, as `tar` and `cp` have
it. -/
theorem backing_snapshot {c a m rest front back : Bytes} (hc : c = ascii "tar" ∨ c = ascii "cp")
    (hfront : front = c ++ blank :: (a ++ [blank])) (hback : back = slash :: m ++ blank :: rest)
    (ha : a ≠ [] ∧ ∀ b ∈ a, b ≠ blank ∧ b ≠ 0x09) (hm : ∀ b ∈ m, b ≠ blank ∧ b ≠ 0x09)
    (hfits : front.length + back.length ≤ 256) (hname : IsName label) (hlen : label.length ≤ 233)
    (w : World) :
    (Shell.backing.run ((front ++ snapPath label ++ back).take 511) w).2 = w ∨
      ∃ content, w.writeFile (snapPath label ++ slash :: m) content =
        some (Shell.backing.run ((front ++ snapPath label ++ back).take 511) w).2 := by
  have hlength : (snapPath label).length ≤ 255 := List.length_take_le 255 _
  have hcmd : (front ++ snapPath label ++ back).take 511 =
      c ++ blank :: (a ++ blank :: ((snapPath label ++ slash :: m) ++ blank :: rest)) := by
    rw [List.take_of_length_le, hfront, hback]
    · simp only [List.append_assoc, List.cons_append, List.nil_append]
    · rw [List.length_append, List.length_append]
      omega
  have hpath : ∀ b ∈ snapPath label ++ slash :: m, b ≠ blank ∧ b ≠ 0x09 := by
    intro b hb
    rw [snapPath_eq (by omega)] at hb
    rcases List.mem_append.mp hb with hb | hb
    · exact hname.path_byte b hb
    · rcases List.mem_cons.mp hb with rfl | hb
      · decide
      · exact hm b hb
  exact backing_file hc hcmd ha
    ⟨List.append_ne_nil_of_right_ne_nil _ (List.cons_ne_nil _ _), hpath⟩ w

theorem backing_backsUp : BacksUp Shell.backing := by
  refine ⟨fun label w hname hlen => ?_, fun label w hname hlen => ?_, fun label w hname hlen => ?_⟩
  · have hfront : ascii "tar czf " = ascii "tar" ++ blank :: (ascii "czf" ++ [blank]) := by
      decide
    have hback : ascii "/persist.tar.gz -C /persist . 2>/dev/null" =
        slash :: archiveName ++ blank :: ascii "-C /persist . 2>/dev/null" := by decide
    exact backing_snapshot (Or.inl rfl) hfront hback ⟨by decide, by decide⟩
      (by decide) (by decide) hname hlen w
  · have hfront : ascii "cp /etc/os-release " =
        ascii "cp" ++ blank :: (ascii "/etc/os-release" ++ [blank]) := by decide
    have hback : ascii "/os-release 2>/dev/null" =
        slash :: ascii "os-release" ++ blank :: ascii "2>/dev/null" := by decide
    exact backing_snapshot (Or.inr rfl) hfront hback ⟨by decide, by decide⟩
      (by decide) (by decide) hname hlen w
  · unfold reimage reimageCommand
    dsimp only
    split
    · exact backing_spares (c := ascii "mkfs.ext4") rfl (by decide) (by decide) w
    · exact backing_spares (c := ascii "dd") rfl (by decide) (by decide) w

/-- Nothing is mounted, and the partition is empty. -/
def freshState : State where
  world :=
    { root := FileTree.ofPaths [[]], disk := FileTree.ofPaths [[]], hasDevice := true,
      mounted := false, cwd := [] }
  kept := []

theorem freshState_start : Start freshState := by
  have hnone : ∀ n : Bytes, ∀ r : Path,
      (FileTree.ofPaths [[]] : Tree).node (n :: r) = none := by
    intro n r
    rw [FileTree.ofPaths_eq, if_neg]
    intro h
    obtain ⟨v, hv, hpre⟩ := h
    rw [List.mem_singleton.mp hv, List.prefix_nil] at hpre
    exact List.cons_ne_nil n r hpre
  refine ⟨⟨rfl, rfl, congrArg isFile (hnone _ _), fun n r => hnone _ _⟩, ⟨rfl, ?_, ?_, ?_⟩, rfl⟩
  · exact congrArg isFile (hnone _ _)
  · exact fun n => congrArg isFile (hnone _ _)
  · exact fun n m => congrArg isDir (hnone _ _)

def label₁ : Bytes := ascii "pre-update"

/-- A snapshot that is created, restored and deleted. -/
theorem freshState_lifecycle : Meets (step Shell.backing) (Lawful Shell.backing) freshState
    [.create label₁, .restore label₁, .delete label₁] :=
  (lifecycle backing_backsUp freshState_start _).1 (by decide)

/-- A second create before a reboot fails. -/
theorem secondCreate_fails : ¬ Meets (step Shell.backing) (Lawful Shell.backing) freshState
    [.create label₁, .create (ascii "update")] := by
  rintro ⟨-, hnext⟩
  have hname : IsName label₁ ∧ label₁.length ≤ 233 := by decide
  obtain ⟨w', hcreate, hinv, hm⟩ : ∃ w', createSnapshot Shell.backing label₁ freshState.world =
      (0, w') ∧ Inv ⟨w', [label₁]⟩ ∧ w'.mounted = true :=
    create_unmounted backing_backsUp freshState_start.inv rfl hname.1 hname.2
  have hs : step Shell.backing freshState (.create label₁) = some ⟨w', [label₁]⟩ := by
    rw [step, hcreate]
    rfl
  have hlawful : (createSnapshot Shell.backing (ascii "update") w').1 = 0 := (hnext _ hs).1
  rw [create_mounted hinv.base hm] at hlawful
  exact absurd hlawful (show (-16 : Int) ≠ 0 by decide)

end Example

end Recovery
end BuildingBlocks
