import BuildingBlocks.Lib.Layout
import BuildingBlocks.Lib.Stream

/-!
# BuildingBlocks.Update.Package

The `.bbu` package of `tools/bb-update/bb_update.c`: magic, version, manifest, and the gzipped tar
archive of the payload files.

* `Manifest` is the C struct with its padding, `manifestLayout` its 344 bytes.
* `updateCreate` writes the header through a stdio stream while a child process appends the archive
  to the same file.
* `readManifest` and `updateVerify` read the header back, `extractInput` is what the installer pipes
  into tar.
-/

namespace BuildingBlocks
namespace Update

abbrev Bytes := List UInt8

/-- `BB_UPDATE_MAGIC`. -/
def updateMagic : Nat := 0x42554842

/-- `BB_UPDATE_VERSION`. -/
def updateVersion : Nat := 1

/-- `bb_update_manifest_t`, with the padding before `timestamp` and at the end. -/
structure Manifest where
  fromVersion : Vector UInt8 32
  toVersion : Vector UInt8 32
  targetSlot : UInt8
  product : Vector UInt8 64
  pad0 : Vector UInt8 7
  timestamp : UInt64
  bootSha256 : Vector UInt8 65
  rootfsSha256 : Vector UInt8 65
  postinstallSha256 : Vector UInt8 65
  pad1 : Vector UInt8 5
deriving DecidableEq

open Layout in
def manifestLayout : Layout Manifest :=
  ((bytes 32).pair <| (bytes 32).pair <| byte.pair <| (bytes 64).pair <| (bytes 7).pair <|
    (le 8).pair <| (bytes 65).pair <| (bytes 65).pair <| (bytes 65).pair <| bytes 5).map
    (fun m => (m.fromVersion, m.toVersion, m.targetSlot, m.product, m.pad0, m.timestamp.toBitVec,
      m.bootSha256, m.rootfsSha256, m.postinstallSha256, m.pad1))
    (fun (f, t, s, p, q, ts, b, r, i, e) => {
      fromVersion := f
      toVersion := t
      targetSlot := s
      product := p
      pad0 := q
      timestamp := UInt64.ofBitVec ts
      bootSha256 := b
      rootfsSha256 := r
      postinstallSha256 := i
      pad1 := e })
    (fun _ => rfl)

/-- `sizeof(bb_update_manifest_t)`. -/
theorem manifestLayout_size : manifestLayout.size = 344 := rfl

/-- `sizeof(uint32_t) * 2 + sizeof(bb_update_manifest_t)`. -/
def headerSize : Nat := 4 * 2 + manifestLayout.size

/-- The magic, the version and the manifest as they stand in the file. -/
def header (m : Manifest) : Bytes :=
  leBytes 4 updateMagic ++ leBytes 4 updateVersion ++ manifestLayout.put m

/-! ## Reading -/

/-- The check both readers make: the first four bytes are there and are the magic. -/
def magicOk (file : Bytes) : Bool :=
  4 ≤ file.length && leValue (file.take 4) == updateMagic

/-- `bb_update_verify`: `none` is a file that does not open. -/
def updateVerify (file : Option Bytes) : Int :=
  match file with
  | none => -1
  | some bytes => if magicOk bytes then 0 else -1

/-- `bb_update_read_manifest` into an object that holds `old`; `none` stands for -1. -/
def readManifest (file : Option Bytes) (old : Manifest) : Option Manifest :=
  match file with
  | none => none
  | some bytes =>
    if magicOk bytes then some (manifestLayout.load old ((bytes.drop 4).drop 4)) else none

/-- `tail -c +N`. -/
def tailFrom (n : Nat) (file : Bytes) : Bytes := file.drop (n - 1)

/-- What the extraction of `bb_update_install` pipes into `tar xzf -`. -/
def extractInput (file : Bytes) : Bytes := tailFrom headerSize file

/-! ## Creation -/

/-- The payload files: `boot_tar` and `postinstall` may be missing. -/
structure Payload where
  bootTar : Option Bytes
  rootfsTar : Bytes
  postinstall : Option Bytes

/-- The files copied into the temporary directory. -/
def Payload.files (p : Payload) : List (String × Bytes) :=
  (p.bootTar.map (fun b => ("boot.tar.gz", b))).toList ++ [("rootfs.tar.gz", p.rootfsTar)] ++
    (p.postinstall.map (fun b => ("post-install.sh", b))).toList

/-- `bb_update_create` once the output is open: its result and the file it leaves. `tarGz` is what
`tar czf -` prints for a directory. -/
def updateCreate (tarGz : List (String × Bytes) → Bytes) (mkdtempOk : Bool) (m : Manifest)
    (p : Payload) : Int × Bytes :=
  let out := Stream.create
  let out := out.write (leBytes 4 updateMagic)
  let out := out.write (leBytes 4 updateVersion)
  let out := out.write (manifestLayout.put m)
  if mkdtempOk then
    -- the child appends to the file, the header is still in the buffer
    let out := out.append (tarGz p.files)
    (0, out.close)
  else (-1, out.close)

section Create

variable {tarGz : List (String × Bytes) → Bytes} {m : Manifest} {p : Payload}

theorem headerSize_eq : headerSize = 352 := rfl

@[simp] theorem length_header : (header m).length = headerSize := by
  simp [header, headerSize_eq, manifestLayout_size]

/-- The header fits the buffer, so nothing is written before the archive is. -/
theorem updateCreate_file :
    (updateCreate tarGz true m p).2 = header m ++ (tarGz p.files).drop headerSize := by
  have h1 : Stream.create.write (leBytes 4 updateMagic) =
      { Stream.create with buf := leBytes 4 updateMagic } := by
    rw [Stream.write_of_le (by simp [Stream.create, bufSize])]
    rfl
  have h2 : ({ Stream.create with buf := leBytes 4 updateMagic } : Stream).write
      (leBytes 4 updateVersion) =
      { Stream.create with buf := leBytes 4 updateMagic ++ leBytes 4 updateVersion } := by
    rw [Stream.write_of_le (by simp [bufSize])]
  have h3 : ({ Stream.create with
      buf := leBytes 4 updateMagic ++ leBytes 4 updateVersion } : Stream).write
      (manifestLayout.put m) = { Stream.create with buf := header m } := by
    rw [Stream.write_of_le (by simp [bufSize, manifestLayout_size])]
    rfl
  simp only [updateCreate, if_true, h1, h2, h3]
  rw [Stream.close_append, length_header]

theorem magicOk_header (rest : Bytes) : magicOk (header m ++ rest) = true := by
  have htake : (header m ++ rest).take 4 = leBytes 4 updateMagic := by
    simp [header]
  have hval : leValue (leBytes 4 updateMagic) = updateMagic := by
    rw [leValue_leBytes]
    decide
  simp only [magicOk, htake, hval, List.length_append, length_header, headerSize_eq]
  simp
  omega

theorem load_header (old : Manifest) (rest : Bytes) :
    manifestLayout.load old (((header m ++ rest).drop 4).drop 4) = m := by
  have hdrop : ((header m ++ rest).drop 4).drop 4 = manifestLayout.put m ++ rest := by
    simp [header]
  rw [hdrop, Layout.load_put]

/-- The manifest is read back from any file that starts with its header. -/
theorem readManifest_header (rest : Bytes) (old : Manifest) :
    readManifest (some (header m ++ rest)) old = some m := by
  simp only [readManifest, magicOk_header, if_true, load_header]

/-- The last byte of the header and what is left of the archive after its first 352 bytes. -/
theorem length_extractInput_updateCreate :
    (extractInput (updateCreate tarGz true m p).2).length =
      1 + ((tarGz p.files).length - headerSize) := by
  rw [updateCreate_file]
  simp only [extractInput, tailFrom, List.length_drop, List.length_append, length_header,
    headerSize_eq]
  omega

end Create

/-- A package that installs: the manifest is read back, and tar is fed the archive that was made. -/
def RoundTrip (tarGz : List (String × Bytes) → Bytes) (m : Manifest) (p : Payload) : Prop :=
  (∀ old, readManifest (some (updateCreate tarGz true m p).2) old = some m) ∧
    extractInput (updateCreate tarGz true m p).2 = tarGz p.files

/-- **No package round-trips.** The header overwrites the start of the archive, and the cut leaves
the last byte of the header in front; `tar czf -` starts with the two bytes of gzip. -/
theorem not_roundTrip (tarGz : List (String × Bytes) → Bytes)
    (hgz : ∀ files, [0x1f, 0x8b] <+: tarGz files) (m : Manifest) (p : Payload) :
    ¬ RoundTrip tarGz m p := by
  rintro ⟨-, hextract⟩
  have hlen := congrArg List.length hextract
  rw [length_extractInput_updateCreate, headerSize_eq] at hlen
  have hgz2 := (hgz p.files).length_le
  simp only [List.length_cons, List.length_nil] at hgz2
  omega

/-- The 132 bytes of `tar czf -` for a directory with an empty `rootfs.tar.gz`. -/
def emptyRootfsTgz : Bytes :=
  [0x1f, 0x8b, 0x08, 0x00, 0x00, 0x00, 0x00, 0x00, 0x00, 0x03, 0xed, 0xd1, 0x31, 0x0e, 0x80, 0x20,
    0x0c, 0x85, 0xe1, 0x1e, 0x85, 0x13, 0x00, 0x8a, 0xc8, 0x79, 0x5c, 0x74, 0x34, 0x01, 0x5d, 0x3c,
    0xbd, 0xe8, 0x48, 0x8c, 0xba, 0x30, 0x18, 0xff, 0x6f, 0x29, 0x49, 0x9b, 0x50, 0x78, 0xda, 0x48,
    0x75, 0x36, 0x0b, 0xde, 0x9f, 0x35, 0x2b, 0xeb, 0xc5, 0x39, 0xf4, 0xbe, 0x15, 0xe5, 0xeb, 0xaf,
    0x26, 0xb2, 0xa6, 0x65, 0x88, 0x4a, 0x49, 0x9c, 0xe7, 0xe5, 0x6e, 0xee, 0xa9, 0xff, 0x51, 0xda,
    0x1c, 0x0f, 0x1b, 0x93, 0xce, 0xbf, 0xa0, 0xa7, 0xad, 0xca, 0x1d, 0x47, 0xa8, 0x7d, 0xd7, 0xbd,
    0xcf, 0xbf, 0x69, 0x9d, 0x75, 0xa2, 0x6c, 0x95, 0x6d, 0x0a, 0x3f, 0xcf, 0x1f, 0x00, 0x00, 0x00,
    0x00, 0x00, 0x00, 0x00, 0x00, 0x00, 0x00, 0x00, 0x00, 0xc0, 0x77, 0xed, 0x18, 0x44, 0x1b, 0x70,
    0x00, 0x28, 0x00, 0x00]

/-- The manifest `bb-update create` starts from, with the slot left to the installer. -/
def Manifest.zero : Manifest where
  fromVersion := Vector.replicate 32 0
  toVersion := Vector.replicate 32 0
  targetSlot := 0x3d
  product := Vector.replicate 64 0
  pad0 := Vector.replicate 7 0
  timestamp := 0
  bootSha256 := Vector.replicate 65 0
  rootfsSha256 := Vector.replicate 65 0
  postinstallSha256 := Vector.replicate 65 0
  pad1 := Vector.replicate 5 0

def Payload.emptyRootfs : Payload := { bootTar := none, rootfsTar := [], postinstall := none }

theorem not_roundTrip_emptyRootfs :
    ¬ RoundTrip (fun _ => emptyRootfsTgz) Manifest.zero Payload.emptyRootfs :=
  not_roundTrip (fun _ => emptyRootfsTgz) (fun _ => by decide) Manifest.zero Payload.emptyRootfs

/-- Here nothing of the archive is left: tar is fed one zero byte. -/
theorem archive_lost :
    extractInput (updateCreate (fun _ => emptyRootfsTgz) true Manifest.zero
        Payload.emptyRootfs).2 = [0] ∧
      ¬ RoundTrip (fun _ => emptyRootfsTgz) Manifest.zero Payload.emptyRootfs := by
  have h : extractInput (updateCreate (fun _ => emptyRootfsTgz) true Manifest.zero
      Payload.emptyRootfs).2 = [0] := by
    rw [updateCreate_file]
    rfl
  refine ⟨h, ?_⟩
  intro hr
  have hne := hr.2
  rw [h] at hne
  exact absurd hne (by decide)

end Update
end BuildingBlocks
