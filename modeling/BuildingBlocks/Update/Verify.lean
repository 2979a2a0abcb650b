import BuildingBlocks.Update.Target

/-!
# BuildingBlocks.Update.Verify

What an accepted package is, and what it should be.

* `Sound` is the purpose of the verification: magic, version, a whole manifest, and the payloads
  whose digests it records, none missing. SHA-256 and what tar finds in a package are parameters.
* `formats_iff` — the installer formats exactly when both readers accept, which they do on the
  magic alone.
* `verifySound_iff` — so the verification keeps its word for the files without the magic, and for
  those that are laid out as `bb_update_create` does it, with a manifest made for their payload.
-/

namespace BuildingBlocks
namespace Update

open Boot Layout

/-! ## Sound packages -/

/-- The payload files tar finds in a package. -/
structure Carried where
  bootTar : Option Bytes
  rootfsTar : Option Bytes
  postinstall : Option Bytes
deriving DecidableEq, Repr

/-- A digest field is that of the file, and empty if there is none. -/
def Records (sha256 : Bytes → Bytes) (digest : Bytes) : Option Bytes → Prop
  | some file => sha256 file = digest
  | none => digest = []

/-- No payload is altered, and none is missing: each field records its file, and a package without
a root file system is cut off. -/
structure Digests (sha256 : Bytes → Bytes) (m : Manifest) (files : Carried) : Prop where
  boot : Records sha256 (cstr m.bootSha256.toList) files.bootTar
  rootfs : Records sha256 (cstr m.rootfsSha256.toList) files.rootfsTar
  postinstall : Records sha256 (cstr m.postinstallSha256.toList) files.postinstall
  whole : files.rootfsTar ≠ none

structure Sound (sha256 : Bytes → Bytes) (carried : Bytes → Carried)
    (file : Bytes) : Prop where
  magic : leValue (file.take 4) = updateMagic
  version : leValue ((file.drop 4).take 4) = updateVersion
  manifest : headerSize ≤ file.length
  digests : ∀ old m, readManifest (some file) old = some m → Digests sha256 m (carried file)

/-- A partition is formatted. -/
def Formats (w : World) : Prop := ∃ p, Cmd.mkfsVfat p ∈ w.cmds ∨ Cmd.mkfsExt4 p ∈ w.cmds

/-- What `bb_update_verify` is for: what it accepts is sound, and so is what gets a partition
formatted. -/
structure VerifySound (sha256 : Bytes → Bytes) (carried : Bytes → Carried)
    (file : Bytes) : Prop where
  verify : updateVerify (some file) = 0 → Sound sha256 carried file
  install : ∀ board cmdline r e, Formats (updateInstall board file cmdline r (World.start e)).2 →
    Sound sha256 carried file

/-! ## The readers -/

theorem updateVerify_eq_zero (file : Bytes) :
    updateVerify (some file) = 0 ↔ magicOk file = true := by
  show (if magicOk file then (0 : Int) else -1) = 0 ↔ magicOk file = true
  split_ifs with h
  · exact ⟨fun _ => h, fun _ => rfl⟩
  · exact ⟨fun h' => absurd h' (by decide), fun h' => absurd h' h⟩

theorem magicOk_value {file : Bytes} (h : magicOk file = true) :
    4 ≤ file.length ∧ leValue (file.take 4) = updateMagic := by
  simpa [magicOk] using h

/-- Both readers check the first four bytes and nothing else. -/
theorem magicOk_iff (file : Bytes) : magicOk file = true ↔ leBytes 4 updateMagic <+: file := by
  constructor
  · intro h
    obtain ⟨hlen, hval⟩ := magicOk_value h
    have hbytes := leBytes_leValue (file.take 4)
    rw [List.length_take, min_eq_left hlen, hval] at hbytes
    rw [hbytes]
    exact List.take_prefix 4 file
  · rintro ⟨rest, rfl⟩
    have hval : leValue (leBytes 4 updateMagic) = updateMagic := by
      rw [leValue_leBytes]
      decide
    simp [magicOk, hval]

theorem manifestLayout_exact : manifestLayout.Exact := by
  refine Exact.map ?_ (fun _ => rfl)
  refine (exact_bytes 32).pair ((exact_bytes 32).pair (exact_byte.pair ((exact_bytes 64).pair ?_)))
  refine (exact_bytes 7).pair ((exact_le 8).pair ((exact_bytes 65).pair ((exact_bytes 65).pair ?_)))
  exact (exact_bytes 65).pair (exact_bytes 5)

/-- A file with magic, version and all bytes of a manifest is a header and an archive. -/
theorem exists_header {file : Bytes} (hmagic : leValue (file.take 4) = updateMagic)
    (hversion : leValue ((file.drop 4).take 4) = updateVersion)
    (hlen : headerSize ≤ file.length) : ∃ m rest, file = header m ++ rest := by
  rw [headerSize_eq] at hlen
  have hfirst := leBytes_leValue (file.take 4)
  rw [hmagic, List.length_take, min_eq_left (by omega)] at hfirst
  have hsecond := leBytes_leValue ((file.drop 4).take 4)
  rw [hversion, List.length_take, List.length_drop, min_eq_left (by omega)] at hsecond
  have hroom : manifestLayout.size ≤ ((file.drop 4).drop 4).length := by
    rw [manifestLayout_size, List.length_drop, List.length_drop]
    omega
  have hput := manifestLayout_exact.put_load Manifest.zero hroom
  refine ⟨manifestLayout.load Manifest.zero ((file.drop 4).drop 4),
    ((file.drop 4).drop 4).drop manifestLayout.size, ?_⟩
  rw [header, hfirst, hsecond, hput, List.append_assoc, List.append_assoc, List.take_append_drop,
    List.take_append_drop, List.take_append_drop]

/-- A sound package in the terms of the header `bb_update_create` writes. -/
theorem sound_header (sha256 : Bytes → Bytes) (carried : Bytes → Carried) (file : Bytes) :
    Sound sha256 carried file ↔
      ∃ m rest, file = header m ++ rest ∧ Digests sha256 m (carried file) := by
  constructor
  · intro h
    obtain ⟨m, rest, hfile⟩ := exists_header h.magic h.version h.manifest
    refine ⟨m, rest, hfile, h.digests Manifest.zero m ?_⟩
    rw [hfile, readManifest_header]
  · rintro ⟨m, rest, rfl, hdigests⟩
    refine ⟨(magicOk_value (magicOk_header rest)).2, ?_, ?_, ?_⟩
    · have hversion : ((header m ++ rest).drop 4).take 4 = leBytes 4 updateVersion := by
        simp [header]
      rw [hversion, leValue_leBytes]
      decide
    · rw [List.length_append, length_header]
      exact Nat.le_add_right _ _
    · intro old m' hread
      rw [readManifest_header] at hread
      rwa [← Option.some.inj hread]

/-- What tar finds when the package is a whole one of these files. -/
def Payload.carried (p : Payload) : Carried :=
  { bootTar := p.bootTar, rootfsTar := some p.rootfsTar, postinstall := p.postinstall }

/-- The manifest was made for these files. -/
def Manifest.MadeFor (sha256 : Bytes → Bytes) (m : Manifest) (p : Payload) : Prop :=
  cstr m.bootSha256.toList = (p.bootTar.map sha256).getD [] ∧
    cstr m.rootfsSha256.toList = sha256 p.rootfsTar ∧
    cstr m.postinstallSha256.toList = (p.postinstall.map sha256).getD []

theorem records_iff {sha256 : Bytes → Bytes} {digest : Bytes} {file : Option Bytes} :
    Records sha256 digest file ↔ digest = (file.map sha256).getD [] := by
  cases file with
  | none => exact Iff.rfl
  | some file => exact eq_comm

theorem digests_iff {sha256 : Bytes → Bytes} {m : Manifest} {files : Carried} :
    Digests sha256 m files ↔ ∃ p : Payload, files = p.carried ∧ m.MadeFor sha256 p := by
  constructor
  · intro h
    obtain ⟨rootfs, hrootfs⟩ := Option.ne_none_iff_exists'.mp h.whole
    have hrecorded := records_iff.mp h.rootfs
    rw [hrootfs] at hrecorded
    refine ⟨{ bootTar := files.bootTar, rootfsTar := rootfs, postinstall := files.postinstall }, ?_,
      records_iff.mp h.boot, hrecorded, records_iff.mp h.postinstall⟩
    rw [Payload.carried, ← hrootfs]
  · rintro ⟨p, rfl, hboot, hrootfs, hpostinstall⟩
    exact ⟨records_iff.mpr hboot, hrootfs.symm, records_iff.mpr hpostinstall,
      Option.some_ne_none _⟩

theorem sound_iff (sha256 : Bytes → Bytes) (carried : Bytes → Carried) (file : Bytes) :
    Sound sha256 carried file ↔
      ∃ m p rest, file = header m ++ rest ∧ carried file = p.carried ∧ m.MadeFor sha256 p := by
  rw [sound_header]
  constructor
  · rintro ⟨m, rest, hfile, hdigests⟩
    obtain ⟨p, hcarried, hmade⟩ := digests_iff.mp hdigests
    exact ⟨m, p, rest, hfile, hcarried, hmade⟩
  · rintro ⟨m, p, rest, hfile, hcarried, hmade⟩
    exact ⟨m, rest, hfile, digests_iff.mpr ⟨p, hcarried, hmade⟩⟩

/-! ## The installer -/

section Formats

variable {w : World} {p boot rootfs : Part} {r : Results} {board : Board} {file : Bytes}
  {cmdline : Option Bytes}

theorem cmds_run (c : Cmd) : w.cmds <+: (w.run c).cmds := List.prefix_append _ _

theorem cmds_mkfs (c : Part → Cmd) (m : MkfsResult) : (w.mkfs c p m).cmds = w.cmds ++ [c p] := by
  cases m <;> rfl

theorem cmds_fill (untar : Cmd) (mnt t : Bool) : w.cmds <+: (w.fill p untar mnt t).cmds := by
  have h : w.cmds <+: ((w.run (.mount p)).run untar).cmds := (cmds_run _).trans (cmds_run _)
  cases mnt <;> exact h

theorem cmds_writeBoot : w.cmds <+: (writeBoot boot r w).cmds := by
  unfold writeBoot
  split_ifs
  · exact (cmds_fill _ _ _).trans (cmds_run _)
  · exact List.prefix_rfl
  · exact List.prefix_rfl

theorem cmds_writeRootfs : w.cmds <+: (writeRootfs rootfs r w).cmds := by
  unfold writeRootfs
  split_ifs
  · exact ((cmds_fill _ _ _).trans (cmds_run _)).trans (cmds_run _)
  · exact (cmds_fill _ _ _).trans (cmds_run _)
  · exact List.prefix_rfl

theorem cmds_written (board : Board) (target : UInt8) (r : Results) (w : World) :
    (formatParts (board.bootPart (partSlot target)) (board.rootfsPart (partSlot target)) r w).cmds
      <+: (written board target r w).cmds :=
  (((cmds_run _).trans cmds_writeBoot).trans cmds_writeRootfs).trans (cmds_run _)

/-- Whatever follows an accepted package, step 5 was run. -/
theorem cmds_updateInstall (board : Board) (cmdline : Option Bytes) (w : World)
    (h : Accepted file r) :
    (formatParts (board.bootPart (partSlot (pkgTarget file cmdline r)))
      (board.rootfsPart (partSlot (pkgTarget file cmdline r))) r w).cmds <+:
        (updateInstall board file cmdline r w).2.cmds := by
  by_cases hx : Extracted r
  · rw [updateInstall_done board cmdline w h hx, logUpdate_cmds, configure_cmds]
    exact (cmds_written _ _ _ _).trans (List.prefix_append _ _)
  · rw [updateInstall_accepted board cmdline w h]
    cases hk : r.mkdtempOk with
    | false => exact List.prefix_rfl
    | true =>
      cases he : r.extractOk with
      | false => exact cmds_run _
      | true => exact absurd ⟨hk, he⟩ hx

/-- The installer formats exactly when both readers accept. -/
theorem formats_iff (board : Board) (cmdline : Option Bytes) (r : Results) (e : Env) :
    Formats (updateInstall board file cmdline r (World.start e)).2 ↔ Accepted file r := by
  constructor
  · intro hformats
    by_contra hrejected
    rw [updateInstall_rejected board cmdline _ hrejected] at hformats
    obtain ⟨p, hp | hp⟩ := hformats <;> exact absurd hp List.not_mem_nil
  · intro h
    have hcmds := cmds_updateInstall board cmdline (World.start e) h
    refine ⟨board.bootPart (partSlot (pkgTarget file cmdline r)), Or.inl (hcmds.subset ?_)⟩
    rw [formatParts, cmds_mkfs, cmds_mkfs]
    simp

end Formats

/-! ## The law -/

section Law

variable {sha256 : Bytes → Bytes} {carried : Bytes → Carried} {file : Bytes}

theorem VerifySound.sound (h : VerifySound sha256 carried file) (hmagic : magicOk file = true) :
    Sound sha256 carried file :=
  h.verify ((updateVerify_eq_zero file).mpr hmagic)

theorem verifySound_of_magic (h : magicOk file = true → Sound sha256 carried file) :
    VerifySound sha256 carried file := by
  refine ⟨fun hverify => h ((updateVerify_eq_zero file).mp hverify), ?_⟩
  intro board cmdline r e hformats
  exact h ((formats_iff board cmdline r e).mp hformats).2.2

end Law

/-- **The magic is all that is verified.** Whatever SHA-256 is and whatever tar finds in the file,
acceptance means a sound package exactly for the files that do not start with the magic, and for
those that are a header as it was written and carry the payload its manifest was made for. -/
theorem verifySound_iff (sha256 : Bytes → Bytes) (carried : Bytes → Carried) (file : Bytes) :
    VerifySound sha256 carried file ↔
      ¬ leBytes 4 updateMagic <+: file ∨
        ∃ m p rest, file = header m ++ rest ∧ carried file = p.carried ∧ m.MadeFor sha256 p := by
  rw [← magicOk_iff, ← sound_iff, ← imp_iff_not_or]
  exact ⟨VerifySound.sound, verifySound_of_magic⟩

/-- SHA-256 of no bytes, in hex. -/
def emptySha256 : Bytes := ascii "e3b0c44298fc1c149afbf4c8996fb92427ae41e4649b934ca495991b7852b855"

/-- What tar finds in a package of an empty root file system. -/
def emptyCarried (file : Bytes) : Carried where
  bootTar := none
  rootfsTar := if extractInput file = emptyRootfsTgz then some [] else none
  postinstall := none

theorem emptyCarried_rootfsTar (file : Bytes) : (emptyCarried file).rootfsTar =
    if extractInput file = emptyRootfsTgz then some [] else none := rfl

/-- Four bytes get both partitions formatted; so does a whole package whose manifest has no digests,
and one that is cut off behind its header. -/
theorem unverified_formats :
    (¬ VerifySound (fun _ => emptySha256) emptyCarried (leBytes 4 updateMagic) ∧
      Formats (updateInstall .forlinx (leBytes 4 updateMagic) none Results.allOk
        (World.start Env.default)).2) ∧
    (¬ VerifySound (fun _ => emptySha256) emptyCarried (samplePkg 0x3d) ∧
      Formats (updateInstall .forlinx (samplePkg 0x3d) none Results.allOk
        (World.start Env.default)).2) ∧
    ¬ VerifySound (fun _ => emptySha256) emptyCarried (header Manifest.zero) ∧
      Formats (updateInstall .forlinx (header Manifest.zero) none Results.allOk
        (World.start Env.default)).2 := by
  have hmagic : magicOk (leBytes 4 updateMagic) = true := by decide
  have hheader : magicOk (header Manifest.zero) = true := by
    have hok := magicOk_header (m := Manifest.zero) []
    rwa [List.append_nil] at hok
  refine ⟨⟨?_, ?_⟩, ⟨?_, ?_⟩, ?_, ?_⟩
  · intro h
    exact absurd (h.sound hmagic).manifest (by decide)
  · exact (formats_iff _ _ _ _).mpr ⟨rfl, rfl, hmagic⟩
  · intro h
    have hdigests := (h.sound (magicOk_header _)).digests Manifest.zero _ (readManifest_header _ _)
    have hrootfs := hdigests.rootfs
    rw [emptyCarried_rootfsTar, if_pos (by rfl)] at hrootfs
    exact absurd (congrArg List.length hrootfs) (by decide)
  · exact (formats_iff _ _ _ _).mpr (accepted_samplePkg 0x3d ⟨rfl, rfl⟩)
  · intro h
    have hread := readManifest_header (m := Manifest.zero) [] Manifest.zero
    rw [List.append_nil] at hread
    have hdigests := (h.sound hheader).digests Manifest.zero _ hread
    refine hdigests.whole ?_
    rw [emptyCarried_rootfsTar, if_neg (by decide)]
  · exact (formats_iff _ _ _ _).mpr ⟨rfl, rfl, hheader⟩

end Update
end BuildingBlocks
