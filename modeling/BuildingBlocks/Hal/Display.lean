import BuildingBlocks.Hal.Ports

/-!
# BuildingBlocks.Hal.Display

The display of `hal/bb_hal_display.c`: a DRM device, a buffer, a framebuffer and a mapping.

* `displayOpen` acquires the four one after another; the labels `fail_mmap`, `fail_fb`, `fail_dumb`
  and `fail` give back what it has so far.
* `selectConnector` is the loop over the connectors.
* `settled_displayOpen` — whatever fails, the fields of the display name what it holds.
-/

namespace BuildingBlocks
namespace Hal

open Lib

/-! ## The code -/

/-- `bb_disp_type_t`. -/
inductive DispType where
  | dsi
  | lvds
  | hdmi
  | any
deriving DecidableEq, Repr

/-- `DRM_MODE_CONNECTED` and the types of `drm_mode.h`. -/
def connected : UInt32 := 1

def connectorLvds : UInt32 := 7

def connectorHdmiA : UInt32 := 11

def connectorHdmiB : UInt32 := 12

def connectorDsi : UInt32 := 16

def DispType.admits (type : DispType) (connectorType : UInt32) : Bool :=
  match type with
  | .any => true
  | .dsi => connectorType == connectorDsi
  | .lvds => connectorType == connectorLvds
  | .hdmi => connectorType == connectorHdmiA || connectorType == connectorHdmiB

/-- What the first query of a connector gives. -/
structure Connector where
  connection : UInt32
  connectorType : UInt32
  encoderId : UInt32
deriving DecidableEq, Repr

structure Mode where
  hdisplay : UInt16
  vdisplay : UInt16
deriving DecidableEq, Repr

/-- A connector: its id, and the results of the first query, of the second one, with the first of
its modes, and of the query of its encoder, with the CRTC. -/
structure ConnectorCalls where
  id : UInt32
  probe : Option Connector
  mode : Option Mode
  crtc : Option UInt32
deriving DecidableEq, Repr

/-- What `mmap` returns when it fails. -/
def mapFailed : UInt64 := 0xffffffffffffffff

/-- An id of the kernel. -/
abbrev Id := { id : UInt32 // id ≠ 0 }

/-- An address that is mapped. -/
abbrev Addr := { addr : UInt64 // addr ≠ 0 ∧ addr ≠ mapFailed }

/-- A dumb buffer. -/
structure Dumb where
  handle : Id
  pitch : UInt32
  size : UInt64
deriving DecidableEq, Repr

/-- The results of the system calls of `bb_display_open`, in its order. -/
structure DisplayCalls where
  fd : Option Nat
  resources : Bool
  resourcesAgain : Bool
  connectors : List ConnectorCalls
  savedFb : Option UInt32
  dumb : Option Dumb
  fb : Option Id
  mapDumb : Bool
  mmap : Option Addr
  setCrtc : Bool
deriving DecidableEq

/-- `bb_display_t`. -/
structure Display where
  fd : Int
  connectorId : UInt32
  crtcId : UInt32
  encoderId : UInt32
  fbId : UInt32
  width : UInt32
  height : UInt32
  stride : UInt32
  handle : UInt32
  size : UInt64
  map : UInt64
  restored : Bool
  savedFb : UInt32
  isMaster : Bool
deriving DecidableEq, Repr

def Display.blank : Display :=
  { fd := -1, connectorId := 0, crtcId := 0, encoderId := 0, fbId := 0, width := 0, height := 0
    stride := 0, handle := 0, size := 0, map := 0, restored := false, savedFb := 0
    isMaster := false }

/-- The first connector that is connected, of the type, and gives its modes. -/
def selectConnector (type : DispType) (d : Display) : List ConnectorCalls → Option Display
  | [] => none
  | c :: cs =>
    match c.probe with
    | none => selectConnector type d cs
    | some conn =>
      if conn.connection ≠ connected then selectConnector type d cs
      else if !type.admits conn.connectorType then selectConnector type d cs
      else
        match c.mode with
        | none => selectConnector type d cs
        | some mode =>
          some
            { d with
              encoderId := conn.encoderId
              crtcId := c.crtc.getD d.crtcId
              connectorId := c.id
              width := mode.hdisplay.toUInt32
              height := mode.vdisplay.toUInt32 }

/-- `fail:` -/
def Display.fail (d : Display) : Display × List (Act Res) :=
  ({ d with fd := -1 }, [.release (.fd d.fd.toNat)])

/-- `fail_dumb:` -/
def Display.failDumb (d : Display) : Display × List (Act Res) :=
  let (d', acts) := { d with handle := 0 }.fail
  (d', .release (.handle d.fd.toNat d.handle) :: acts)

/-- `fail_fb:` -/
def Display.failFb (d : Display) : Display × List (Act Res) :=
  let (d', acts) := { d with fbId := 0 }.failDumb
  (d', .release (.fb d.fd.toNat d.fbId) :: acts)

/-- `fail_mmap:` -/
def Display.failMmap (d : Display) : Display × List (Act Res) :=
  let (d', acts) := { d with map := 0 }.failFb
  (d', .release (.map d.map) :: acts)

/-- A call that fails after the system calls `acts`. -/
def failed (acts : List (Act Res)) (r : Display × List (Act Res)) : Opened Display :=
  { dev := r.1, ret := -1, acts := acts ++ r.2 }

/-- The current framebuffer is remembered when it can be read. -/
def Display.save (d : Display) (savedFb : Option UInt32) : Display :=
  match savedFb with
  | none => d
  | some fb => { d with savedFb := fb, restored := true }

/-- From the framebuffer on; the buffer is there. -/
def Display.addFb (d : Display) (acts : List (Act Res)) (k : DisplayCalls) : Opened Display :=
  match k.fb with
  | none => failed acts d.failDumb
  | some fb =>
    let d := { d with fbId := fb.1 }
    let acts := acts ++ [.acquire (.fb d.fd.toNat fb.1)]
    if !k.mapDumb then failed acts d.failFb
    else
      match k.mmap with
      | none => failed acts { d with map := mapFailed }.failFb
      | some addr =>
        let d := { d with map := addr.1 }
        let acts := acts ++ [.acquire (.map addr.1)]
        if !k.setCrtc then failed acts d.failMmap else { dev := d, ret := 0, acts := acts }

/-- `bb_display_open`. -/
def displayOpen (type : DispType) (k : DisplayCalls) : Opened Display :=
  match k.fd with
  | none => { dev := .blank, ret := -1, acts := [] }
  | some n =>
    let d := { Display.blank with fd := n, isMaster := true }
    let acts := [.acquire (.fd n)]
    if !k.resources || !k.resourcesAgain then failed acts d.fail
    else
      match selectConnector type d k.connectors with
      | none => failed acts d.fail
      | some d =>
        let d := d.save k.savedFb
        match k.dumb with
        | none => failed acts d.fail
        | some dumb =>
          let d := { d with handle := dumb.handle.1, stride := dumb.pitch, size := dumb.size }
          d.addFb (acts ++ [.acquire (.handle n dumb.handle.1)]) k

/-- `bb_display_get_fb`: the address, the size and the stride. -/
def Display.getFb (d : Display) : Option (UInt64 × UInt32 × UInt32 × UInt32) :=
  if d.fd < 0 ∨ d.map = 0 then none else some (d.map, d.width, d.height, d.stride)

/-- `bb_display_close`, but for the ioctls that restore the CRTC and drop the master. -/
def Display.close (d : Display) : Display × List (Act Res) :=
  if d.fd < 0 then (d, [])
  else
    ({ d with fd := -1, map := 0, fbId := 0, handle := 0 },
      (if d.map ≠ 0 then [.release (.map d.map)] else []) ++
        (if d.fbId ≠ 0 then [.release (.fb d.fd.toNat d.fbId)] else []) ++
        (if d.handle ≠ 0 then [.release (.handle d.fd.toNat d.handle)] else []) ++
        [.release (.fd d.fd.toNat)])

def Display.named (d : Display) : List Res :=
  if d.fd < 0 then []
  else
    (if d.map ≠ 0 then [.map d.map] else []) ++
      (if d.fbId ≠ 0 then [.fb d.fd.toNat d.fbId] else []) ++
      (if d.handle ≠ 0 then [.handle d.fd.toNat d.handle] else []) ++ [.fd d.fd.toNat]

/-! ## What a display holds -/

section Account

variable {type : DispType} {k : DisplayCalls} {d d' : Display} {n : Nat} {acts : List (Act Res)}

theorem displayClose_acts (d : Display) : d.close.2 = d.named.map .release := by
  unfold Display.close Display.named
  split_ifs <;> rfl

theorem named_displayClose (d : Display) : d.close.1.named = [] := by
  unfold Display.close
  by_cases h : d.fd < 0
  · rw [if_pos h]
    exact if_pos h
  · rw [if_neg h]
    rfl

theorem selectConnector_fd {cs : List ConnectorCalls} (h : selectConnector type d cs = some d') :
    d'.fd = d.fd := by
  induction cs with
  | nil => cases h
  | cons c cs ih =>
    unfold selectConnector at h
    cases hprobe : c.probe with
    | none =>
      rw [hprobe] at h
      exact ih h
    | some conn =>
      rw [hprobe] at h
      dsimp only at h
      split_ifs at h
      · exact ih h
      · exact ih h
      · cases hmode : c.mode with
        | none =>
          rw [hmode] at h
          exact ih h
        | some mode =>
          rw [hmode] at h
          cases h
          rfl

/-- An open function that leaves the display with all that its fields name. -/
def Settled (o : Opened Display) : Prop :=
  run Act.within [] o.acts = some o.dev.named ∧ ∀ r ∈ o.dev.named, .acquire r ∈ o.acts

/-- A failed call holds nothing. -/
theorem settled_failed {own : List Res} {r : Display × List (Act Res)} (hdev : r.1.fd = -1)
    (hacts : run Act.within [] acts = some own) (hundo : run Act.within own r.2 = some []) :
    Settled (failed acts r) := by
  have hnamed : (failed acts r).dev.named = [] := by
    show r.1.named = []
    rw [Display.named, hdev]
    rfl
  refine ⟨?_, ?_⟩
  · rw [hnamed]
    show run Act.within [] (acts ++ r.2) = some []
    exact run_append_eq_some.mpr ⟨own, hacts, hundo⟩
  · rw [hnamed]
    exact fun _ h => absurd h List.not_mem_nil

/-- With the descriptor and the buffer at hand. -/
theorem settled_addFb (hfd : d.fd = n) (hhandle : d.handle ≠ 0) :
    Settled (d.addFb [.acquire (.fd n), .acquire (.handle n d.handle)] k) := by
  have hn : d.fd.toNat = n := by rw [hfd]; rfl
  have hpos : ¬ ((n : Int) < 0) := by omega
  have hbuf : run Act.within [] [.acquire (.fd n), .acquire (.handle n d.handle)] =
      some [Res.handle n d.handle, .fd n] := rfl
  unfold Display.addFb
  cases k.fb with
  | none =>
    refine settled_failed rfl hbuf ?_
    simp [Display.failDumb, Display.fail, run, Act.within, hn]
  | some fb =>
    have hfb : run Act.within [] [.acquire (.fd n), .acquire (.handle n d.handle),
        .acquire (.fb n fb.1)] = some [Res.fb n fb.1, .handle n d.handle, .fd n] := rfl
    dsimp only
    rw [hn]
    cases k.mapDumb with
    | false =>
      refine settled_failed rfl hfb ?_
      simp [Display.failFb, Display.failDumb, Display.fail, run, Act.within, hn]
    | true =>
      cases k.mmap with
      | none =>
        refine settled_failed rfl hfb ?_
        simp [Display.failFb, Display.failDumb, Display.fail, run, Act.within, hn]
      | some addr =>
        have hmap : run Act.within [] [.acquire (.fd n), .acquire (.handle n d.handle),
            .acquire (.fb n fb.1), .acquire (.map addr.1)] =
              some [Res.map addr.1, .fb n fb.1, .handle n d.handle, .fd n] := rfl
        cases k.setCrtc with
        | false =>
          refine settled_failed rfl hmap ?_
          simp [Display.failMmap, Display.failFb, Display.failDumb, Display.fail, run, Act.within,
            hn]
        | true =>
          have hnamed : Display.named { d with fbId := fb.1, map := addr.1 } =
              [Res.map addr.1, .fb n fb.1, .handle n d.handle, .fd n] := by
            simp [Display.named, hfd, hpos, addr.2.1, fb.2, hhandle]
          refine ⟨?_, ?_⟩
          · show _ = some (Display.named { d with fbId := fb.1, map := addr.1 })
            rw [hnamed]
            exact hmap
          · show ∀ r ∈ Display.named { d with fbId := fb.1, map := addr.1 }, _
            rw [hnamed]
            simp

theorem settled_displayOpen (type : DispType) (k : DisplayCalls) :
    Settled (displayOpen type k) := by
  unfold displayOpen
  cases k.fd with
  | none => exact ⟨rfl, fun _ h => absurd h List.not_mem_nil⟩
  | some n =>
    have hopen : run Act.within [] [.acquire (.fd n)] = some [Res.fd n] := rfl
    dsimp only
    split_ifs
    · refine settled_failed rfl hopen ?_
      simp [Display.fail, run, Act.within]
    · cases hsel : selectConnector type { Display.blank with fd := n, isMaster := true }
        k.connectors with
      | none =>
        refine settled_failed rfl hopen ?_
        simp [Display.fail, run, Act.within]
      | some d =>
        have hfd := selectConnector_fd hsel
        have hsave : (d.save k.savedFb).fd = n := by
          unfold Display.save
          cases k.savedFb with
          | none => exact hfd
          | some fb => exact hfd
        cases k.dumb with
        | none =>
          refine settled_failed rfl hopen ?_
          simp [Display.fail, run, Act.within, hsave]
        | some dumb => exact settled_addFb hsave dumb.handle.2

end Account

end Hal
end BuildingBlocks
