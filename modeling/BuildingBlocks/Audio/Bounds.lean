import BuildingBlocks.Audio.Device

/-!
# BuildingBlocks.Audio.Bounds

The sizes of frames in `middleware/bb_audio_stream.c`, without a codec.

* `streamInit` opens both devices; the frames of both pools have the size of a period of the
  capture device.
* `Within` is the law: what is captured fits its frame and the frame it is copied to, and what is
  played is not more than was captured.
* `within_iff` — the law in the widths of a frame as requested and as each device has it.
-/

namespace BuildingBlocks
namespace Audio

/-- The part of `bb_audio_stream_config_t` the sizes depend on. -/
structure Config where
  rate : UInt32
  channels : UInt32
  fmt : Fmt
deriving DecidableEq, Repr

/-- `bb_audio_stream_t` with the size of the frames of its pools. -/
structure Stream where
  cfg : Config
  capDev : Device
  pbDev : Device
  frameSize : UInt32
deriving DecidableEq, Repr

/-- What can fail in `bb_audio_stream_init` besides the check of the periods. -/
structure Outcome where
  capOk : Bool
  pbOk : Bool
  poolsOk : Bool
deriving DecidableEq, Repr

/-- `bb_audio_stream_init`, when it returns 0. -/
def streamInit (cfg : Config) (cap pb : Caps) (o : Outcome) : Option Stream := do
  let capDev ← audioOpen cap cfg.rate cfg.channels cfg.fmt o.capOk
  let pbDev ← audioOpen pb cfg.rate cfg.channels cfg.fmt o.pbOk
  if capDev.periodFrames = pbDev.periodFrames ∧ o.poolsOk then
    some { cfg := cfg, capDev := capDev, pbDev := pbDev, frameSize := capDev.periodBytes }
  else none

/-- `frames_to_bytes`. -/
def framesToBytes (frames channels : UInt32) (fmt : Fmt) : UInt32 := frames * channels * fmt.bytes

namespace Stream

/-- `f->size` in `capture_thread_fn` when the kernel returned `n` bytes; an error has none. -/
def captured (s : Stream) (n : UInt32) : Option UInt32 :=
  let frames := audioRead s.capDev n
  if frames < 0 then none
  else some (framesToBytes (UInt32.ofNat frames.toNat) s.cfg.channels s.cfg.fmt)

/-- The bytes `bb_audio_write` takes from a frame in `playback_thread_fn`; size 0 is the
sentinel. -/
def played (s : Stream) (size : UInt32) : Option UInt32 :=
  if size = 0 then none
  else some (s.pbDev.bytesOf (size / (s.cfg.channels * s.cfg.fmt.bytes)))

/-- However many bytes the kernel returns, at most as many as it was asked for: the size of the
frame is within the buffer, the copy within the destination, and no more is played. -/
def Within (s : Stream) : Prop :=
  ∀ n, n ≤ s.capDev.bytesOf s.capDev.periodFrames → ∀ size ∈ s.captured n,
    size ≤ s.capDev.periodBytes ∧ size ≤ s.frameSize ∧ ∀ bytes ∈ s.played size, bytes ≤ size

end Stream

/-! ## The condition -/

/-- The widths of a frame, as requested and as a device has it. -/
def requestedWidth (cfg : Config) : Nat := (cfg.channels * cfg.fmt.bytes).toNat

def deviceWidth (cfg : Config) (caps : Caps) : Nat :=
  (clampU32 cfg.channels caps.channelsMin caps.channelsMax * cfg.fmt.bytes).toNat

/-- The bytes of a period of the capture device. -/
def periodBytes (cfg : Config) (cap : Caps) : Nat :=
  (periodTarget cap cfg.rate).toNat * deviceWidth cfg cap % 0x100000000

/-- Whole periods of requested frames fit the buffer. From 2 GiB on sizes wrap around, and every
number of frames counts. -/
def Fits (buffer width requested : Nat) : Prop :=
  if buffer < 0x80000000 then buffer / width * requested ≤ buffer
  else ∀ n, n ≤ buffer / width → n < 0x80000000 → n * requested % 0x100000000 ≤ buffer

def Bounded (cfg : Config) (cap pb : Caps) : Prop :=
  periodBytes cfg cap < deviceWidth cfg cap ∨
    (requestedWidth cfg = 0 ∨ deviceWidth cfg pb ≤ requestedWidth cfg) ∧
      Fits (periodBytes cfg cap) (deviceWidth cfg cap) (requestedWidth cfg)

/-! ## The arithmetic -/

section Arithmetic

variable {k b q buffer : Nat}

/-- A multiple just below the point where sizes wrap around. -/
theorem exists_wrap {n : Nat} (hk : 0 < k) (hn : 0x100000000 ≤ n * k) :
    ∃ j, j ≤ n ∧ j * k < 0x100000000 ∧ 0x100000000 ≤ j * k + k := by
  refine ⟨(0x100000000 - 1) / k, ?_, ?_, ?_⟩
  · refine Nat.le_of_lt_succ ((Nat.div_lt_iff_lt_mul hk).mpr ?_)
    calc 0x100000000 - 1 < n * k := by omega
      _ ≤ (n + 1) * k := Nat.mul_le_mul_right k (Nat.le_succ n)
  · have hle := Nat.div_mul_le_self (0x100000000 - 1) k
    omega
  · have hlt := Nat.lt_mul_div_succ (0x100000000 - 1) hk
    rw [Nat.mul_comm k, Nat.succ_mul] at hlt
    omega

/-- Below 2 GiB all sizes fit if and only if the largest does, without wrapping around. -/
theorem fits_iff (hone : k ≤ buffer) :
    (∀ n, n ≤ buffer / b → n < 0x80000000 → n * k % 0x100000000 ≤ buffer) ↔ Fits buffer b k := by
  unfold Fits
  split
  · rename_i hsmall
    constructor
    · intro hall
      have hN : buffer / b < 0x80000000 := Nat.lt_of_le_of_lt (Nat.div_le_self _ _) hsmall
      rcases Nat.lt_or_ge (buffer / b * k) 0x100000000 with hlt | hge
      · have hlast := hall (buffer / b) le_rfl hN
        rwa [Nat.mod_eq_of_lt hlt] at hlast
      · have hk : 0 < k := by
          rcases Nat.eq_zero_or_pos k with rfl | hk
          · omega
          · exact hk
        obtain ⟨j, hj, hjlt, hjge⟩ := exists_wrap hk hge
        have hlast := hall j hj (by omega)
        rw [Nat.mod_eq_of_lt hjlt] at hlast
        omega
    · intro hfit n hn _
      have hle : n * k ≤ buffer / b * k := Nat.mul_le_mul_right k hn
      rw [Nat.mod_eq_of_lt (by omega)]
      omega
  · exact Iff.rfl

/-- The law of sizes in the number of frames read. -/
theorem sizes_iff (hk : k < 0x100000000) (hq : q < 0x100000000) (hb : 0 < b)
    (hbuf : buffer < 0x100000000) :
    (∀ n, n ≤ buffer / b → n < 0x80000000 → n * k % 0x100000000 ≤ buffer ∧
        (n * k % 0x100000000 ≠ 0 →
          n * k % 0x100000000 / k * q % 0x100000000 ≤ n * k % 0x100000000)) ↔
      buffer < b ∨ (k = 0 ∨ q ≤ k) ∧ Fits buffer b k := by
  rcases Nat.lt_or_ge buffer b with hless | hmore
  · refine iff_of_true ?_ (Or.inl hless)
    intro n hn _
    rw [Nat.div_eq_of_lt hless] at hn
    obtain rfl : n = 0 := by omega
    simp
  · have hN : 1 ≤ buffer / b := (Nat.one_le_div_iff hb).mpr hmore
    have hnot : ¬ buffer < b := by omega
    rw [or_iff_right hnot]
    constructor
    · intro hall
      obtain ⟨hone, hplay⟩ := hall 1 hN (by decide)
      rw [Nat.one_mul, Nat.mod_eq_of_lt hk] at hone hplay
      refine ⟨?_, (fits_iff hone).mp (fun n hn hlt => (hall n hn hlt).1)⟩
      rcases Nat.eq_zero_or_pos k with hzero | hpos
      · exact Or.inl hzero
      · right
        have hle := hplay (by omega)
        rwa [Nat.div_self hpos, Nat.one_mul, Nat.mod_eq_of_lt hq] at hle
    · rintro ⟨hwidth, hfits⟩
      intro n hn hlt
      refine ⟨?_, ?_⟩
      · unfold Fits at hfits
        split at hfits
        · have hle : n * k ≤ buffer / b * k := Nat.mul_le_mul_right k hn
          rw [Nat.mod_eq_of_lt (by omega)]
          omega
        · exact hfits n hn hlt
      · intro hne
        rcases hwidth with rfl | hqk
        · simp at hne
        · calc n * k % 0x100000000 / k * q % 0x100000000
              ≤ n * k % 0x100000000 / k * q := Nat.mod_le _ _
            _ ≤ n * k % 0x100000000 / k * k := Nat.mul_le_mul_left _ hqk
            _ ≤ n * k % 0x100000000 := Nat.div_mul_le_self _ _

end Arithmetic

/-! ## The law -/

section Law

variable {cfg : Config} {cap pb : Caps} {o : Outcome} {s : Stream}

theorem audioOpen_eq_some {caps : Caps} {rate channels : UInt32} {fmt : Fmt} {ok : Bool}
    {a : Device} (h : audioOpen caps rate channels fmt ok = some a) :
    a.fmt = fmt ∧ a.channels = clampU32 channels caps.channelsMin caps.channelsMax ∧
      a.periodFrames = periodTarget caps rate ∧
      a.periodBytes = a.periodFrames * a.channels * a.fmt.bytes ∧
      a.channels * a.fmt.bytes ≠ 0 := by
  unfold audioOpen at h
  simp only at h
  split_ifs at h with hc
  cases h
  exact ⟨rfl, rfl, rfl, rfl, hc.2.1⟩

/-- What `bb_audio_stream_init` leaves when it returns 0. -/
theorem streamInit_eq_some (h : streamInit cfg cap pb o = some s) :
    s.cfg = cfg ∧ s.capDev.fmt = cfg.fmt ∧ s.pbDev.fmt = cfg.fmt ∧
      s.frameSize = s.capDev.periodBytes ∧
      (s.capDev.channels * s.capDev.fmt.bytes).toNat = deviceWidth cfg cap ∧
      (s.pbDev.channels * s.pbDev.fmt.bytes).toNat = deviceWidth cfg pb ∧
      s.capDev.periodBytes = s.capDev.bytesOf s.capDev.periodFrames ∧
      s.capDev.periodBytes.toNat = periodBytes cfg cap ∧ 0 < deviceWidth cfg cap := by
  simp only [streamInit, Option.bind_eq_bind, Option.bind_eq_some_iff] at h
  obtain ⟨capDev, hcap, pbDev, hpb, h⟩ := h
  split_ifs at h
  cases h
  obtain ⟨hfmt, hch, hperiod, hbytes, hne⟩ := audioOpen_eq_some hcap
  obtain ⟨hfmt', hch', -, -, -⟩ := audioOpen_eq_some hpb
  have hwidth : (capDev.channels * capDev.fmt.bytes).toNat = deviceWidth cfg cap := by
    rw [hch, hfmt, deviceWidth]
  refine ⟨rfl, hfmt, hfmt', rfl, hwidth, by rw [hch', hfmt', deviceWidth], hbytes, ?_, ?_⟩
  · rw [hbytes, UInt32.mul_assoc, UInt32.toNat_mul, hwidth, hperiod]
    rfl
  · rw [← hwidth, Nat.pos_iff_ne_zero]
    intro hzero
    exact hne (UInt32.toNat_inj.mp hzero)

theorem audioRead_eq (a : Device) (n : UInt32) :
    (n.toNat / (a.channels * a.fmt.bytes).toNat < 0x80000000 ∧
        audioRead a n = (n.toNat / (a.channels * a.fmt.bytes).toNat : Nat)) ∨
      (¬ n.toNat / (a.channels * a.fmt.bytes).toNat < 0x80000000 ∧ audioRead a n < 0) := by
  have hlt : n.toNat / (a.channels * a.fmt.bytes).toNat < 0x100000000 :=
    Nat.lt_of_le_of_lt (Nat.div_le_self _ _) n.toNat_lt
  rw [audioRead, UInt32.toNat_div, toInt32]
  generalize n.toNat / (a.channels * a.fmt.bytes).toNat = N at hlt
  rcases Nat.lt_or_ge N 0x80000000 with hsmall | hlarge
  · exact Or.inl ⟨hsmall, Int.bmod_eq_of_le (by omega) (by omega)⟩
  · refine Or.inr ⟨by omega, ?_⟩
    have hbmod : (N : Int).bmod 0x100000000 = N - 0x100000000 := by
      rw [← Int.sub_bmod_right]
      exact Int.bmod_eq_of_le (by omega) (by omega)
    omega

/-- The size of a captured frame, by the number of frames read. -/
theorem captured_eq (hcfg : s.cfg = cfg)
    (hwidth : (s.capDev.channels * s.capDev.fmt.bytes).toNat = deviceWidth cfg cap) (n : UInt32) :
    s.captured n =
      if n.toNat / deviceWidth cfg cap < 0x80000000 then
        some (framesToBytes (UInt32.ofNat (n.toNat / deviceWidth cfg cap)) cfg.channels cfg.fmt)
      else none := by
  have hread := audioRead_eq s.capDev n
  rw [hwidth] at hread
  unfold Stream.captured
  simp only [hcfg]
  rcases hread with ⟨hsmall, hread⟩ | ⟨hlarge, hneg⟩
  · have hpos : ¬ audioRead s.capDev n < 0 := by
      rw [hread]
      exact Int.not_lt.mpr (Int.natCast_nonneg _)
    rw [if_neg hpos, if_pos hsmall, hread, Int.toNat_natCast]
  · rw [if_pos hneg, if_neg hlarge]

theorem toNat_framesToBytes {N : Nat} (h : N < 0x80000000) (cfg : Config) :
    (framesToBytes (UInt32.ofNat N) cfg.channels cfg.fmt).toNat =
      N * requestedWidth cfg % 0x100000000 := by
  have hN : (UInt32.ofNat N).toNat = N :=
    UInt32.toNat_ofNat_of_lt' (Nat.lt_trans h (by decide))
  rw [framesToBytes, UInt32.mul_assoc, UInt32.toNat_mul, hN]
  rfl

/-- What is played of a frame, in bytes. -/
theorem forall_played_iff (hcfg : s.cfg = cfg)
    (hwidth : (s.pbDev.channels * s.pbDev.fmt.bytes).toNat = deviceWidth cfg pb) (size : UInt32) :
    (∀ bytes ∈ s.played size, bytes ≤ size) ↔
      (size.toNat ≠ 0 →
        size.toNat / requestedWidth cfg * deviceWidth cfg pb % 0x100000000 ≤ size.toNat) := by
  unfold Stream.played
  split
  · rename_i hzero
    simp [hzero]
  · rename_i hne
    have hne' : size.toNat ≠ 0 := fun hzero => hne (UInt32.toNat_inj.mp hzero)
    simp only [Option.mem_def, Option.some.injEq, forall_eq']
    rw [UInt32.le_iff_toNat_le, Device.bytesOf, UInt32.mul_assoc, UInt32.toNat_mul, hwidth,
      UInt32.toNat_div, hcfg]
    simp only [hne', ne_eq, not_false_eq_true, forall_const]
    rfl

/-- **The buffers are respected exactly when the widths agree.** For every configuration and every
pair of devices with which `bb_audio_stream_init` returns 0, every captured frame fits its buffer
and the buffer it is copied to, and no more is played than it holds, if and only if the buffer
holds no frame at all, or a requested frame is empty or at least as wide as one of the playback
device, and a period of requested frames fits the buffer. -/
theorem within_iff (cfg : Config) (cap pb : Caps) (o : Outcome) (s : Stream)
    (h : streamInit cfg cap pb o = some s) : s.Within ↔ Bounded cfg cap pb := by
  obtain ⟨hcfg, hfmt, -, hframe, hcapWidth, hpbWidth, hperiod, hbuf, hpos⟩ :=
    streamInit_eq_some h
  have hk : requestedWidth cfg < 0x100000000 := UInt32.toNat_lt _
  have hq : deviceWidth cfg pb < 0x100000000 := UInt32.toNat_lt _
  have hlt : periodBytes cfg cap < 0x100000000 := Nat.mod_lt _ (by decide)
  rw [Bounded, ← sizes_iff hk hq hpos hlt, Stream.Within, ← hperiod, hframe]
  constructor
  · intro hwithin N hN hsmall
    have hmul : N * deviceWidth cfg cap ≤ periodBytes cfg cap :=
      le_trans (Nat.mul_le_mul_right _ hN) (Nat.div_mul_le_self _ _)
    have hn : (UInt32.ofNat (N * deviceWidth cfg cap)).toNat = N * deviceWidth cfg cap :=
      UInt32.toNat_ofNat_of_lt' (Nat.lt_of_le_of_lt hmul hlt)
    have hle : UInt32.ofNat (N * deviceWidth cfg cap) ≤ s.capDev.periodBytes := by
      rw [UInt32.le_iff_toNat_le, hn, hbuf]
      exact hmul
    have hcaptured := captured_eq hcfg hcapWidth (UInt32.ofNat (N * deviceWidth cfg cap))
    rw [hn, Nat.mul_div_cancel _ hpos, if_pos hsmall] at hcaptured
    obtain ⟨hfit, -, hplayed⟩ := hwithin _ hle _ hcaptured
    rw [UInt32.le_iff_toNat_le, toNat_framesToBytes hsmall, hbuf] at hfit
    rw [forall_played_iff hcfg hpbWidth, toNat_framesToBytes hsmall] at hplayed
    exact ⟨hfit, hplayed⟩
  · intro hall n hn size hsize
    rw [captured_eq hcfg hcapWidth] at hsize
    split_ifs at hsize with hsmall
    · cases hsize
      have hN : n.toNat / deviceWidth cfg cap ≤ periodBytes cfg cap / deviceWidth cfg cap := by
        refine Nat.div_le_div_right ?_
        rw [← hbuf, ← UInt32.le_iff_toNat_le]
        exact hn
      obtain ⟨hfit, hplay⟩ := hall _ hN hsmall
      have hle : framesToBytes (UInt32.ofNat (n.toNat / deviceWidth cfg cap)) cfg.channels cfg.fmt ≤
          s.capDev.periodBytes := by
        rw [UInt32.le_iff_toNat_le, toNat_framesToBytes hsmall, hbuf]
        exact hfit
      refine ⟨hle, hle, ?_⟩
      rw [forall_played_iff hcfg hpbWidth, toNat_framesToBytes hsmall]
      exact hplay
    · cases hsize

theorem clampU32_of_mem {x lo hi : UInt32} (hlo : lo ≤ x) (hhi : x ≤ hi) :
    clampU32 x lo hi = x := by
  have hnlo : ¬ x < lo := UInt32.not_lt.mpr hlo
  have hnhi : ¬ x > hi := UInt32.not_lt.mpr hhi
  rw [clampU32, if_neg hnlo, if_neg hnhi]

/-- Devices that both take the requested channels. -/
theorem bounded_of_channels (hcap : cap.channelsMin ≤ cfg.channels)
    (hcap' : cfg.channels ≤ cap.channelsMax) (hpb : pb.channelsMin ≤ cfg.channels)
    (hpb' : cfg.channels ≤ pb.channelsMax) : Bounded cfg cap pb := by
  have hb : deviceWidth cfg cap = requestedWidth cfg := by
    rw [deviceWidth, clampU32_of_mem hcap hcap', requestedWidth]
  have hq : deviceWidth cfg pb = requestedWidth cfg := by
    rw [deviceWidth, clampU32_of_mem hpb hpb', requestedWidth]
  refine Or.inr ⟨Or.inr (Nat.le_of_eq hq), ?_⟩
  rw [hb, Fits]
  split
  · exact Nat.div_mul_le_self _ _
  · intro n hn _
    calc n * requestedWidth cfg % 0x100000000
        ≤ n * requestedWidth cfg := Nat.mod_le _ _
      _ ≤ periodBytes cfg cap / requestedWidth cfg * requestedWidth cfg :=
        Nat.mul_le_mul_right _ hn
      _ ≤ periodBytes cfg cap := Nat.div_mul_le_self _ _

end Law

/-! ## Two devices -/

/-- A codec with both channel counts, 48 kHz. -/
def stereoCaps : Caps where
  channelsMin := 1
  channelsMax := 2
  rateMin := 8000
  rateMax := 48000
  periodMin := 32
  periodMax := 8192
  bufferMax := 16384
  bytesMax := 65536

/-- The same with a single channel. -/
def monoCaps : Caps := { stereoCaps with channelsMax := 1 }

def stereoConfig : Config := { rate := 48000, channels := 2, fmt := .s16 }

def allOk : Outcome := { capOk := true, pbOk := true, poolsOk := true }

theorem stereo_within :
    ∃ s, streamInit stereoConfig stereoCaps stereoCaps allOk = some s ∧ s.Within := by
  obtain ⟨s, hs⟩ : ∃ s, streamInit stereoConfig stereoCaps stereoCaps allOk = some s := ⟨_, rfl⟩
  have hbounded : Bounded stereoConfig stereoCaps stereoCaps :=
    bounded_of_channels (by decide) (by decide) (by decide) (by decide)
  exact ⟨s, hs, (within_iff stereoConfig stereoCaps stereoCaps allOk s hs).mpr hbounded⟩

/-- Two channels are requested of a device with one: a period of 960 bytes is given the size
1920. -/
theorem mono_overflow :
    ∃ s, streamInit stereoConfig monoCaps stereoCaps allOk = some s ∧
      s.frameSize = 960 ∧ s.captured 960 = some 1920 ∧ ¬ s.Within := by
  refine ⟨_, rfl, by decide, by decide, ?_⟩
  intro hwithin
  have hfit := (hwithin 960 (by decide) 1920 (by decide)).2.1
  exact absurd hfit (by decide)

end Audio
end BuildingBlocks
