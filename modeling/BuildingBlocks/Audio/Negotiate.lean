import BuildingBlocks.Audio.Bounds
import Mathlib.Algebra.Group.Nat.Defs

/-!
# BuildingBlocks.Audio.Negotiate

The values `bb_audio_open` chooses from the ranges of the device, when every ioctl succeeds.

* `swParams` are the software parameters, with the loop that doubles `boundary`.
* `framesPerPeriod` and `framesPerBuffer` are what the chosen sizes are in closed form.
* `Sound` is what the values are for: nothing wrapped around, the sizes are within the limits, the
  loop ended, and a full buffer starts the stream.
* `negotiated_iff` — the device must have room for one period, for playback two, and stay below
  `2 ^ 30` frames.
-/

namespace BuildingBlocks
namespace Audio

/-- `bb_audio_dir_t`. -/
inductive Dir where
  | capture
  | playback
deriving DecidableEq, Repr

/-- The software parameters that depend on the sizes; `snd_pcm_uframes_t` has 64 bits. -/
structure SwParams where
  availMin : UInt64
  startThreshold : UInt64
  stopThreshold : UInt64
  boundary : UInt64
deriving DecidableEq, Repr

/-- `while (sw.boundary < a->buffer_frames * 2) sw.boundary *= 2`. -/
def boundaryLoop (bufferFrames : UInt32) : Nat → UInt64 → Option UInt64
  | 0, _ => none
  | fuel + 1, boundary =>
    if boundary < (bufferFrames * 2).toUInt64 then boundaryLoop bufferFrames fuel (boundary * 2)
    else some boundary

/-- A recording starts at once, playback with two periods in the buffer. -/
def Dir.startThreshold (dir : Dir) (periodFrames : UInt32) : UInt32 :=
  match dir with
  | .capture => 1
  | .playback => periodFrames * 2

/-- Phase 3 of `bb_audio_open`. -/
def swParams (dir : Dir) (a : Device) (fuel : Nat) : Option SwParams :=
  (boundaryLoop a.bufferFrames fuel (a.bufferFrames * 4).toUInt64).map fun boundary =>
    { availMin := a.periodFrames.toUInt64
      startThreshold := (dir.startThreshold a.periodFrames).toUInt64
      stopThreshold := a.bufferFrames.toUInt64
      boundary := boundary }

/-- The ranges of a device that has some: no minimum is 0 or above its maximum. The minima of the
buffer are not read. -/
structure Ranges extends Caps where
  channels : 1 ≤ channelsMin ∧ channelsMin ≤ channelsMax
  rate : 1 ≤ rateMin ∧ rateMin ≤ rateMax
  period : 1 ≤ periodMin ∧ periodMin ≤ periodMax
  buffer : 1 ≤ bufferMax
  bytes : 1 ≤ bytesMax

/-- No product wrapped around. No sum is formed, and a quotient does not. -/
structure Exact (dir : Dir) (a : Device) : Prop where
  width : (a.channels * a.fmt.bytes).toNat = a.channels.toNat * a.fmt.bytes.toNat
  periodBytes : a.periodBytes.toNat = a.periodFrames.toNat * a.channels.toNat * a.fmt.bytes.toNat
  startThreshold : dir = .playback → (a.periodFrames * 2).toNat = a.periodFrames.toNat * 2
  boundary : (a.bufferFrames * 4).toNat = a.bufferFrames.toNat * 4
  bound : (a.bufferFrames * 2).toNat = a.bufferFrames.toNat * 2

/-- The values a device was opened with serve. -/
structure Sound (caps : Caps) (dir : Dir) (a : Device) (sw : SwParams) : Prop where
  exact : Exact dir a
  period : caps.periodMin ≤ a.periodFrames ∧ a.periodFrames ≤ caps.periodMax
  positive : 0 < a.bufferFrames.toNat
  multiple : a.periodFrames.toNat ∣ a.bufferFrames.toNat
  frames : a.bufferFrames ≤ caps.bufferMax
  bytes : a.bufferFrames.toNat * (a.channels.toNat * a.fmt.bytes.toNat) ≤ caps.bytesMax.toNat
  boundary : a.bufferFrames.toNat * 2 ≤ sw.boundary.toNat
  start : sw.startThreshold.toNat ≤ a.bufferFrames.toNat

/-! ## The condition -/

section Condition

variable (caps : Caps) (rate channels : UInt32) (fmt : Fmt)

/-- The bytes of a frame. -/
def frameWidth : Nat :=
  max caps.channelsMin.toNat (min channels.toNat caps.channelsMax.toNat) * fmt.bytes.toNat

/-- About 10 ms, at least 16, within the range of the device. -/
def framesPerPeriod : Nat :=
  let target := max caps.rateMin.toNat (min rate.toNat caps.rateMax.toNat) / 100
  min caps.periodMax.toNat (max 16 (max caps.periodMin.toNat (min target caps.periodMax.toNat)))

/-- The whole periods within both limits of the buffer. -/
def framesPerBuffer : Nat :=
  min caps.bufferMax.toNat (caps.bytesMax.toNat / frameWidth caps channels fmt) /
    framesPerPeriod caps rate * framesPerPeriod caps rate

end Condition

/-- The periods a stream is started with. -/
def Dir.periods : Dir → Nat
  | .capture => 1
  | .playback => 2

/-- The periods the stream is started with are within the limits of the buffer, and the buffer is
not so large that four of it wrap around. -/
structure Roomy (caps : Caps) (dir : Dir) (rate channels : UInt32) (fmt : Fmt) : Prop where
  width : frameWidth caps channels fmt < 2 ^ 32
  frames : dir.periods * framesPerPeriod caps rate ≤ caps.bufferMax.toNat
  bytes : dir.periods * framesPerPeriod caps rate * frameWidth caps channels fmt ≤
    caps.bytesMax.toNat
  small : framesPerBuffer caps rate channels fmt < 2 ^ 30

/-! ## The chosen values -/

theorem toNat_clampU32 {v lo hi : UInt32} (h : lo ≤ hi) :
    (clampU32 v lo hi).toNat = max lo.toNat (min v.toNat hi.toNat) := by
  rw [UInt32.le_iff_toNat_le] at h
  simp only [clampU32, UInt32.lt_iff_toNat_lt]
  split_ifs <;> omega

section Values

variable (r : Ranges) (rate channels : UInt32) (fmt : Fmt)

theorem toNat_periodTarget :
    (periodTarget r.toCaps rate).toNat = framesPerPeriod r.toCaps rate := by
  have hle := r.period.2
  rw [UInt32.le_iff_toNat_le] at hle
  have hrate : (clampU32 rate r.rateMin r.rateMax / 100).toNat =
      max r.rateMin.toNat (min rate.toNat r.rateMax.toNat) / 100 := by
    rw [UInt32.toNat_div, toNat_clampU32 r.rate.2]
    rfl
  have htarget := toNat_clampU32 (v := clampU32 rate r.rateMin r.rateMax / 100) r.period.2
  rw [hrate] at htarget
  simp only [periodTarget, framesPerPeriod, ← htarget]
  have h16 : (16 : UInt32).toNat = 16 := rfl
  split_ifs with h1 h2 h2 <;> rw [UInt32.lt_iff_toNat_lt] at h1 h2 <;> omega

theorem periodTarget_mem :
    r.periodMin.toNat ≤ framesPerPeriod r.toCaps rate ∧
      framesPerPeriod r.toCaps rate ≤ r.periodMax.toNat := by
  have hle := r.period.2
  rw [UInt32.le_iff_toNat_le] at hle
  simp only [framesPerPeriod]
  omega

theorem framesPerPeriod_pos : 0 < framesPerPeriod r.toCaps rate := by
  have hmin := r.period.1
  rw [UInt32.le_iff_toNat_le] at hmin
  exact lt_of_lt_of_le hmin (periodTarget_mem r rate).1

theorem two_le_bytes : 2 ≤ fmt.bytes.toNat := by cases fmt <;> decide

theorem frameWidth_eq :
    frameWidth r.toCaps channels fmt =
      (clampU32 channels r.channelsMin r.channelsMax).toNat * fmt.bytes.toNat := by
  rw [frameWidth, toNat_clampU32 r.channels.2]

theorem two_le_frameWidth : 2 ≤ frameWidth r.toCaps channels fmt := by
  have hmin := r.channels.1
  rw [UInt32.le_iff_toNat_le] at hmin
  have hone : 1 ≤ max r.channelsMin.toNat (min channels.toNat r.channelsMax.toNat) :=
    Nat.le_trans hmin (Nat.le_max_left _ _)
  exact Nat.mul_le_mul hone (two_le_bytes fmt)

/-- The two limits of the buffer, in frames. -/
theorem le_limits_iff (n : Nat) :
    n ≤ min r.bufferMax.toNat (r.bytesMax.toNat / frameWidth r.toCaps channels fmt) ↔
      n ≤ r.bufferMax.toNat ∧ n * frameWidth r.toCaps channels fmt ≤ r.bytesMax.toNat := by
  have hwidth := two_le_frameWidth r channels fmt
  rw [Nat.le_min, Nat.le_div_iff_mul_le (by omega)]

/-- The buffer holds `k` periods when the limits do. -/
theorem periods_le_iff (k : Nat) :
    k * framesPerPeriod r.toCaps rate ≤ framesPerBuffer r.toCaps rate channels fmt ↔
      k * framesPerPeriod r.toCaps rate ≤ r.bufferMax.toNat ∧
        k * framesPerPeriod r.toCaps rate * frameWidth r.toCaps channels fmt ≤
          r.bytesMax.toNat := by
  have hpos := framesPerPeriod_pos r rate
  rw [framesPerBuffer, Nat.mul_le_mul_right_iff hpos, Nat.le_div_iff_mul_le hpos, le_limits_iff]

theorem framesPerBuffer_mem :
    framesPerBuffer r.toCaps rate channels fmt ≤ r.bufferMax.toNat ∧
      framesPerBuffer r.toCaps rate channels fmt * frameWidth r.toCaps channels fmt ≤
        r.bytesMax.toNat :=
  (le_limits_iff r channels fmt _).mp (Nat.div_mul_le_self _ _)

theorem toNat_bufferTarget {width : UInt32}
    (hwidth : width.toNat = frameWidth r.toCaps channels fmt) :
    (bufferTarget r.toCaps width (periodTarget r.toCaps rate)).toNat =
      framesPerBuffer r.toCaps rate channels fmt := by
  have hmost :
      (if r.bytesMax / width < r.bufferMax then r.bytesMax / width else r.bufferMax).toNat =
        min r.bufferMax.toNat (r.bytesMax.toNat / frameWidth r.toCaps channels fmt) := by
    rw [← hwidth, ← UInt32.toNat_div]
    split_ifs with h <;> rw [UInt32.lt_iff_toNat_lt] at h <;> omega
  have hlt : framesPerBuffer r.toCaps rate channels fmt < 2 ^ 32 :=
    lt_of_le_of_lt (framesPerBuffer_mem r rate channels fmt).1 (UInt32.toNat_lt _)
  simp only [bufferTarget]
  rw [UInt32.toNat_mul, UInt32.toNat_div, hmost, toNat_periodTarget]
  exact Nat.mod_eq_of_lt hlt

end Values

/-! ## The loop -/

section Loop

variable {n : UInt32} {fuel : Nat} {b b' : UInt64}

theorem toNat_bound (n : UInt32) : (n * 2).toUInt64.toNat < 2 ^ 32 := by
  rw [UInt32.toNat_toUInt64]
  exact UInt32.toNat_lt _

theorem boundaryLoop_ge (h : boundaryLoop n fuel b = some b') : (n * 2).toNat ≤ b'.toNat := by
  induction fuel generalizing b with
  | zero => cases h
  | succ fuel ih =>
    simp only [boundaryLoop] at h
    split_ifs at h with hlt
    · exact ih h
    · cases h
      rw [UInt64.lt_iff_toNat_lt, UInt32.toNat_toUInt64] at hlt
      omega

/-- Doubling `k` times is enough where `b * 2 ^ k` is behind every bound. -/
theorem boundaryLoop_ends {k : Nat} (h : 2 ^ 32 ≤ b.toNat * 2 ^ k) :
    ∃ b', boundaryLoop n (k + 1) b = some b' := by
  induction k generalizing b with
  | zero =>
    have hbound := toNat_bound n
    have hlt : ¬ b < (n * 2).toUInt64 := by
      rw [UInt64.lt_iff_toNat_lt]
      omega
    exact ⟨b, by simp only [boundaryLoop, if_neg hlt]⟩
  | succ k ih =>
    rw [boundaryLoop]
    split_ifs with hlt
    · refine ih ?_
      have hbound := toNat_bound n
      rw [UInt64.lt_iff_toNat_lt] at hlt
      have hdouble : (b * 2).toNat = b.toNat * 2 := by
        rw [UInt64.toNat_mul]
        exact Nat.mod_eq_of_lt (by simp; omega)
      rw [hdouble, Nat.mul_assoc, ← Nat.pow_succ']
      exact h
    · exact ⟨b, rfl⟩

/-- A `boundary` of zero stays zero. -/
theorem boundaryLoop_zero (h : n * 2 ≠ 0) : boundaryLoop n fuel 0 = none := by
  have hlt : (0 : UInt64) < (n * 2).toUInt64 := by
    rw [UInt64.lt_iff_toNat_lt, UInt32.toNat_toUInt64]
    exact Nat.pos_of_ne_zero fun hzero => h (UInt32.toNat_inj.mp hzero)
  induction fuel with
  | zero => rfl
  | succ fuel ih => rw [boundaryLoop, if_pos hlt, UInt64.zero_mul, ih]

/-- The loop ends exactly where `audioOpen` says it does. -/
theorem boundaryLoop_iff :
    (∃ fuel b, boundaryLoop n fuel (n * 4).toUInt64 = some b) ↔ (n * 4 = 0 → n * 2 = 0) := by
  constructor
  · rintro ⟨fuel, b, h⟩ hzero
    by_contra hne
    rw [hzero] at h
    rw [show ((0 : UInt32).toUInt64) = 0 from rfl, boundaryLoop_zero hne] at h
    cases h
  · intro hzero
    by_cases hn : n * 4 = 0
    · refine ⟨1, _, if_neg ?_⟩
      rw [hn, hzero hn]
      decide
    · have hpos : 0 < (n * 4).toNat := Nat.pos_of_ne_zero fun h => hn (UInt32.toNat_inj.mp h)
      obtain ⟨b, hb⟩ := boundaryLoop_ends (n := n) (b := (n * 4).toUInt64) (k := 32) (by
        rw [UInt32.toNat_toUInt64]
        omega)
      exact ⟨33, b, hb⟩

end Loop

/-! ## The law -/

section Law

variable {r : Ranges} {dir : Dir} {rate channels : UInt32} {fmt : Fmt} {ok : Bool} {a : Device}
  {fuel : Nat} {sw : SwParams}

/-- What `bb_audio_open` leaves when it returns. -/
theorem audioOpen_values (h : audioOpen r.toCaps rate channels fmt ok = some a) :
    a.channels.toNat * a.fmt.bytes.toNat = frameWidth r.toCaps channels fmt ∧
      a.periodFrames.toNat = framesPerPeriod r.toCaps rate ∧
      a.periodBytes = a.periodFrames * a.channels * a.fmt.bytes ∧
      ((a.channels * a.fmt.bytes).toNat = frameWidth r.toCaps channels fmt →
        a.bufferFrames.toNat = framesPerBuffer r.toCaps rate channels fmt) ∧
      (a.bufferFrames * 4 = 0 → a.bufferFrames * 2 = 0) := by
  unfold audioOpen at h
  simp only at h
  split_ifs at h with hc
  cases h
  exact ⟨(frameWidth_eq r channels fmt).symm, toNat_periodTarget r rate, rfl,
    toNat_bufferTarget r rate channels fmt, hc.2.2.2⟩

/-- Where the width of a frame and the buffer are not too large, nothing keeps `bb_audio_open` from
returning. -/
theorem exists_audioOpen (hwidth : frameWidth r.toCaps channels fmt < 2 ^ 32)
    (hsmall : framesPerBuffer r.toCaps rate channels fmt < 2 ^ 30) :
    ∃ a, audioOpen r.toCaps rate channels fmt true = some a := by
  have hexact : (clampU32 channels r.channelsMin r.channelsMax * fmt.bytes).toNat =
      frameWidth r.toCaps channels fmt := by
    rw [UInt32.toNat_mul, ← frameWidth_eq, Nat.mod_eq_of_lt hwidth]
  have hB := toNat_bufferTarget r rate channels fmt hexact
  have htwo := two_le_frameWidth r channels fmt
  have hppos := framesPerPeriod_pos r rate
  refine ⟨_, if_pos ⟨rfl, fun h => ?_, fun h => ?_, fun h => ?_⟩⟩
  · have hzero := congrArg UInt32.toNat h
    rw [hexact] at hzero
    simp only [UInt32.toNat_zero] at hzero
    omega
  · have hzero := congrArg UInt32.toNat h
    rw [toNat_periodTarget] at hzero
    simp only [UInt32.toNat_zero] at hzero
    omega
  · have hzero := congrArg UInt32.toNat h
    rw [UInt32.toNat_mul, hB] at hzero
    have h4 : (4 : UInt32).toNat = 4 := rfl
    have hnone : framesPerBuffer r.toCaps rate channels fmt = 0 := by
      simp only [h4, UInt32.toNat_zero] at hzero
      omega
    rw [← UInt32.toNat_inj, UInt32.toNat_mul, hB, hnone]
    rfl

theorem swParams_eq_some (h : swParams dir a fuel = some sw) :
    (a.bufferFrames * 2).toNat ≤ sw.boundary.toNat ∧
      sw.startThreshold.toNat = (dir.startThreshold a.periodFrames).toNat := by
  simp only [swParams, Option.map_eq_some_iff] at h
  obtain ⟨b, hb, rfl⟩ := h
  exact ⟨boundaryLoop_ge hb, UInt32.toNat_toUInt64 _⟩

/-- A multiple that fits into 32 bits does not wrap around. -/
theorem toNat_mul_eq {x y : UInt32} {m : Nat} (h : x.toNat * y.toNat = m) (hm : m < 2 ^ 32) :
    (x * y).toNat = m := by
  rw [UInt32.toNat_mul, h, Nat.mod_eq_of_lt hm]

theorem Roomy.exact (hr : Roomy r.toCaps dir rate channels fmt)
    (ha : audioOpen r.toCaps rate channels fmt ok = some a) : Exact dir a := by
  obtain ⟨hwidth, hperiod, hperiodBytes, hframes, -⟩ := audioOpen_values ha
  have hexact := toNat_mul_eq hwidth hr.width
  have hB := hframes hexact
  have hsmall := hr.small
  have hfits := hr.frames
  have hone : framesPerPeriod r.toCaps rate ≤ dir.periods * framesPerPeriod r.toCaps rate := by
    cases dir <;> simp only [Dir.periods] <;> omega
  have hbytes : framesPerPeriod r.toCaps rate * frameWidth r.toCaps channels fmt < 2 ^ 32 :=
    Nat.lt_of_le_of_lt (Nat.le_trans (Nat.mul_le_mul_right _ hone) hr.bytes) (UInt32.toNat_lt _)
  refine ⟨?_, ?_, ?_, ?_, ?_⟩
  · rw [hexact, hwidth]
  · rw [hperiodBytes, UInt32.mul_assoc, Nat.mul_assoc, hwidth]
    exact toNat_mul_eq (by rw [hexact, hperiod]) (by rwa [hperiod])
  · rintro rfl
    have hmax := UInt32.toNat_lt r.bufferMax
    rw [Dir.periods] at hfits
    exact toNat_mul_eq rfl (by omega)
  · exact toNat_mul_eq rfl (by omega)
  · exact toNat_mul_eq rfl (by omega)

theorem Roomy.sound (hr : Roomy r.toCaps dir rate channels fmt)
    (ha : audioOpen r.toCaps rate channels fmt ok = some a) (hsw : swParams dir a fuel = some sw) :
    Sound r.toCaps dir a sw := by
  obtain ⟨hwidth, hperiod, -, hframes, -⟩ := audioOpen_values ha
  obtain ⟨hboundary, hstart⟩ := swParams_eq_some hsw
  have hexact := hr.exact ha
  have hB := hframes (by rw [hexact.width, hwidth])
  have hppos := framesPerPeriod_pos r rate
  have hmem := periodTarget_mem r rate
  have hbuffer := framesPerBuffer_mem r rate channels fmt
  have hroom := (periods_le_iff r rate channels fmt dir.periods).mpr ⟨hr.frames, hr.bytes⟩
  have hone : framesPerPeriod r.toCaps rate ≤ dir.periods * framesPerPeriod r.toCaps rate := by
    cases dir <;> simp only [Dir.periods] <;> omega
  refine ⟨hexact, ⟨?_, ?_⟩, ?_, ?_, ?_, ?_, ?_, ?_⟩
  · rw [UInt32.le_iff_toNat_le, hperiod]
    exact hmem.1
  · rw [UInt32.le_iff_toNat_le, hperiod]
    exact hmem.2
  · omega
  · rw [hB, hperiod]
    exact Nat.dvd_mul_left _ _
  · rw [UInt32.le_iff_toNat_le, hB]
    exact hbuffer.1
  · rw [hB, hwidth]
    exact hbuffer.2
  · rwa [← hexact.bound]
  · rw [hstart, hB]
    cases dir with
    | capture =>
      show 1 ≤ _
      omega
    | playback =>
      rw [Dir.startThreshold, hexact.startThreshold rfl, hperiod]
      rw [Dir.periods] at hroom
      omega

theorem Sound.roomy (hs : Sound r.toCaps dir a sw)
    (ha : audioOpen r.toCaps rate channels fmt ok = some a) (hsw : swParams dir a fuel = some sw) :
    Roomy r.toCaps dir rate channels fmt := by
  obtain ⟨hwidth, hperiod, -, hframes, -⟩ := audioOpen_values ha
  obtain ⟨-, hstart⟩ := swParams_eq_some hsw
  have hexact := hs.exact.width
  rw [hwidth] at hexact
  have hB := hframes hexact
  have hroom : dir.periods * framesPerPeriod r.toCaps rate ≤
      framesPerBuffer r.toCaps rate channels fmt := by
    rw [← hB, ← hperiod]
    cases dir with
    | capture =>
      rw [Dir.periods, Nat.one_mul]
      exact Nat.le_of_dvd hs.positive hs.multiple
    | playback =>
      have hle := hs.start
      rw [hstart, Dir.startThreshold, hs.exact.startThreshold rfl] at hle
      rw [Dir.periods]
      omega
  rw [periods_le_iff] at hroom
  refine ⟨?_, hroom.1, hroom.2, ?_⟩
  · rw [← hexact]
    exact UInt32.toNat_lt _
  · have hquad := hs.exact.boundary
    have hlt := UInt32.toNat_lt (a.bufferFrames * 4)
    omega

/-- **The chosen values serve exactly when the device has room for them.** For all ranges with
`1 ≤ min ≤ max` and every request, with ioctls that succeed: `bb_audio_open` divides by no zero, its
products do not wrap around, its loop ends, and the values are within the limits and start the
stream, if and only if the limits of the buffer have room for one period, for playback two, and the
buffer stays below `2 ^ 30` frames. -/
theorem negotiated_iff (r : Ranges) (dir : Dir) (rate channels : UInt32) (fmt : Fmt) :
    (∃ a fuel sw, audioOpen r.toCaps rate channels fmt true = some a ∧
        swParams dir a fuel = some sw ∧ Sound r.toCaps dir a sw) ↔
      Roomy r.toCaps dir rate channels fmt := by
  constructor
  · rintro ⟨a, fuel, sw, ha, hsw, hs⟩
    exact hs.roomy ha hsw
  · intro hr
    obtain ⟨a, ha⟩ := exists_audioOpen hr.width hr.small
    obtain ⟨-, -, -, -, hloop⟩ := audioOpen_values ha
    obtain ⟨fuel, b, hb⟩ := boundaryLoop_iff.mpr hloop
    obtain ⟨sw, hsw⟩ : ∃ sw, swParams dir a fuel = some sw := by
      rw [swParams, hb]
      exact ⟨_, rfl⟩
    exact ⟨a, fuel, sw, ha, hsw, hr.sound ha hsw⟩

end Law

/-! ## A device with room for one period -/

/-- A codec whose buffer holds 10 ms at 48 kHz. -/
def shortRanges : Ranges where
  toCaps := { stereoCaps with bufferMax := 480 }
  channels := by decide
  rate := by decide
  period := by decide
  buffer := by decide
  bytes := by decide

/-- Playback waits for 960 frames, and the buffer has 480. -/
theorem short_never_starts :
    (∃ a sw, audioOpen shortRanges.toCaps 48000 2 .s16 true = some a ∧
      swParams .playback a 1 = some sw ∧ a.bufferFrames = 480 ∧ sw.startThreshold = 960) ∧
    ¬ ∃ a fuel sw, audioOpen shortRanges.toCaps 48000 2 .s16 true = some a ∧
      swParams .playback a fuel = some sw ∧ Sound shortRanges.toCaps .playback a sw := by
  refine ⟨⟨_, _, rfl, rfl, by decide, by decide⟩, ?_⟩
  rintro ⟨a, fuel, sw, ha, hsw, hs⟩
  have hroom := (hs.roomy ha hsw).frames
  exact absurd hroom (by decide)

end Audio
end BuildingBlocks
