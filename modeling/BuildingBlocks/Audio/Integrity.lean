import BuildingBlocks.Audio.Account
import BuildingBlocks.Audio.Drain
import BuildingBlocks.Lib.History
import BuildingBlocks.Lib.Picks
import BuildingBlocks.Pool.MpscOrder

/-!
# BuildingBlocks.Audio.Integrity

What is played is what was captured, without a codec.

* `record` notes what `bb_audio_read` left in a frame and what `bb_audio_write` is given.
* `Taped` follows a period through both pools: what the capture thread committed, what the codec
  thread copied and enqueued, what the playback thread took.
* `audio_intact` — no period is altered, none is played twice and none that was not read, in every
  schedule, over starts and stops; and they are played in order where the slots of the second pool
  agree with it.
-/

namespace BuildingBlocks
namespace Audio

open Pool Lib

/-- The bytes of a frame, as many as `size` says. -/
def Body.audio (b : Body) : List UInt8 := b.data.take b.size

/-- The audio of the frames that have any; `size` 0 means shutdown. -/
def sounding (bs : List Body) : List (List UInt8) := (bs.filter fun b => b.size ≠ 0).map Body.audio

/-- The audio of the frames of the first pool. -/
def taken (es : List (Int × Body)) : List (List UInt8) := es.map fun e => e.2.audio

/-- The buffer has the bytes. -/
def Fills (b : Body) : Prop := b.size ≤ b.data.length

/-- The periods read into frames, and those given to `bb_audio_write`. -/
structure Tape where
  read : List (List UInt8)
  written : List (List UInt8)
deriving DecidableEq, Repr

/-- The bytes of a read of `n` frames. -/
def readSize (c : Setup) (r : Read) : Nat :=
  (framesToBytes (UInt32.ofNat r.n.toNat) c.cfg.channels c.cfg.fmt).toNat

/-- A read leaves in the buffer what it says it has read. -/
def Complete (c : Setup) : Act → Prop
  | .cap r => 0 ≤ r.n → readSize c r ≤ r.data.length
  | _ => True

instance (c : Setup) : DecidablePred (Complete c)
  | .cap _ => inferInstanceAs (Decidable (_ → _))
  | .start | .spawn _ | .stop | .join | .codec _ | .pb _ => .isTrue trivial

namespace Pipeline

variable {N : Nat} {c : Setup} {s s' : Pipeline N} {t : Tape}

def record (c : Setup) (s : Pipeline N) (a : Act) (t : Tape) : Tape :=
  match a with
  | .cap r =>
    if s.cap = .read ∧ 0 ≤ r.n then { t with read := t.read ++ [r.data.take (readSize c r)] } else t
  | .pb _ =>
    match s.pb, s.mp.cons with
    | .write, .holds i => { t with written := t.written ++ [(s.mp.frames i).body.audio] }
    | _, _ => t
  | _ => t

/-- The codec thread marks a frame ready only behind the ready ones. -/
def InOrder (s : Pipeline N) : Act → Prop
  | .codec _ => s.codec = .enqueue ∨ s.codec = .sentinelEnqueue → s.mp.KeepsOrder (.mark ())
  | _ => True

instance (s : Pipeline N) : DecidablePred (InOrder s)
  | .codec _ => inferInstanceAs (Decidable (_ ∨ _ → _))
  | .start | .spawn _ | .stop | .join | .cap _ | .pb _ => .isTrue trivial

/-- What was read is committed, up to the frame the capture thread has. -/
def CapTaped (s : Pipeline N) (read : List (List UInt8)) : Prop :=
  if heldByCapture s.cap = 1 then
    ∃ idx, s.sp.prod = .owns idx ∧ Fills (s.sp.frames idx).body ∧
      read = taken s.sp.committed ++ [(s.sp.frames idx).body.audio]
  else read = taken s.sp.committed

/-- What was enqueued. -/
def forwarded (s : Pipeline N) : List (List UInt8) := sounding (s.mp.enqueued.map Prod.snd)

/-- What is enqueued was taken from the first pool, in this order, up to the frame the codec thread
has. -/
def CodecTaped (s : Pipeline N) : Prop :=
  (forwarded s).Sublist (taken s.sp.delivered) ∧
    match s.codec with
    | .acquire f | .encode f => ∃ front, s.sp.delivered = front ++ [(f, (s.sp.frames f).body)] ∧
        (forwarded s).Sublist (taken front)
    | .release _ | .enqueue => ∀ i, s.mp.prod () = .owns i →
        (forwarded s ++ [(s.mp.frames i).body.audio]).Sublist (taken s.sp.delivered)
    | .sentinelEnqueue => ∀ i, s.mp.prod () = .owns i → (s.mp.frames i).body.size = 0
    | .off | .top | .dequeue | .full _ | .fullRelease _ | .drain | .drainRelease _ | .post _
    | .sentinel | .done => True

/-- What the playback thread took from the second pool. -/
def played (s : Pipeline N) : List (List UInt8) := sounding (s.mp.delivered.map Prod.snd)

/-- The frame the playback thread has is the last one it took, and is not written yet. -/
def InHand (s : Pipeline N) (written : List (List UInt8)) (i : Fin N) : Prop :=
  ∃ front tok, s.mp.delivered = front ++ [(tok, (s.mp.frames i).body)] ∧
    written.Sublist (sounding (front.map Prod.snd))

/-- What was written was taken from the second pool, in this order. -/
def PbTaped (s : Pipeline N) (written : List (List UInt8)) : Prop :=
  written.Sublist (played s) ∧
    match s.pb with
    | .dequeue => ∀ i, s.mp.cons.taken = some i → InHand s written i
    | .test => ∀ i, s.mp.cons = .holds i → InHand s written i
    | .write => ∀ i, s.mp.cons = .holds i →
        InHand s written i ∧ (s.mp.frames i).body.size ≠ 0
    | .off | .top | .stat _ | .release | .leave _ | .done _ => True

structure Taped (s : Pipeline N) (t : Tape) : Prop where
  aligned : Aligned s
  sp : Spsc.Inv N s.sp
  ahead : s.sp.delivered <+: s.sp.committed
  fills : ∀ e ∈ s.sp.committed, Fills e.2
  cap : CapTaped s t.read
  codec : CodecTaped s
  pb : PbTaped s t.written

/-! ## Lists of frames -/

theorem sounding_concat (bs : List Body) (b : Body) :
    sounding (bs ++ [b]) = sounding bs ++ if b.size = 0 then [] else [b.audio] := by
  rw [sounding, List.filter_append, List.map_append]
  by_cases hb : b.size = 0
  · simp [sounding, hb]
  · simp [sounding, hb]

theorem sounding_concat_sublist (bs : List Body) (b : Body) :
    (sounding (bs ++ [b])).Sublist (sounding bs ++ [b.audio]) := by
  rw [sounding_concat]
  split
  · rw [List.append_nil]
    exact List.sublist_append_left _ _
  · exact List.Sublist.refl _

theorem taken_concat (es : List (Int × Body)) (e : Int × Body) :
    taken (es ++ [e]) = taken es ++ [e.2.audio] := by
  simp [taken]

theorem prefix_concat {α : Type*} {l m : List α} {x : α} (h : l <+: m)
    (hx : m[l.length]? = some x) : l ++ [x] <+: m := by
  obtain ⟨rest, rfl⟩ := h
  rw [List.getElem?_append_right (Nat.le_refl _), Nat.sub_self] at hx
  obtain ⟨more, rfl⟩ : ∃ more, rest = x :: more := by
    cases rest with
    | nil => cases hx
    | cons y more =>
      cases hx
      exact ⟨more, rfl⟩
  exact ⟨more, by rw [List.append_assoc, List.singleton_append]⟩

/-! ## What a thread leaves alone -/

theorem CodecTaped.congr (h : CodecTaped s) (hcodec : s'.codec = s.codec)
    (hdel : s'.sp.delivered = s.sp.delivered) (henq : s'.mp.enqueued = s.mp.enqueued)
    (hprod : s'.mp.prod () = s.mp.prod ())
    (hsp : ∀ f, f ∈ s.sp.held → (s'.sp.frames f).body = (s.sp.frames f).body)
    (hmp : ∀ i, (s'.mp.frames i).body = (s.mp.frames i).body)
    (hi : CodecSpOk s.codec s.sp.cons s.sp.held) : CodecTaped s' := by
  have hfwd : forwarded s' = forwarded s := by rw [forwarded, forwarded, henq]
  refine ⟨by rw [hfwd, hdel]; exact h.1, ?_⟩
  have hrest := h.2
  rw [hcodec, hfwd, hdel, hprod]
  cases hpc : s.codec <;> simp only [hpc] at hrest ⊢ <;> rw [hpc] at hi
  case acquire f | encode f =>
    have hheld : s.sp.held = [f] := hi.2
    rw [hsp f (by rw [hheld]; exact List.mem_singleton_self f)]
    exact hrest
  case release | enqueue | sentinelEnqueue => simpa only [hmp] using hrest

theorem PbTaped.congr {written : List (List UInt8)} (h : PbTaped s written) (hpb : s'.pb = s.pb)
    (hcons : s'.mp.cons = s.mp.cons) (hdel : s'.mp.delivered = s.mp.delivered)
    (hmp : ∀ i, s.mp.cons.taken = some i → (s'.mp.frames i).body = (s.mp.frames i).body) :
    PbTaped s' written := by
  have hplayed : played s' = played s := by rw [played, played, hdel]
  have hhand : ∀ i, s.mp.cons.taken = some i → InHand s written i → InHand s' written i := by
    intro i hi hin
    unfold InHand
    rw [hdel, hmp i hi]
    exact hin
  refine ⟨by rw [hplayed]; exact h.1, ?_⟩
  have hrest := h.2
  rw [hpb, hcons]
  cases hpc : s.pb <;> simp only [hpc] at hrest ⊢
  case dequeue => exact fun i hi => hhand i hi (hrest i hi)
  case test => exact fun i hi => hhand i (by rw [hi]; rfl) (hrest i hi)
  case write =>
    intro i hi
    have htaken : s.mp.cons.taken = some i := by rw [hi]; rfl
    rw [hmp i htaken]
    exact ⟨hhand i htaken (hrest i hi).1, (hrest i hi).2⟩

/-! ## The capture thread -/

/-- The capture thread takes nothing, and fills only the frame it owns. -/
theorem capStep_frames {r : Read} (h : capStep c s r = some s') :
    s'.sp.delivered = s.sp.delivered ∧ s.sp.committed <+: s'.sp.committed ∧
      ∀ f, s.sp.prod ≠ .owns f → (s'.sp.frames f).body = (s.sp.frames f).body := by
  rcases capStep_sp h with hsame | hstep | ⟨body, hstep⟩ | ⟨-, hstep⟩ | hstep
  · rw [hsame]
    exact ⟨rfl, List.prefix_refl _, fun _ _ => rfl⟩
  · rcases Spsc.acquire_cases hstep with ⟨-, hsp⟩ | ⟨w, -, hsp⟩ | ⟨w, -, hsp⟩ |
      ⟨idx, -, -, hsp⟩ | ⟨idx, -, hsp⟩ <;> rw [hsp]
    case inr.inr.inr.inl => exact ⟨rfl, List.prefix_refl _, fun _ _ => setRef_body _⟩
    all_goals exact ⟨rfl, List.prefix_refl _, fun _ _ => rfl⟩
  · obtain ⟨idx, hown, hsp⟩ := Spsc.fill_eq_some hstep
    rw [hsp]
    refine ⟨rfl, List.prefix_refl _, fun f hf => ?_⟩
    have hne : f ≠ idx := by
      rintro rfl
      exact hf hown
    dsimp only
    rw [setBody_of_ne _ hne]
  · obtain ⟨idx, -, hsp⟩ := Spsc.commit_eq_some hstep
    rw [hsp]
    exact ⟨rfl, List.prefix_append _ _, fun _ _ => rfl⟩
  · obtain ⟨idx, -, hsp⟩ := Spsc.abandon_eq_some hstep
    rw [hsp]
    exact ⟨rfl, List.prefix_refl _, fun _ _ => setRef_body _⟩

theorem record_cap_of_ne {r : Read} (h : s.cap ≠ .read) : record c s (.cap r) t = t := by
  rw [record, if_neg (fun hr => h hr.1)]

theorem capTaped_held {read : List (List UInt8)} (h : heldByCapture s.cap = 1) :
    CapTaped s read ↔ ∃ idx, s.sp.prod = .owns idx ∧ Fills (s.sp.frames idx).body ∧
      read = taken s.sp.committed ++ [(s.sp.frames idx).body.audio] := by
  rw [CapTaped, if_pos h]

theorem capTaped_free {read : List (List UInt8)} (h : heldByCapture s.cap = 0) :
    CapTaped s read ↔ read = taken s.sp.committed := by
  rw [CapTaped, if_neg (by omega)]

/-- Where the capture thread has no filled frame before and after, and nothing is committed. -/
theorem CapTaped.congr {read : List (List UInt8)} (h : CapTaped s read)
    (hheld : heldByCapture s.cap = 0) (hheld' : heldByCapture s'.cap = 0)
    (hcom : s'.sp.committed = s.sp.committed) : CapTaped s' read := by
  rw [capTaped_free hheld', hcom]
  exact (capTaped_free hheld).mp h

theorem capStep_cap {r : Read} (hi : CapTaped s t.read) (hfills : ∀ e ∈ s.sp.committed, Fills e.2)
    (hc : Complete c (.cap r)) (h : capStep c s r = some s') :
    CapTaped s' (record c s (.cap r) t).read ∧ ∀ e ∈ s'.sp.committed, Fills e.2 := by
  cases hpc : s.cap <;> simp only [capStep, hpc, Option.map_eq_some_iff, reduceCtorEq] at h
  case read =>
    split at h
    · -- the read failed
      rename_i hneg
      cases h
      rw [record, if_neg (fun hr => absurd hr.2 (by omega))]
      exact ⟨hi.congr (by rw [hpc]; rfl) rfl rfl, hfills⟩
    · rename_i hpos
      split at h
      · rename_i idx hown
        obtain ⟨sp, hstep, rfl⟩ := Option.map_eq_some_iff.mp h
        obtain ⟨idx', hown', rfl⟩ := Spsc.fill_eq_some hstep
        obtain rfl : idx = idx' := by simpa [hown] using hown'
        have hread := (capTaped_free (by rw [hpc]; rfl)).mp hi
        rw [record, if_pos ⟨hpc, by omega⟩]
        refine ⟨(capTaped_held rfl).mpr ⟨idx, hown, ?_, ?_⟩, hfills⟩
        · simpa [setBody, Fills, readSize] using hc (by omega)
        · simp only [setBody, Function.update_self, Body.audio, readSize]
          rw [hread]
      · cases h
  case count n =>
    cases h
    rw [record_cap_of_ne (by rw [hpc]; exact CapPc.noConfusion)]
    have hread := (capTaped_held (by rw [hpc]; rfl)).mp hi
    exact ⟨(capTaped_held rfl).mpr hread, hfills⟩
  case commit =>
    obtain ⟨sp, hstep, rfl⟩ := h
    obtain ⟨idx, hown, rfl⟩ := Spsc.commit_eq_some hstep
    obtain ⟨idx', hown', hfill, hread⟩ := (capTaped_held (by rw [hpc]; rfl)).mp hi
    obtain rfl : idx = idx' := by simpa [hown] using hown'
    rw [record_cap_of_ne (by rw [hpc]; exact CapPc.noConfusion)]
    refine ⟨(capTaped_free rfl).mpr ?_, ?_⟩
    · rw [taken_concat]
      exact hread
    · intro e he
      rcases List.mem_append.mp he with hold | hnew
      · exact hfills e hold
      · rw [List.mem_singleton.mp hnew]
        exact hfill
  all_goals rw [record_cap_of_ne (by rw [hpc]; exact CapPc.noConfusion)]
  all_goals have hheld : heldByCapture s.cap = 0 := by rw [hpc]; rfl
  case top =>
    cases h
    refine ⟨hi.congr hheld ?_ rfl, hfills⟩
    dsimp only
    split <;> rfl
  case acquire =>
    obtain ⟨sp, hstep, rfl⟩ := h
    rcases Spsc.acquire_cases hstep with ⟨-, rfl⟩ | ⟨w, -, rfl⟩ | ⟨w, -, rfl⟩ |
        ⟨idx, -, -, rfl⟩ | ⟨idx, -, rfl⟩ <;>
      exact ⟨hi.congr hheld rfl rfl, hfills⟩
  case discard => split at h <;> cases h <;> exact ⟨hi.congr hheld rfl rfl, hfills⟩
  case release n =>
    obtain ⟨sp, hstep, rfl⟩ := h
    obtain ⟨idx, -, rfl⟩ := Spsc.abandon_eq_some hstep
    split
    · refine ⟨hi.congr hheld ?_ rfl, hfills⟩
      dsimp only
      split <;> rfl
    · exact ⟨hi.congr hheld rfl rfl, hfills⟩
  case full | fail =>
    cases h
    exact ⟨hi.congr hheld rfl rfl, hfills⟩

theorem capStep_taped {r : Read} (ht : Taped s t) (hc : Complete c (.cap r))
    (h : capStep c s r = some s') (hsp : Spsc.Inv N s'.sp) :
    Taped s' (record c s (.cap r) t) := by
  obtain ⟨hdel, hcom, hframes⟩ := capStep_frames h
  obtain ⟨hcap, hfills⟩ := capStep_cap ht.cap ht.fills hc h
  have haligned := capStep_aligned ht.aligned h
  -- the frame the codec thread has is not the capture thread's
  have hheld : ∀ f ∈ s.sp.held, (s'.sp.frames f).body = (s.sp.frames f).body := by
    intro f hf
    refine hframes f (fun hown => ?_)
    have hprod := ht.sp.prod
    rw [Spsc.ProdOk, hown] at hprod
    exact hprod.2.2 hf
  have hwritten : (record c s (.cap r) t).written = t.written := by
    rw [record]
    split <;> rfl
  obtain ⟨sp, cap, xrun, error, frames, drop, reads, rfl⟩ := capStep_frame h
  exact
    { aligned := haligned
      sp := hsp
      ahead := by
        rw [hdel]
        exact ht.ahead.trans hcom
      fills := hfills
      cap := hcap
      codec := ht.codec.congr rfl hdel rfl rfl hheld (fun _ => rfl) ht.aligned.codecSp
      pb := by
        rw [hwritten]
        exact ht.pb.congr rfl rfl rfl fun _ _ => rfl }

/-! ## The codec thread -/

theorem codecStep_frames {e : Encode} (h : codecStep c s e = some s') :
    s'.sp.prod = s.sp.prod ∧ ∀ f, (s'.sp.frames f).body = (s.sp.frames f).body := by
  rcases codecStep_sp h with hsame | hstep | ⟨f, hstep⟩
  · rw [hsame]
    exact ⟨rfl, fun _ => rfl⟩
  · rcases Spsc.dequeue_cases hstep with ⟨-, hsp⟩ | ⟨w, n, -, -, hsp⟩ | ⟨w, n, -, -, hsp⟩ |
      ⟨idx, n, -, -, hsp⟩ | ⟨idx, n, -, hsp⟩ | ⟨idx, -, hsp⟩ <;> rw [hsp] <;>
    exact ⟨rfl, fun _ => rfl⟩
  · obtain ⟨-, -, hsp⟩ := Spsc.release_eq_some hstep
    rw [hsp]
    exact ⟨rfl, fun _ => setRef_body _⟩

/-- What the codec thread takes is the next committed frame. -/
theorem codecStep_ahead {e : Encode} (hi : Spsc.Inv N s.sp) (ha : s.sp.delivered <+: s.sp.committed)
    (h : codecStep c s e = some s') : s'.sp.delivered <+: s'.sp.committed := by
  rcases codecStep_sp h with hsame | hstep | ⟨f, hstep⟩
  · rw [hsame]
    exact ha
  · have hcons := hi.cons
    rcases Spsc.dequeue_cases hstep with ⟨-, hsp⟩ | ⟨w, n, -, -, hsp⟩ | ⟨w, n, -, -, hsp⟩ |
      ⟨idx, n, -, -, hsp⟩ | ⟨idx, n, -, hsp⟩ | ⟨idx, hpc, hsp⟩ <;> rw [hsp]
    case inr.inr.inr.inr.inr =>
      rw [Spsc.ConsOk, hpc] at hcons
      refine prefix_concat ha ?_
      rw [hcons.1]
      exact (hi.queue _ hcons.2).1
    all_goals exact ha
  · obtain ⟨-, -, hsp⟩ := Spsc.release_eq_some hstep
    rw [hsp]
    exact ha

/-- The copy has the audio of the original. -/
theorem audio_encoded {src dst : Body} {e : Encode} (hcodec : c.hasCodec = false)
    (hfills : Fills src) : (encoded c src dst e).audio = src.audio := by
  have hlen : (src.data.take src.size).length = src.size := List.length_take_of_le hfills
  simp only [encoded, hcodec, Body.audio, copyInto, Bool.false_eq_true, if_false]
  rw [List.take_append_of_le_length hlen.ge, List.take_of_length_le hlen.le]

theorem marked_enqueued (mp : Mpsc Unit Body N) (i : Fin N) :
    (mp.marked () i).enqueued.map Prod.snd = mp.enqueued.map Prod.snd ++ [(mp.frames i).body] := by
  simp [Mpsc.marked]

theorem codecStep_codec {e : Encode} (hcodec : c.hasCodec = false) (hi : CodecTaped s)
    (hfills : ∀ e ∈ s.sp.delivered, Fills e.2) (h : codecStep c s e = some s') : CodecTaped s' := by
  obtain ⟨hsub, hrest⟩ := hi
  cases hpc : s.codec <;> simp only [codecStep, hpc, Option.map_eq_some_iff, reduceCtorEq] at h <;>
    simp only [hpc] at hrest
  case top =>
    cases h
    refine ⟨hsub, ?_⟩
    dsimp only
    split_ifs <;> trivial
  case dequeue =>
    obtain ⟨sp, hstep, rfl⟩ := h
    rcases Spsc.dequeue_cases hstep with ⟨hcons, rfl⟩ | ⟨w, n, hcons, -, rfl⟩ |
      ⟨w, n, hcons, -, rfl⟩ | ⟨idx, n, hcons, -, rfl⟩ | ⟨idx, n, hcons, rfl⟩ |
      ⟨idx, hcons, rfl⟩ <;>
      simp only [CodecTaped, Spsc.dequeueCall, hcons]
    case inr.inr.inr.inr.inr =>
      refine ⟨?_, s.sp.delivered, rfl, hsub⟩
      rw [taken_concat]
      exact hsub.trans (List.sublist_append_left _ _)
    all_goals exact ⟨hsub, trivial⟩
  case drain =>
    obtain ⟨sp, hstep, rfl⟩ := h
    rcases Spsc.dequeue_cases hstep with ⟨hcons, rfl⟩ | ⟨w, n, hcons, -, rfl⟩ |
      ⟨w, n, hcons, -, rfl⟩ | ⟨idx, n, hcons, -, rfl⟩ | ⟨idx, n, hcons, rfl⟩ |
      ⟨idx, hcons, rfl⟩ <;>
      simp only [CodecTaped, Spsc.dequeueCall, hcons]
    case inr.inr.inr.inr.inr =>
      refine ⟨?_, trivial⟩
      rw [taken_concat]
      exact hsub.trans (List.sublist_append_left _ _)
    all_goals exact ⟨hsub, trivial⟩
  case acquire f =>
    obtain ⟨mp, hstep, rfl⟩ := h
    rcases Mpsc.acquire_cases hstep with ⟨-, rfl⟩ | ⟨i, -, -, rfl⟩ | ⟨i, -, -, rfl⟩ |
        ⟨i, -, -, rfl⟩ <;>
      simp only [CodecTaped, Mpsc.setProd, Function.update_self, Mpsc.acquireCall]
    case inr.inl => exact ⟨hsub, trivial⟩
    all_goals exact ⟨hsub, hrest⟩
  case post retry =>
    obtain ⟨mp, hstep, rfl⟩ := h
    rcases Mpsc.acquire_cases hstep with ⟨-, rfl⟩ | ⟨i, -, -, rfl⟩ | ⟨i, -, -, rfl⟩ |
        ⟨i, -, -, rfl⟩ <;>
      simp only [CodecTaped, Mpsc.setProd, Function.update_self, Mpsc.acquireCall]
    case inr.inl =>
      refine ⟨hsub, ?_⟩
      split_ifs <;> trivial
    all_goals exact ⟨hsub, trivial⟩
  case full f =>
    cases h
    exact ⟨hsub, trivial⟩
  case fullRelease f | drainRelease f =>
    obtain ⟨sp, hstep, rfl⟩ := h
    obtain ⟨-, -, rfl⟩ := Spsc.release_eq_some hstep
    exact ⟨hsub, trivial⟩
  case release f =>
    obtain ⟨sp, hstep, rfl⟩ := h
    obtain ⟨-, -, rfl⟩ := Spsc.release_eq_some hstep
    exact ⟨hsub, hrest⟩
  case encode f =>
    split at h
    · obtain ⟨mp, hstep, rfl⟩ := Option.map_eq_some_iff.mp h
      obtain ⟨j, hown, rfl⟩ := Mpsc.fill_eq_some hstep
      obtain ⟨front, hfront, hsub'⟩ := hrest
      have hfill : Fills (s.sp.frames f).body := by
        refine hfills (f, (s.sp.frames f).body) ?_
        rw [hfront]
        exact List.mem_append_right _ (List.mem_singleton_self _)
      refine ⟨hsub, ?_⟩
      intro i hi
      obtain rfl : j = i := by simpa [hown] using hi
      simp only [setBody, Function.update_self, audio_encoded hcodec hfill]
      rw [hfront, taken_concat]
      exact hsub'.append (List.Sublist.refl _)
    · cases h
  case sentinel =>
    split at h
    · obtain ⟨mp, hstep, rfl⟩ := Option.map_eq_some_iff.mp h
      obtain ⟨j, hown, rfl⟩ := Mpsc.fill_eq_some hstep
      refine ⟨hsub, ?_⟩
      intro i hi
      obtain rfl : j = i := by simpa [hown] using hi
      simp only [setBody, Function.update_self]
    · cases h
  case enqueue =>
    obtain ⟨mp, hstep, rfl⟩ := h
    rcases Mpsc.enqueue_cases hstep with ⟨i, hown, rfl⟩ | ⟨-, -, rfl⟩ | ⟨-, rfl⟩ | ⟨-, rfl⟩ |
        ⟨-, rfl⟩ <;>
      simp only [CodecTaped, forwarded, marked_enqueued, Mpsc.setProd, Function.update_self,
        Mpsc.enqueueCall]
    case inl =>
      have hprod : (s.mp.marked () i).prod () = .marked := by simp [Mpsc.marked, Mpsc.setProd]
      rw [hprod]
      refine ⟨(sounding_concat_sublist _ _).trans (hrest i hown), ?_⟩
      rintro i ⟨⟩
    case inr.inr.inr.inr => exact ⟨hsub, trivial⟩
    all_goals
      refine ⟨hsub, ?_⟩
      rintro i ⟨⟩
  case sentinelEnqueue =>
    obtain ⟨mp, hstep, rfl⟩ := h
    rcases Mpsc.enqueue_cases hstep with ⟨i, hown, rfl⟩ | ⟨-, -, rfl⟩ | ⟨-, rfl⟩ | ⟨-, rfl⟩ |
        ⟨-, rfl⟩ <;>
      simp only [CodecTaped, forwarded, marked_enqueued, Mpsc.setProd, Function.update_self,
        Mpsc.enqueueCall]
    case inl =>
      have hprod : (s.mp.marked () i).prod () = .marked := by simp [Mpsc.marked, Mpsc.setProd]
      rw [hprod, sounding_concat, if_pos (hrest i hown), List.append_nil]
      refine ⟨hsub, ?_⟩
      rintro i ⟨⟩
    case inr.inr.inr.inr => exact ⟨hsub, trivial⟩
    all_goals
      refine ⟨hsub, ?_⟩
      rintro i ⟨⟩

theorem codecStep_delivered {e : Encode} (h : codecStep c s e = some s') :
    s'.mp.delivered = s.mp.delivered := by
  rcases codecStep_mp h with hsame | hstep | ⟨body, hstep⟩ | ⟨-, hstep⟩
  · rw [hsame]
  · rcases Mpsc.acquire_cases hstep with ⟨-, hmp⟩ | ⟨i, -, -, hmp⟩ | ⟨i, -, -, hmp⟩ |
      ⟨i, -, -, hmp⟩ <;> rw [hmp] <;> rfl
  · obtain ⟨i, -, hmp⟩ := Mpsc.fill_eq_some hstep
    rw [hmp]
  · rcases Mpsc.enqueue_cases hstep with ⟨i, -, hmp⟩ | ⟨-, -, hmp⟩ | ⟨-, hmp⟩ | ⟨-, hmp⟩ |
      ⟨-, hmp⟩ <;> rw [hmp] <;> rfl

theorem codecStep_taped {e : Encode} (hcodec : c.hasCodec = false) (ht : Taped s t)
    (h : codecStep c s e = some s') (hsp : Spsc.Inv N s'.sp) :
    Taped s' (record c s (.codec e) t) := by
  have haligned := codecStep_aligned ht.aligned h
  have hcom := codecStep_committed h
  obtain ⟨hprod, hframes⟩ := codecStep_frames h
  have hdel := codecStep_delivered h
  have hcons := (codecStep_pool ht.aligned.codecSp ht.aligned.codecMp h).mpCons
  -- the frame the playback thread has is not the codec thread's
  have htaken : ∀ i, s.mp.cons.taken = some i →
      (s'.mp.frames i).body = (s.mp.frames i).body := by
    intro i hi
    have href := haligned.mp.ref.taken i (by rw [hcons]; exact hi)
    exact codecStep_body ht.aligned h i href.ge
  have hcodecTaped := codecStep_codec hcodec ht.codec
    (fun x hx => ht.fills x (ht.ahead.subset hx)) h
  have hahead := codecStep_ahead ht.sp ht.ahead h
  have hcap : s'.cap = s.cap ∧ s'.pb = s.pb := by
    obtain ⟨sp, mp, codec, drop, rfl⟩ := codecStep_frame h
    exact ⟨rfl, rfl⟩
  exact
    { aligned := haligned
      sp := hsp
      ahead := hahead
      fills := by
        rw [hcom]
        exact ht.fills
      cap := by
        have hi := ht.cap
        have hrecord : record c s (.codec e) t = t := rfl
        rw [hrecord]
        unfold CapTaped at hi ⊢
        simpa only [hcap.1, hprod, hcom, hframes] using hi
      codec := hcodecTaped
      pb := ht.pb.congr hcap.2 hcons hdel htaken }

/-! ## The playback thread -/

theorem record_pb_of_ne {w : Int} (h : s.pb ≠ .write) : record c s (.pb w) t = t := by
  unfold record
  dsimp only
  split
  · exact absurd ‹_› h
  · rfl

/-- What is taken comes after what was written. -/
theorem InHand.written {written : List (List UInt8)} {i : Fin N} (h : InHand s written i)
    (hsize : (s.mp.frames i).body.size ≠ 0) :
    (written ++ [(s.mp.frames i).body.audio]).Sublist (played s) := by
  obtain ⟨front, tok, hfront, hsub⟩ := h
  rw [played, hfront, List.map_append, List.map_singleton, sounding_concat, if_neg hsize]
  exact hsub.append (List.Sublist.refl _)

theorem pbStep_pb {w : Int} (hal : Aligned s) (hi : PbTaped s t.written)
    (h : pbStep c s w = some s') : PbTaped s' (record c s (.pb w) t).written := by
  obtain ⟨hsub, hrest⟩ := hi
  have hpb := hal.pb
  cases hpc : s.pb <;> simp only [pbStep, hpc, Option.map_eq_some_iff, reduceCtorEq] at h <;>
    simp only [hpc] at hrest <;> rw [hpc] at hpb
  case write =>
    obtain ⟨i, hcons⟩ : ∃ i, s.mp.cons = .holds i := hpb
    obtain ⟨hin, hsize⟩ := hrest i hcons
    have hrecord : (record c s (.pb w) t).written = t.written ++ [(s.mp.frames i).body.audio] := by
      simp only [record, hpc, hcons]
    rw [hrecord]
    have hwritten := hin.written hsize
    simp only [hcons] at h
    split_ifs at h <;> cases h <;> exact ⟨hwritten, trivial⟩
  all_goals rw [record_pb_of_ne (by rw [hpc]; exact PbPc.noConfusion)]
  case top =>
    cases h
    refine ⟨hsub, ?_⟩
    have hidle : s.mp.cons = .idle := hpb
    dsimp only
    split_ifs
    · intro i htaken
      rw [hidle] at htaken
      cases htaken
    · trivial
  case dequeue =>
    obtain ⟨mp, hstep, rfl⟩ := h
    rcases Mpsc.dequeue_cases hal.mp hstep with ⟨-, -, rfl⟩ | ⟨-, -, rfl⟩ | ⟨-, -, rfl⟩ |
      ⟨-, -, rfl⟩ | ⟨i, hcons, -, rfl⟩ | ⟨i, -, -, rfl⟩ | ⟨i, hcons, rfl⟩ | ⟨i, hcons, rfl⟩
    case inr.inr.inr.inr.inl =>
      refine ⟨hsub.trans ?_, ?_⟩
      · simp only [played, Mpsc.takenOut, List.map_append, List.map_singleton]
        rw [sounding_concat]
        exact List.sublist_append_left _ _
      · intro j hj
        obtain rfl : i = j := Option.some.inj hj
        exact ⟨s.mp.delivered, s.mp.tok i, rfl, hsub⟩
    case inr.inr.inr.inr.inr.inr.inl =>
      refine ⟨hsub, ?_⟩
      intro j hj
      obtain rfl : i = j := Option.some.inj hj
      exact hrest i (by rw [hcons]; rfl)
    case inr.inr.inr.inr.inr.inr.inr =>
      refine ⟨hsub, ?_⟩
      intro j hj
      obtain rfl : i = j := by simpa using hj
      exact hrest i (by rw [hcons]; rfl)
    all_goals
      refine ⟨hsub, ?_⟩
      rintro i ⟨⟩
  case test =>
    obtain ⟨i, hcons⟩ : ∃ i, s.mp.cons = .holds i := hpb
    simp only [hcons] at h
    cases h
    refine ⟨hsub, ?_⟩
    dsimp only
    split_ifs with hsize
    · trivial
    · intro j hj
      obtain rfl : i = j := by simpa [hcons] using hj
      exact ⟨hrest i hcons, hsize⟩
  case stat n =>
    cases h
    exact ⟨hsub, trivial⟩
  case release | leave =>
    obtain ⟨mp, hstep, rfl⟩ := h
    obtain ⟨i, -, rfl⟩ := Mpsc.release_eq_some hstep
    exact ⟨hsub, trivial⟩

theorem pbStep_taped {w : Int} (ht : Taped s t) (h : pbStep c s w = some s') :
    Taped s' (record c s (.pb w) t) := by
  have haligned := pbStep_aligned ht.aligned h
  have hpb := pbStep_pb ht.aligned ht.pb h
  have hprod := (pbStep_pool ht.aligned.mp ht.aligned.pb h).2
  have hbody := pbStep_body ht.aligned h
  have henq : s'.mp.enqueued = s.mp.enqueued := by
    rcases pbStep_mp h with hsame | hstep | hstep
    · rw [hsame]
    · rcases Mpsc.dequeue_cases ht.aligned.mp hstep with ⟨-, -, hmp⟩ | ⟨-, -, hmp⟩ |
        ⟨-, -, hmp⟩ | ⟨-, -, hmp⟩ | ⟨i, -, -, hmp⟩ | ⟨i, -, -, hmp⟩ | ⟨i, -, hmp⟩ |
        ⟨i, -, hmp⟩ <;> rw [hmp]
      rfl
    · obtain ⟨i, -, hmp⟩ := Mpsc.release_eq_some hstep
      rw [hmp]
  have hread : (record c s (.pb w) t).read = t.read := by
    unfold record
    dsimp only
    split <;> rfl
  obtain ⟨mp, pb, xrun, error, frames, rfl⟩ := pbStep_frame h
  exact
    { aligned := haligned
      sp := ht.sp
      ahead := ht.ahead
      fills := ht.fills
      cap := by
        rw [hread]
        exact ht.cap
      codec := ht.codec.congr rfl rfl henq (by rw [hprod]) (fun _ _ => rfl) hbody
        ht.aligned.codecSp
      pb := hpb }

/-! ## All threads -/

theorem mainStep_cap {a : Act} (hi : Aligned s) (h : mainStep s a = some s') :
    s'.cap = s.cap ∨ heldByCapture s.cap = 0 ∧ heldByCapture s'.cap = 0 := by
  have hm := hi.main
  unfold MainOk at hm
  cases a <;> simp only [mainStep, reduceCtorEq] at h
  case start =>
    have hended : CapEnded s.cap ∧ s'.cap = .off := by
      cases hpc : s.main <;> simp only [hpc, reduceCtorEq] at h <;> rw [hpc] at hm <;> cases h
      all_goals exact ⟨hm.2.1, rfl⟩
    refine .inr ⟨?_, by rw [hended.2]; rfl⟩
    rcases hended.1 with hpc | hpc <;> rw [hpc] <;> rfl
  case spawn rc =>
    cases hpc : s.main <;> simp only [spawnStep, hpc, reduceCtorEq] at h <;> rw [hpc] at hm <;>
      split at h <;> cases h
    case spawnCap.isFalse.refl =>
      refine .inr ⟨by rw [hm.2]; rfl, ?_⟩
      simp only [spawned]
      split <;> rfl
    all_goals exact .inl rfl
  case stop =>
    split at h
    case h_5 => cases h
    all_goals split at h <;> cases h <;> exact .inl rfl
  case join =>
    simp only [joinStep] at h
    split at h
    case h_6 => cases h
    all_goals
      split at h <;> cases h
      exact .inl rfl

/-- The calling thread takes and gives nothing. -/
theorem mainStep_taped {a : Act} (ht : Taped s t) (h : mainStep s a = some s') : Taped s' t := by
  obtain ⟨hsp, hmp⟩ := mainStep_pools h
  obtain ⟨hcodec, hpb⟩ := mainStep_threads ht.aligned h
  exact
    { aligned := mainStep_aligned ht.aligned h
      sp := by
        rw [hsp]
        exact ht.sp
      ahead := by
        rw [hsp]
        exact ht.ahead
      fills := by
        rw [hsp]
        exact ht.fills
      cap := by
        rcases mainStep_cap ht.aligned h with hsame | ⟨hheld, hheld'⟩
        · have hi := ht.cap
          unfold CapTaped at hi ⊢
          rw [hsame, hsp]
          exact hi
        · exact ht.cap.congr hheld hheld' (by rw [hsp])
      codec := by
        rcases hcodec with hsame | htop | ⟨hoff, -⟩
        · refine ht.codec.congr hsame ?_ ?_ ?_ (fun f _ => ?_) (fun i => ?_)
            ht.aligned.codecSp <;> simp only [hsp, hmp]
        · have hsub := ht.codec.1
          rw [CodecTaped, htop, forwarded, hsp, hmp]
          exact ⟨hsub, trivial⟩
        · have hsub := ht.codec.1
          rw [CodecTaped, hoff, forwarded, hsp, hmp]
          exact ⟨hsub, trivial⟩
      pb := by
        rcases hpb with hsame | htop | ⟨hoff, -⟩
        · refine ht.pb.congr hsame ?_ ?_ ?_ <;> rw [hmp]
          exact fun _ _ => rfl
        · have hsub := ht.pb.1
          rw [PbTaped, htop, played, hmp]
          exact ⟨hsub, trivial⟩
        · have hsub := ht.pb.1
          rw [PbTaped, hoff, played, hmp]
          exact ⟨hsub, trivial⟩ }

theorem step_taped {a : Act} (hcodec : c.hasCodec = false) (ht : Taped s t) (ha : Complete c a)
    (h : step c s a = some s') (hlt : s'.sp.committed.length < 2 ^ 31) :
    Taped s' (record c s a t) := by
  have hsp := step_spInv ht.sp h hlt
  cases a with
  | cap r => exact capStep_taped ht ha h hsp
  | codec e => exact codecStep_taped hcodec ht h hsp
  | pb w => exact pbStep_taped ht h
  | start => exact mainStep_taped (a := .start) ht h
  | spawn rc => exact mainStep_taped (a := .spawn rc) ht h
  | stop => exact mainStep_taped (a := .stop) ht h
  | join => exact mainStep_taped (a := .join) ht h

theorem taped_init (spBody : Int → Body) (mpBody : Fin N → Body) :
    Taped (init spBody mpBody) ⟨[], []⟩ where
  aligned := aligned_init spBody mpBody
  sp := Spsc.inv_init spBody
  ahead := List.prefix_refl _
  fills := by simp [init, Spsc.init]
  cap := (capTaped_free rfl).mpr rfl
  codec := ⟨List.nil_sublist _, trivial⟩
  pb := ⟨List.nil_sublist _, trivial⟩

theorem delivered_enqueued (hi : Mpsc.MInv s.mp) (e : Nat × Body) (he : e ∈ s.mp.delivered) :
    (s.mp.enqueued.map Prod.snd)[e.1]? = some e.2 := by
  obtain ⟨p, hp⟩ := hi.tok.known e.1 e.2 he
  rw [List.getElem?_map, hp]
  rfl

/-- What is taken from the second pool was enqueued, and nothing is taken twice. -/
theorem played_subperm (hi : Mpsc.MInv s.mp) : (played s).Subperm (forwarded s) := by
  obtain ⟨l, hperm, hsub⟩ := picks_subperm (delivered_enqueued hi) hi.tok.once
  exact ⟨sounding l, (hperm.filter _).map _, (hsub.filter _).map _⟩

/-- There is one producer. -/
theorem played_sublist (hi : Mpsc.MInv s.mp) (ho : Mpsc.Ordered s.mp) :
    (played s).Sublist (forwarded s) := by
  have hby : ∀ e ∈ s.mp.delivered, s.mp.By () e.1 := by
    intro e he
    obtain ⟨p, hp⟩ := hi.tok.known e.1 e.2 he
    rw [Mpsc.By, hp]
    rfl
  have hsorted : (s.mp.delivered.map Prod.fst).Pairwise (· < ·) := by
    rw [List.pairwise_map]
    refine ho.sorted.imp_of_mem ?_
    intro d d' hd hd' hlt
    exact hlt () (hby d hd) (hby d' hd')
  exact ((picks_sublist (delivered_enqueued hi) hsorted).filter _).map _

/-- Only a mark of the codec thread can break the order. -/
theorem step_ordered {a : Act} (hi : Aligned s) (ho : Mpsc.OrderInv s.mp) (ha : InOrder s a)
    (h : step c s a = some s') : Mpsc.OrderInv s'.mp := by
  have hmain : ∀ b, mainStep s b = some s' → Mpsc.OrderInv s'.mp := by
    intro b hb
    rw [(mainStep_pools hb).2]
    exact ho
  cases a with
  | cap r =>
    obtain ⟨sp, cap, xrun, error, frames, drop, reads, rfl⟩ := capStep_frame h
    exact ho
  | codec e =>
    rcases codecStep_mp h with hsame | hstep | ⟨body, hstep⟩ | ⟨hpc, hstep⟩
    · rw [hsame]
      exact ho
    · refine Mpsc.step_orderInv hi.mp ho ?_ hstep
      cases s.mp.prod () <;> trivial
    · exact Mpsc.step_orderInv (a := .fill () body) hi.mp ho trivial hstep
    · refine Mpsc.step_orderInv hi.mp ho ?_ hstep
      cases hprod : s.mp.prod ()
      case owns => exact ha hpc
      all_goals trivial
  | pb w =>
    rcases pbStep_mp h with hsame | hstep | hstep
    · rw [hsame]
      exact ho
    · refine Mpsc.step_orderInv hi.mp ho ?_ hstep
      cases s.mp.cons <;> trivial
    · exact Mpsc.step_orderInv (a := .release) hi.mp ho trivial hstep
  | start => exact hmain .start h
  | spawn rc => exact hmain (.spawn rc) h
  | stop => exact hmain .stop h
  | join => exact hmain .join h

/-- What was enqueued was read, in this order. -/
theorem Taped.forwarded_sublist (ht : Taped s t) : (forwarded s).Sublist t.read := by
  have hcommitted : (taken s.sp.delivered).Sublist (taken s.sp.committed) :=
    ht.ahead.sublist.map _
  have hread : (taken s.sp.committed).Sublist t.read := by
    have hcap := ht.cap
    unfold CapTaped at hcap
    split at hcap
    · obtain ⟨idx, -, -, hread⟩ := hcap
      rw [hread]
      exact List.sublist_append_left _ _
    · rw [hcap]
  exact (ht.codec.1.trans hcommitted).trans hread

theorem run_taped {spBody : Int → Body} {mpBody : Fin N → Body} {as : List Act}
    (hcodec : c.hasCodec = false) (hc : ∀ a ∈ as, Complete c a)
    (hr : run (noted (step c) (record c)) (init spBody mpBody, ⟨[], []⟩) as = some (s, t))
    (hlt : s.sp.committed.length < 2 ^ 31) : Taped s t := by
  have hmono : ∀ (x : Pipeline N × Tape) a x', noted (step c) (record c) x a = some x' →
      x.1.sp.committed.length ≤ x'.1.sp.committed.length :=
    fun _ _ _ hx => step_committed_le (noted_eq_some.mp hx).1
  have hmeets := meets_and (meets_of_forall (P := Complete c) hc) (meets_lt_of_mono hmono hr hlt)
  refine run_invariant_of_meets (I := fun x => Taped x.1 x.2) ?_ (taped_init spBody mpBody)
    hmeets hr
  rintro ⟨s, t⟩ a ⟨s', t'⟩ ht ⟨ha, hbound⟩ hx
  obtain ⟨hs, rfl⟩ := noted_eq_some.mp hx
  exact step_taped hcodec ht ha hs (hbound _ hx)

theorem run_ordered {spBody : Int → Body} {mpBody : Fin N → Body} {as : List Act}
    (ho : Meets (step c) InOrder (init spBody mpBody) as)
    (hr : run (noted (step c) (record c)) (init spBody mpBody, ⟨[], []⟩) as = some (s, t)) :
    Mpsc.Ordered s.mp := by
  have hmeets := (meets_noted (record c) ⟨[], []⟩).mpr ho
  have hboth : Aligned s ∧ Mpsc.OrderInv s.mp := by
    refine run_invariant_of_meets (I := fun x => Aligned x.1 ∧ Mpsc.OrderInv x.1.mp) ?_
      ⟨aligned_init spBody mpBody, Mpsc.orderInv_init mpBody⟩ hmeets hr
    rintro x a x' ⟨hi, horder⟩ ha hx
    have h := (noted_eq_some.mp hx).1
    exact ⟨step_aligned hi h, step_ordered hi horder ha h⟩
  exact hboth.2.ordered

/-- **Audio integrity.** A stream without a codec whose reads fill what they say, over any starts
and stops, in every schedule, with fewer than `2 ^ 31` commits: what `bb_audio_write` is given are
periods that were read, none altered, none twice; and they are given in the order in which they
were read wherever the slots of the second pool agree with it. -/
theorem audio_intact {spBody : Int → Body} {mpBody : Fin N → Body} {as : List Act}
    (hcodec : c.hasCodec = false) (hc : ∀ a ∈ as, Complete c a)
    (hr : run (noted (step c) (record c)) (init spBody mpBody, ⟨[], []⟩) as = some (s, t))
    (hlt : s.sp.committed.length < 2 ^ 31) :
    t.written.Subperm t.read ∧
      (Meets (step c) InOrder (init spBody mpBody) as → t.written.Sublist t.read) := by
  have ht := run_taped hcodec hc hr hlt
  have hread := ht.forwarded_sublist
  have hwritten : t.written.Sublist (played s) := ht.pb.1
  refine ⟨?_, ?_⟩
  · exact (hwritten.subperm.trans (played_subperm ht.aligned.mp)).trans hread.subperm
  · intro ho
    exact (hwritten.trans (played_sublist ht.aligned.mp (run_ordered ho hr))).trans hread

/-- Two reads of one frame each, both played. -/
def twoFrames : List Act :=
  onePeriod { n := 1, data := [1, 2, 3, 4] } ++ List.replicate 3 (.pb 1) ++
    List.replicate 7 (.cap { n := 1, data := [5, 6, 7, 8] }) ++
    List.replicate 14 (.codec noEncode) ++ List.replicate 10 (.pb 1)

theorem audio_intact_two :
    ∃ s t, run (noted (step stereoSetup) (record stereoSetup)) (fresh 4, ⟨[], []⟩) twoFrames =
        some (s, t) ∧ t.written = [[1, 2, 3, 4], [5, 6, 7, 8]] ∧ t.written.Sublist t.read := by
  obtain ⟨s, t, hs, hwritten, hcommitted⟩ :
      ∃ s t, run (noted (step stereoSetup) (record stereoSetup)) (fresh 4, ⟨[], []⟩) twoFrames =
          some (s, t) ∧ t.written = [[1, 2, 3, 4], [5, 6, 7, 8]] ∧ s.sp.committed.length = 2 :=
    ⟨_, _, rfl, rfl, rfl⟩
  refine ⟨s, t, hs, hwritten, ?_⟩
  exact (audio_intact rfl (by decide) hs (by omega)).2 (by decide)

end Pipeline
end Audio
end BuildingBlocks
