import BuildingBlocks.Lib.Run
import BuildingBlocks.Lib.Text

/-!
# BuildingBlocks.Lib.Framing

Frames ended by a delimiter, and how they are put together again from chunks.

* `cut d xs` — the frames of a stream that are ended, and the unfinished rest.
* `join d fs` — frames on the wire; `cut` and `join` are inverse.
* `cut_append` — cutting a stream piece by piece, the rest carried over, is cutting it at once.
* `Receiver.recv` — a receiver with room for `size` symbols; `recv_run` gives what it has handed
  over after any chunks, `recv_room` when it has room for more, `fits_of_recv_run` and
  `exists_recv_run` which streams can be received.
* `lines` — the same of C strings, where a NUL ends the scan.
-/

namespace BuildingBlocks
namespace Lib

section Frames

variable {α : Type*}

/-- Frames on the wire, each with the delimiter behind it. -/
def join (d : α) (frames : List (List α)) : List α := frames.flatMap (· ++ [d])

@[simp] theorem join_nil (d : α) : join d [] = [] := rfl

@[simp] theorem join_cons (d : α) (f : List α) (fs : List (List α)) :
    join d (f :: fs) = f ++ d :: join d fs := by
  simp [join]

@[simp] theorem join_append (d : α) (fs gs : List (List α)) :
    join d (fs ++ gs) = join d fs ++ join d gs := List.flatMap_append

theorem length_join_le {d : α} {fs gs : List (List α)} (h : fs <+: gs) :
    (join d fs).length ≤ (join d gs).length := by
  obtain ⟨hs, rfl⟩ := h
  rw [join_append, List.length_append]
  omega

variable [DecidableEq α] {d : α}

/-- The frames of a stream that are ended by the delimiter `d`, and the rest. -/
def cut (d : α) : List α → List (List α) × List α
  | [] => ([], [])
  | x :: xs =>
    if x = d then ([] :: (cut d xs).1, (cut d xs).2)
    else
      match (cut d xs).1 with
      | [] => ([], x :: (cut d xs).2)
      | f :: fs => ((x :: f) :: fs, (cut d xs).2)

@[simp] theorem cut_nil : cut d [] = ([], []) := rfl

theorem cut_of_notMem {xs : List α} (h : d ∉ xs) : cut d xs = ([], xs) := by
  induction xs with
  | nil => rfl
  | cons x xs ih =>
    rw [List.mem_cons, not_or] at h
    rw [cut, if_neg (Ne.symm h.1), ih h.2]

theorem cut_frame {f xs : List α} (h : d ∉ f) :
    cut d (f ++ d :: xs) = (f :: (cut d xs).1, (cut d xs).2) := by
  induction f with
  | nil => rw [List.nil_append, cut, if_pos rfl]
  | cons x f ih =>
    rw [List.mem_cons, not_or] at h
    rw [List.cons_append, cut, if_neg (Ne.symm h.1), ih h.2]

/-- A stream is an unfinished rest, or a frame in front of a stream. -/
theorem stream_induction {P : List α → Prop} (rest : ∀ r, d ∉ r → P r)
    (frame : ∀ f xs, d ∉ f → P xs → P (f ++ d :: xs)) (xs : List α) : P xs := by
  induction hn : xs.length using Nat.strong_induction_on generalizing xs with
  | _ n ih =>
    by_cases h : d ∈ xs
    · obtain ⟨f, ys, rfl, hf⟩ := List.eq_append_cons_of_mem h
      refine frame f ys hf (ih ys.length ?_ ys rfl)
      rw [← hn, List.length_append, List.length_cons]
      omega
    · exact rest xs h

theorem join_cut (xs : List α) : join d (cut d xs).1 ++ (cut d xs).2 = xs := by
  induction xs using stream_induction (d := d) with
  | rest r hr => rw [cut_of_notMem hr, join_nil, List.nil_append]
  | frame f xs hf ih =>
    rw [cut_frame hf, join_cons, List.append_assoc, List.cons_append, ih]

theorem cut_join {fs : List (List α)} {r : List α} (hfs : ∀ f ∈ fs, d ∉ f) (hr : d ∉ r) :
    cut d (join d fs ++ r) = (fs, r) := by
  induction fs with
  | nil => exact cut_of_notMem hr
  | cons f fs ih =>
    have htail := ih (fun g hg => hfs g (List.mem_cons_of_mem f hg))
    rw [join_cons, List.append_assoc, List.cons_append, cut_frame (hfs f List.mem_cons_self), htail]

theorem notMem_rest (xs : List α) : d ∉ (cut d xs).2 := by
  induction xs using stream_induction (d := d) with
  | rest r hr => rwa [cut_of_notMem hr]
  | frame f xs hf ih => rwa [cut_frame hf]

theorem mem_of_mem_rest {xs : List α} {x : α} (h : x ∈ (cut d xs).2) : x ∈ xs := by
  rw [← join_cut (d := d) xs]
  exact List.mem_append_right _ h

/-- A stream cut piece by piece, the rest of the first piece in front of the second. -/
theorem cut_append (xs ys : List α) :
    cut d (xs ++ ys) =
      ((cut d xs).1 ++ (cut d ((cut d xs).2 ++ ys)).1, (cut d ((cut d xs).2 ++ ys)).2) := by
  induction xs using stream_induction (d := d) with
  | rest r hr => rw [cut_of_notMem hr, List.nil_append]
  | frame f xs hf ih =>
    rw [List.append_assoc, List.cons_append, cut_frame hf, cut_frame hf, ih, List.cons_append]

theorem cut_fst_eq_nil_iff {xs : List α} : (cut d xs).1 = [] ↔ d ∉ xs := by
  induction xs using stream_induction (d := d) with
  | rest r hr => simp [cut_of_notMem hr, hr]
  | frame f xs hf ih => simp [cut_frame hf]

/-- The frames of a part of a stream are all of them when no frame ends in the other part. -/
theorem frames_eq_iff {xs ys : List α} : (cut d xs).1 = (cut d (xs ++ ys)).1 ↔ d ∉ ys := by
  rw [cut_append, List.self_eq_append_right, cut_fst_eq_nil_iff, List.mem_append, not_or]
  exact and_iff_right (notMem_rest xs)

/-- The frames of a part of a stream are the first of its frames. -/
theorem frames_prefix (xs ys : List α) : (cut d xs).1 <+: (cut d (xs ++ ys)).1 := by
  rw [cut_append]
  exact List.prefix_append _ _

theorem length_cut (xs : List α) :
    (join d (cut d xs).1).length + (cut d xs).2.length = xs.length := by
  rw [← List.length_append, join_cut]

/-- The frames of a stream and its rest, taken as one more frame. -/
def pieces (d : α) (xs : List α) : List (List α) := (cut d xs).1 ++ [(cut d xs).2]

theorem pieces_of_notMem {r : List α} (h : d ∉ r) : pieces d r = [r] := by
  rw [pieces, cut_of_notMem h, List.nil_append]

theorem pieces_frame {f xs : List α} (h : d ∉ f) :
    pieces d (f ++ d :: xs) = f :: pieces d xs := by
  rw [pieces, cut_frame h, pieces, List.cons_append]

/-- The first piece starts where the text starts. -/
theorem pieces_cons {x : α} (hx : x ≠ d) (xs : List α) :
    ∃ f fs, pieces d (x :: xs) = (x :: f) :: fs := by
  generalize hxs : x :: xs = ys
  induction ys using stream_induction (d := d) with
  | rest r hr => exact ⟨xs, [], by rw [pieces_of_notMem hr, hxs]⟩
  | frame f ys hf _ =>
    cases f with
    | nil => exact absurd (List.cons.inj hxs).1 hx
    | cons y f =>
      obtain ⟨rfl, -⟩ := List.cons.inj hxs
      exact ⟨f, _, pieces_frame hf⟩

/-- An unfinished piece is the start of the first piece of what it becomes. -/
theorem exists_piece {r : List α} (hr : d ∉ r) (ys : List α) :
    ∃ f ∈ pieces d (r ++ ys), r <+: f := by
  induction ys using stream_induction (d := d) with
  | rest s hs =>
    have hrs : d ∉ r ++ s := by
      rw [List.mem_append, not_or]
      exact ⟨hr, hs⟩
    refine ⟨r ++ s, ?_, List.prefix_append r s⟩
    rw [pieces, cut_of_notMem hrs]
    exact List.mem_singleton_self _
  | frame f xs hf ih =>
    have hrf : d ∉ r ++ f := by
      rw [List.mem_append, not_or]
      exact ⟨hr, hf⟩
    refine ⟨r ++ f, ?_, List.prefix_append r f⟩
    rw [pieces, ← List.append_assoc, cut_frame hrf]
    exact List.mem_cons_self

/-- Every frame, the unfinished one too, has at most `size` symbols with its delimiter. -/
def Fits (d : α) (size : Nat) (xs : List α) : Prop := ∀ f ∈ pieces d xs, f.length < size

instance (size : Nat) (xs : List α) : Decidable (Fits d size xs) :=
  inferInstanceAs (Decidable (∀ _ ∈ _, _))

theorem Fits.rest_lt {size : Nat} {xs ys : List α} (h : Fits d size (xs ++ ys)) :
    (cut d xs).2.length < size := by
  obtain ⟨f, hf, hpre⟩ := exists_piece (notMem_rest (d := d) xs) ys
  refine hpre.length_le.trans_lt (h f ?_)
  rw [pieces, cut_append xs ys, List.append_assoc]
  exact List.mem_append_right _ hf

/-! ## A receiver -/

/-- The frames handed over, and what is held of the next one. -/
structure Receiver (α : Type*) where
  handed : List (List α)
  held : List α

/-- A chunk that is not empty and not longer than the room left. -/
def Receiver.recv (d : α) (size : Nat) (s : Receiver α) (chunk : List α) : Option (Receiver α) :=
  if 0 < chunk.length ∧ chunk.length ≤ size - s.held.length then
    some { handed := s.handed ++ (cut d (s.held ++ chunk)).1, held := (cut d (s.held ++ chunk)).2 }
  else none

theorem Receiver.recv_eq {size : Nat} {s : Receiver α} {chunk : List α} (hpos : 0 < chunk.length)
    (hroom : chunk.length ≤ size - s.held.length) :
    s.recv d size chunk =
      some { handed := s.handed ++ (cut d (s.held ++ chunk)).1,
             held := (cut d (s.held ++ chunk)).2 } := if_pos ⟨hpos, hroom⟩

/-- What a receiver has handed over, and holds, does not depend on the chunks. -/
theorem recv_run {size : Nat} {s s' : Receiver α} {chunks : List (List α)}
    (hheld : d ∉ s.held) (hrun : run (Receiver.recv d size) s chunks = some s') :
    s'.handed = s.handed ++ (cut d (s.held ++ chunks.flatten)).1 ∧
      s'.held = (cut d (s.held ++ chunks.flatten)).2 := by
  induction chunks generalizing s with
  | nil =>
    cases hrun
    rw [List.flatten_nil, List.append_nil, cut_of_notMem hheld, List.append_nil]
    exact ⟨rfl, rfl⟩
  | cons chunk chunks ih =>
    obtain ⟨s₁, hs, hr⟩ := run_cons_eq_some.mp hrun
    unfold Receiver.recv at hs
    split_ifs at hs with hroom
    cases hs
    obtain ⟨h₁, h₂⟩ := ih (notMem_rest _) hr
    rw [List.flatten_cons, ← List.append_assoc, cut_append (s.held ++ chunk)]
    refine ⟨?_, h₂⟩
    rw [h₁, List.append_assoc]

/-- A receiver of a stream whose frames fit always has room for more. -/
theorem recv_room {size : Nat} {s' : Receiver α} {chunks : List (List α)} {ys : List α}
    (hfits : Fits d size (chunks.flatten ++ ys))
    (hrun : run (Receiver.recv d size) { handed := [], held := [] } chunks = some s') :
    0 < size - s'.held.length := by
  obtain ⟨-, hheld⟩ := recv_run List.not_mem_nil hrun
  have hlt := hfits.rest_lt
  rw [List.nil_append] at hheld
  rw [← hheld] at hlt
  omega

theorem length_frame_lt {f : List α} {xs : List α} (hf : f ∈ (cut d xs).1) :
    f.length < xs.length := by
  have hjoin : (join d [f]).length ≤ (join d (cut d xs).1).length := by
    obtain ⟨fs, gs, hsplit⟩ := List.append_of_mem hf
    rw [hsplit, join_append, join_cons, join_cons, join_nil]
    simp only [List.length_append, List.length_cons, List.length_nil]
    omega
  have hlen := length_cut (d := d) xs
  rw [join_cons, join_nil, List.length_append, List.length_singleton] at hjoin
  omega

/-- A receiver that has room left after a stream has got only frames that fit. -/
theorem fits_of_recv_run {size : Nat} {s s' : Receiver α} {chunks : List (List α)}
    (hheld : d ∉ s.held) (hrun : run (Receiver.recv d size) s chunks = some s')
    (hroom : s'.held.length < size) : Fits d size (s.held ++ chunks.flatten) := by
  induction chunks generalizing s with
  | nil =>
    cases hrun
    intro f hf
    rw [List.flatten_nil, List.append_nil, pieces_of_notMem hheld, List.mem_singleton] at hf
    rwa [hf]
  | cons chunk chunks ih =>
    obtain ⟨s₁, hs, hr⟩ := run_cons_eq_some.mp hrun
    unfold Receiver.recv at hs
    split_ifs at hs with hchunk
    cases hs
    have hrest := ih (notMem_rest _) hr
    intro f hf
    rw [List.flatten_cons, ← List.append_assoc, pieces, cut_append (s.held ++ chunk),
      List.append_assoc] at hf
    rcases List.mem_append.mp hf with hf | hf
    · have hlt := length_frame_lt hf
      rw [List.length_append] at hlt
      omega
    · exact hrest f hf

omit [DecidableEq α] in
theorem flatten_singletons (xs : List α) : (xs.map fun x => [x]).flatten = xs := by
  rw [← List.flatMap_def, List.flatMap_singleton']

/-- A stream whose frames fit can be received, symbol by symbol. -/
theorem exists_recv_run {size : Nat} {xs ys : List α} (hfits : Fits d size (xs ++ ys)) :
    ∃ s', run (Receiver.recv d size) { handed := [], held := [] } (xs.map fun x => [x]) =
      some s' := by
  induction xs using List.reverseRecOn generalizing ys with
  | nil => exact ⟨_, rfl⟩
  | append_singleton xs x ih =>
    rw [List.append_assoc] at hfits
    obtain ⟨s₁, hr⟩ := ih hfits
    have hroom := recv_room (by rwa [flatten_singletons]) hr
    have hone : 0 < [x].length ∧ [x].length ≤ size - s₁.held.length := ⟨Nat.one_pos, hroom⟩
    have hlast := run_cons_eq_some.mpr ⟨_, Receiver.recv_eq (d := d) hone.1 hone.2, run_nil _⟩
    exact ⟨_, by rw [List.map_append]; exact run_append_eq_some.mpr ⟨s₁, hr, hlast⟩⟩

end Frames

/-! ## Lines of a C string -/

/-- The lines of a C string that end in a newline, and the rest with what is behind a NUL. -/
def lines (text : List UInt8) : List (List UInt8) × List UInt8 := splitLines text.length text

theorem splitLine_line {line text : List UInt8} (h0 : 0 ∉ line) (hnl : 0x0a ∉ line) :
    splitLine (line ++ 0x0a :: text) = some (line, text) := by
  have hall : ∀ b ∈ line, (decide (b ≠ 0) && decide (b ≠ 0x0a)) = true := by
    intro b hb
    have hb0 : b ≠ 0 := fun he => h0 (he ▸ hb)
    have hbnl : b ≠ 0x0a := fun he => hnl (he ▸ hb)
    simp [hb0, hbnl]
  have htake : (line ++ 0x0a :: text).takeWhile
      (fun b => decide (b ≠ 0) && decide (b ≠ 0x0a)) = line := by
    rw [List.takeWhile_append_of_pos hall, List.takeWhile_cons_of_neg (by decide), List.append_nil]
  unfold splitLine
  simp only [htake, List.drop_left]

theorem splitLine_eq_some {text line rest : List UInt8} (h : splitLine text = some (line, rest)) :
    text = line ++ 0x0a :: rest ∧ 0 ∉ line ∧ 0x0a ∉ line := by
  unfold splitLine at h
  extract_lets line' at h
  split at h
  · rename_i rest' hdrop
    obtain ⟨rfl, rfl⟩ := Prod.mk.inj (Option.some.inj h)
    refine ⟨?_, ?_, ?_⟩
    · have hpre : line' <+: text := List.takeWhile_prefix _
      rw [← hdrop]
      calc text = text.take line'.length ++ text.drop line'.length :=
            (List.take_append_drop _ _).symm
        _ = line' ++ text.drop line'.length := by rw [← List.prefix_iff_eq_take.mp hpre]
    · intro h0
      simpa using List.mem_takeWhile_imp h0
    · intro hnl
      simpa using List.mem_takeWhile_imp hnl
  · cases h

/-- A C string is one no line of which ends, or a line in front of a C string. -/
theorem text_induction {P : List UInt8 → Prop} (rest : ∀ r, splitLine r = none → P r)
    (line : ∀ l text, 0 ∉ l → 0x0a ∉ l → P text → P (l ++ 0x0a :: text)) (text : List UInt8) :
    P text := by
  induction hn : text.length using Nat.strong_induction_on generalizing text with
  | _ n ih =>
    cases h : splitLine text with
    | none => exact rest text h
    | some p =>
      obtain ⟨l, text'⟩ := p
      obtain ⟨rfl, h0, hnl⟩ := splitLine_eq_some h
      refine line l text' h0 hnl (ih text'.length ?_ text' rfl)
      rw [← hn, List.length_append, List.length_cons]
      omega

theorem splitLines_of_none {text : List UInt8} (h : splitLine text = none) (fuel : Nat) :
    splitLines fuel text = ([], text) := by
  cases fuel with
  | zero => rfl
  | succ fuel => rw [splitLines, h]

/-- Any fuel from the length of the text on is enough. -/
theorem splitLines_eq_lines {text : List UInt8} {fuel : Nat} (h : text.length ≤ fuel) :
    splitLines fuel text = lines text := by
  induction text using text_induction generalizing fuel with
  | rest r hr => rw [lines, splitLines_of_none hr, splitLines_of_none hr]
  | line l text h0 hnl ih =>
    rw [List.length_append, List.length_cons] at h
    obtain ⟨fuel, rfl⟩ : ∃ n, fuel = n + 1 := ⟨fuel - 1, by omega⟩
    have hlen : (l ++ 0x0a :: text).length = (l.length + text.length) + 1 := by
      rw [List.length_append, List.length_cons]
      omega
    rw [lines, hlen, splitLines, splitLines, splitLine_line h0 hnl]
    simp only
    rw [ih (by omega), ih (by omega)]

theorem lines_of_none {text : List UInt8} (h : splitLine text = none) : lines text = ([], text) :=
  splitLines_of_none h _

theorem lines_line {line text : List UInt8} (h0 : 0 ∉ line) (hnl : 0x0a ∉ line) :
    lines (line ++ 0x0a :: text) = (line :: (lines text).1, (lines text).2) := by
  have hlen : (line ++ 0x0a :: text).length = (line.length + text.length) + 1 := by
    rw [List.length_append, List.length_cons]
    omega
  rw [lines, hlen, splitLines, splitLine_line h0 hnl]
  simp only
  rw [splitLines_eq_lines (by omega)]

/-- Text scanned piece by piece, what is left of the first piece in front of the second. -/
theorem lines_append (text more : List UInt8) :
    lines (text ++ more) =
      ((lines text).1 ++ (lines ((lines text).2 ++ more)).1,
        (lines ((lines text).2 ++ more)).2) := by
  induction text using text_induction with
  | rest r hr => rw [lines_of_none hr, List.nil_append]
  | line l text h0 hnl ih =>
    rw [List.append_assoc, List.cons_append, lines_line h0 hnl, lines_line h0 hnl, ih,
      List.cons_append]

theorem splitLine_of_notMem {text : List UInt8} (h : 0x0a ∉ text) : splitLine text = none := by
  cases hs : splitLine text with
  | none => rfl
  | some p =>
    obtain ⟨line, rest⟩ := p
    obtain ⟨rfl, -, -⟩ := splitLine_eq_some hs
    exact absurd (List.mem_append_right _ List.mem_cons_self) h

/-- Without a NUL the scan cuts at every newline. -/
theorem lines_eq_cut {text : List UInt8} (h : 0 ∉ text) : lines text = cut 0x0a text := by
  induction text using stream_induction (d := (0x0a : UInt8)) with
  | rest r hr => rw [lines_of_none (splitLine_of_notMem hr), cut_of_notMem hr]
  | frame f xs hf ih =>
    rw [List.mem_append, List.mem_cons, not_or, not_or] at h
    rw [lines_line h.1 hf, cut_frame hf, ih h.2.2]

end Lib
end BuildingBlocks
