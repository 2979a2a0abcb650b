import BuildingBlocks.Lib.Decimal
import BuildingBlocks.Lib.History
import BuildingBlocks.Lib.Print

/-!
# BuildingBlocks.Log.Rotation

The log file of `libbb/bb_log.c` and its rotation.

* `logInit`, `logWrite` are the functions; a `Call` carries the message as `vsnprintf` prints it,
  the time, and the stack memory the line is assembled in.
* `Rotates` — after a call the size is that of the file and within the limit, and the file is the
  end of everything logged.
* `rotates_iff` — in every run all calls do so exactly when the file never grows over its limit: the
  truncation keeps the first bytes of the file.
-/

namespace BuildingBlocks
namespace Log

open Lib

abbrev Bytes := List UInt8

/-! ## The code -/

/-- `bb_log_level_t`. -/
inductive Level where
  | fatal
  | error
  | warn
  | info
  | debug
  | trace
deriving DecidableEq, Repr

def Level.toNat : Level → Nat
  | .fatal => 0
  | .error => 1
  | .warn => 2
  | .info => 3
  | .debug => 4
  | .trace => 5

/-- `level_str`. -/
def Level.text : Level → Bytes
  | .fatal => ascii "FATAL"
  | .error => ascii "ERROR"
  | .warn => ascii "WARN"
  | .info => ascii "INFO"
  | .debug => ascii "DEBUG"
  | .trace => ascii "TRACE"

/-- `BB_LOG_TO_JOURNAL`, `BB_LOG_TO_FILE` and `BB_LOG_TO_STDERR`. -/
def toJournal : UInt32 := 1
def toFile : UInt32 := 2
def toStderr : UInt32 := 4

/-- `g_log`, with the file behind `log_fd` and what was written to stderr and to the crash area. A
file is shorter than `2 ^ 63` bytes, so the sizes do not wrap around. -/
structure Logger where
  ident : Bytes
  destMask : UInt32
  file : Option Bytes
  maxSize : Nat
  currentSize : Nat
  level : Level
  stderr : Bytes
  crashes : List (Bytes × Bytes)
deriving DecidableEq, Repr

/-- The initializer of `g_log`. -/
def Logger.initial : Logger :=
  { ident := ascii "unknown", destMask := toStderr, file := none, maxSize := 1024 * 1024,
    currentSize := 0, level := .info, stderr := [], crashes := [] }

/-- `bb_log_init`; `opened` is the content of the log file, or the text of the error of `open`. -/
def logInit (g : Logger) (ident : Bytes) (destMask : UInt32) (filePath : Bytes)
    (opened : Except Bytes Bytes) (maxSize : Nat) : Logger :=
  let g := { g with
    ident := (cstr ident).take 63
    destMask := destMask
    maxSize := if 0 < maxSize then maxSize else g.maxSize }
  if destMask &&& toFile = 0 then g
  else
    match opened with
    | .error text =>
      { g with
        file := none
        destMask := destMask &&& ~~~toFile
        stderr := g.stderr ++ ascii "[" ++ cstr ident ++ ascii "] Failed to open log file " ++
          cstr filePath ++ ascii ": " ++ cstr text ++ [0x0a] }
    | .ok bytes => { g with file := some bytes, currentSize := bytes.length }

/-- A call of `bb_log_write`: `msg` is the text of `fmt` and its arguments, `none` when `vsnprintf`
fails; `stack` is the memory from `linebuf` on. -/
structure Call where
  level : Level
  file : Bytes
  line : Int
  msg : Option Bytes
  time : Bytes
  nsec : Nat
  stack : Nat → UInt8

/-- `%03ld`. -/
def pad3 (n : Nat) : Bytes := List.replicate (3 - (natText n).length) 0x30 ++ natText n

/-- The text of the line, `"%s.%03ld [%s] %s %s:%d %s\n"`. -/
def lineText (g : Logger) (c : Call) (msg : Bytes) : Bytes :=
  cstr c.time ++ ascii "." ++ pad3 (c.nsec / 1000000) ++ ascii " [" ++ c.level.text ++
    ascii "] " ++ cstr g.ident ++ ascii " " ++ cstr c.file ++ ascii ":" ++ intText c.line ++
    ascii " " ++ cstr (msg.take 4095) ++ [0x0a]

/-- The line a call assembles, `none` when it returns before that. -/
def assembled (g : Logger) (c : Call) : Option Bytes :=
  if g.level.toNat < c.level.toNat then none
  else if g.destMask &&& (toFile ||| toStderr ||| toJournal) = 0 then none
  else
    match c.msg with
    | none => none
    | some msg =>
      let text := lineText g c msg
      if msg.length < 0x80000000 ∧ text.length < 0x80000000 then some text else none

/-- `write(fd, linebuf, len)`: the buffer has 4608 bytes, `len` is the length of the whole text. -/
def linebuf (c : Call) (text : Bytes) : Bytes := rows (snprintf c.stack 0 4608 text).1 text.length

/-- `ftruncate`. -/
def ftruncate (file : Bytes) (n : Nat) : Bytes :=
  file.take n ++ List.replicate (n - file.length) 0

/-- The part of `bb_log_write` for the log file. -/
def writeFile (g : Logger) (out : Bytes) : Logger :=
  match g.file with
  | none => g
  | some file =>
    if g.destMask &&& toFile = 0 then g
    else
      let size := g.currentSize + out.length
      if g.maxSize < size then
        { g with file := some (ftruncate (file ++ out) (g.maxSize / 2)),
                 currentSize := g.maxSize / 2 }
      else { g with file := some (file ++ out), currentSize := size }

/-- `bb_log_write`. -/
def logWrite (g : Logger) (c : Call) : Logger :=
  match assembled g c with
  | none => g
  | some text =>
    let out := linebuf c text
    let g := writeFile g out
    let g := if g.destMask &&& toStderr = 0 then g else { g with stderr := g.stderr ++ out }
    if c.level = .fatal then
      { g with crashes := g.crashes ++ [(g.ident, cstr ((c.msg.getD []).take 4095))] }
    else g

/-! ## The law -/

/-- The calls, with everything logged so far as the history. -/
def step (g : Logger) (c : Call) : Option Logger := some (logWrite g c)

def note (g : Logger) (c : Call) (stream : Bytes) : Bytes := stream ++ (assembled g c).getD []

/-- The file is open and written to, the size kept is its size, and it is the end of the stream. -/
structure Tail (g : Logger) (stream file : Bytes) : Prop where
  open_ : g.file = some file
  enabled : g.destMask &&& toFile ≠ 0
  size : g.currentSize = file.length
  suffix : file <:+ stream

/-- After the call the file is the end of the stream and within the limit; it ends in the line just
written unless that alone is over the limit. -/
def Rotates (s : Logger × Bytes) (c : Call) : Prop :=
  ∃ file, Tail (logWrite s.1 c) (note s.1 c s.2) file ∧ file.length ≤ s.1.maxSize ∧
    ∀ text ∈ assembled s.1 c, text.length ≤ s.1.maxSize → text <:+ file

/-- The first `n` bytes are those that stand `k` places behind them. -/
def Repeats (xs ys : Bytes) (n k : Nat) : Prop := ∀ i < n, xs[i]? = ys[i + k]?

/-- The line goes into the buffer and into the file; or it takes the file over the limit, and the
front that is kept happens to be repeated at the end, and is no shorter than the line unless that is
over the limit itself. -/
def Grows (s : Logger × Bytes) (c : Call) : Prop :=
  match assembled s.1 c with
  | none => s.1.currentSize ≤ s.1.maxSize
  | some text =>
    s.1.currentSize + text.length ≤ s.1.maxSize ∧ text.length < 4608 ∨
      s.1.maxSize < s.1.currentSize + text.length ∧
        Repeats (s.1.file.getD [] ++ linebuf c text) (s.1.file.getD [] ++ text) (s.1.maxSize / 2)
          (s.1.currentSize + text.length - s.1.maxSize / 2) ∧
        (text.length ≤ s.1.maxSize → text.length ≤ s.1.maxSize / 2)

/-! ## The line -/

section Line

variable {g : Logger} {c : Call} {text : Bytes}

theorem zero_notMem_cstr (bytes : Bytes) : 0 ∉ cstr bytes := by
  intro h
  have hne := List.mem_takeWhile_imp h
  simp at hne

theorem zero_notMem_level (l : Level) : 0 ∉ l.text := by
  cases l <;> decide

theorem zero_notMem_lineText (g : Logger) (c : Call) (msg : Bytes) : 0 ∉ lineText g c msg := by
  have hascii : 0 ∉ ascii "." ∧ 0 ∉ ascii " [" ∧ 0 ∉ ascii "] " ∧ 0 ∉ ascii " " ∧
      0 ∉ ascii ":" := by decide
  have hpad : 0 ∉ pad3 (c.nsec / 1000000) := by
    rw [pad3, List.mem_append, not_or]
    exact ⟨fun h => absurd (List.eq_of_mem_replicate h) (by decide), notMem_natText rfl _⟩
  simp only [lineText, List.mem_append, not_or, zero_notMem_cstr, zero_notMem_level, hpad, hascii,
    notMem_intText (b := 0) rfl (by decide), not_false_eq_true, true_and, List.mem_singleton]
  decide

theorem assembled_eq_some (h : assembled g c = some text) :
    ∃ msg, c.msg = some msg ∧ text = lineText g c msg := by
  unfold assembled at h
  split at h
  · cases h
  · split at h
    · cases h
    · cases hmsg : c.msg with
      | none =>
        rw [hmsg] at h
        cases h
      | some msg =>
        rw [hmsg] at h
        simp only at h
        split at h
        · exact ⟨msg, rfl, (Option.some.inj h).symm⟩
        · cases h

theorem zero_notMem_assembled (h : assembled g c = some text) : 0 ∉ text := by
  obtain ⟨msg, -, rfl⟩ := assembled_eq_some h
  exact zero_notMem_lineText g c msg

theorem length_linebuf (c : Call) (text : Bytes) : (linebuf c text).length = text.length :=
  length_rows _ _

/-- A line that fits is written as it is; of a longer one, the NUL behind its front is written. -/
theorem linebuf_eq_iff (h0 : 0 ∉ text) : linebuf c text = text ↔ text.length < 4608 := by
  have hmem : (snprintf c.stack 0 4608 text).1 = store c.stack 0 (text.take 4607 ++ [0]) := rfl
  constructor
  · intro h
    by_contra hlong
    have hlast : 4607 < (linebuf c text).length := by
      rw [length_linebuf]
      omega
    have hget : (linebuf c text)[4607] = text[4607] := List.getElem_of_eq h _
    have hzero : (linebuf c text)[4607] = 0 := by
      have hlen : (text.take 4607 ++ [(0 : UInt8)]).length = 4608 := by
        rw [List.length_append, List.length_take, List.length_singleton]
        omega
      have hat := @store_at c.stack 0 4607 (text.take 4607 ++ [0]) (by rw [hlen]; decide)
      rw [Nat.zero_add] at hat
      simp only [linebuf, getElem_rows]
      rw [hmem, hat, List.getElem_append_right (by rw [List.length_take]; omega)]
      simp
    exact h0 (hzero ▸ hget ▸ List.getElem_mem _)
  · intro h
    have hrows := rows_store c.stack 0 text [0]
    have hnil : rows c.stack 0 = [] := rfl
    rw [hnil, List.nil_append, Nat.zero_add] at hrows
    rw [linebuf, hmem, List.take_of_length_le (by omega)]
    exact hrows

end Line

/-! ## One call -/

section Call

variable {g : Logger} {c : Call} {stream file text : Bytes}

theorem ftruncate_of_le {n : Nat} (h : n ≤ file.length) : ftruncate file n = file.take n := by
  rw [ftruncate, Nat.sub_eq_zero_of_le h, List.replicate_zero, List.append_nil]

theorem logWrite_none (h : assembled g c = none) : logWrite g c = g := by
  rw [logWrite, h]

/-- What a call does to the file is done by `writeFile`. -/
theorem logWrite_some (h : assembled g c = some text) :
    (logWrite g c).file = (writeFile g (linebuf c text)).file ∧
      (logWrite g c).currentSize = (writeFile g (linebuf c text)).currentSize ∧
      (logWrite g c).destMask = (writeFile g (linebuf c text)).destMask ∧
      (logWrite g c).maxSize = (writeFile g (linebuf c text)).maxSize := by
  unfold logWrite
  rw [h]
  simp only
  split <;> split <;> exact ⟨rfl, rfl, rfl, rfl⟩

/-- A line that leaves the file within the limit is appended. -/
theorem Tail.append (h : Tail g stream file) {out : Bytes}
    (hfits : file.length + out.length ≤ g.maxSize) :
    writeFile g out =
      { g with file := some (file ++ out), currentSize := file.length + out.length } := by
  rw [writeFile, h.open_]
  simp only
  rw [if_neg h.enabled, h.size, if_neg (by omega)]

/-- Otherwise the front of the file is kept. -/
theorem Tail.truncate (h : Tail g stream file) {out : Bytes}
    (hover : g.maxSize < file.length + out.length) :
    writeFile g out =
      { g with file := some ((file ++ out).take (g.maxSize / 2)),
               currentSize := g.maxSize / 2 } := by
  rw [writeFile, h.open_]
  simp only
  rw [if_neg h.enabled, h.size, if_pos hover, ftruncate_of_le]
  rw [List.length_append]
  omega

/-- Two ends of one stream, where one has what stands in front as well. -/
theorem suffix_append_iff {out : Bytes} (h : file <:+ stream) (hlen : out.length = text.length) :
    file ++ out <:+ stream ++ text ↔ out = text := by
  constructor
  · intro hsuf
    have hout : out <:+ stream ++ text := (List.suffix_append file out).trans hsuf
    have hsub := List.suffix_of_suffix_length_le hout (List.suffix_append stream text) hlen.le
    exact hsub.eq_of_length hlen
  · rintro rfl
    obtain ⟨front, rfl⟩ := h
    exact ⟨front, by simp⟩

/-- The front of one text is the end of another exactly when its bytes stand behind there. -/
theorem repeats_iff {xs ys : Bytes} {n : Nat} (hlen : xs.length = ys.length) (hn : n ≤ ys.length) :
    Repeats xs ys n (ys.length - n) ↔ xs.take n <:+ ys := by
  have hsuffix : ys.drop (ys.length - n) <:+ ys := List.drop_suffix _ _
  have hsize : (xs.take n).length = (ys.drop (ys.length - n)).length := by
    rw [List.length_take, List.length_drop]
    omega
  have heq : xs.take n <:+ ys ↔ xs.take n = ys.drop (ys.length - n) := by
    constructor
    · exact fun h => (List.suffix_of_suffix_length_le h hsuffix hsize.le).eq_of_length hsize
    · exact fun h => h ▸ hsuffix
  rw [heq, List.ext_getElem?_iff]
  refine forall_congr' fun i => ?_
  rw [List.getElem?_take, List.getElem?_drop, Nat.add_comm i]
  by_cases hi : i < n
  · simp only [hi, if_true, true_implies]
  · have hend : ys[ys.length - n + i]? = none := List.getElem?_eq_none (by omega)
    simp only [hi, if_false, false_implies, hend]

/-- An end of a text within another end of it. -/
theorem suffix_iff_length {xs : Bytes} (hxs : xs <:+ stream ++ text) :
    text <:+ xs ↔ text.length ≤ xs.length :=
  ⟨List.IsSuffix.length_le, List.suffix_of_suffix_length_le (List.suffix_append stream text) hxs⟩

theorem note_some (h : assembled g c = some text) : note g c stream = stream ++ text := by
  rw [note, h, Option.getD_some]

/-- The file holds an end of the stream when what `writeFile` leaves does. -/
theorem Tail.logWrite_iff (h : Tail g stream file) (htext : assembled g c = some text)
    {file' : Bytes} : Tail (logWrite g c) (stream ++ text) file' ↔
      (writeFile g (linebuf c text)).file = some file' ∧
        (writeFile g (linebuf c text)).currentSize = file'.length ∧
        file' <:+ stream ++ text := by
  obtain ⟨hfile, hsize, hdest, -⟩ := logWrite_some htext
  have henabled : (logWrite g c).destMask &&& toFile ≠ 0 := by
    rw [hdest, writeFile, h.open_]
    simp only
    rw [if_neg h.enabled]
    split <;> exact h.enabled
  constructor
  · intro ht
    exact ⟨hfile ▸ ht.open_, hsize ▸ ht.size, ht.suffix⟩
  · rintro ⟨hopen, hsz, hsuf⟩
    exact ⟨hfile.trans hopen, henabled, hsize.trans hsz, hsuf⟩

/-- The front that is kept is an end of the stream exactly when its bytes stand there. -/
theorem Tail.repeats_iff_suffix (h : Tail g stream file) {out : Bytes}
    (hlen : out.length = text.length) (hover : g.maxSize < file.length + text.length) :
    Repeats (file ++ out) (file ++ text) (g.maxSize / 2)
        (file.length + text.length - g.maxSize / 2) ↔
      (file ++ out).take (g.maxSize / 2) <:+ stream ++ text := by
  have hends : file ++ text <:+ stream ++ text := (suffix_append_iff h.suffix rfl).mpr rfl
  rw [← List.length_append, repeats_iff (by simp [hlen]) (by rw [List.length_append]; omega)]
  refine ⟨fun hsuf => hsuf.trans hends, fun hsuf => ?_⟩
  refine List.suffix_of_suffix_length_le hsuf hends ?_
  rw [List.length_take, List.length_append, List.length_append]
  omega

/-- A call whose level is filtered out leaves the file as it is. -/
theorem Tail.rotates_filtered (h : Tail g stream file) (htext : assembled g c = none) :
    Rotates (g, stream) c ↔ file.length ≤ g.maxSize := by
  have hnote : note g c stream = stream := by
    rw [note, htext, Option.getD_none, List.append_nil]
  unfold Rotates
  simp only [logWrite_none htext, hnote]
  constructor
  · rintro ⟨file', htail, hmax, -⟩
    obtain rfl := Option.some.inj (h.open_.symm.trans htail.open_)
    exact hmax
  · intro hmax
    exact ⟨file, h, hmax, by simp [htext]⟩

/-- A call whose line takes the file over the limit. -/
theorem Tail.rotates_over (h : Tail g stream file) (htext : assembled g c = some text)
    (hover : g.maxSize < file.length + text.length) :
    Rotates (g, stream) c ↔
      (file ++ linebuf c text).take (g.maxSize / 2) <:+ stream ++ text ∧
        (text.length ≤ g.maxSize → text.length ≤ g.maxSize / 2) := by
  have hlen := length_linebuf c text
  have hkept : ((file ++ linebuf c text).take (g.maxSize / 2)).length = g.maxSize / 2 := by
    rw [List.length_take, List.length_append]
    omega
  have hwrite : writeFile g (linebuf c text) = _ := h.truncate (by omega)
  unfold Rotates
  simp only [note_some htext, h.logWrite_iff htext, hwrite, htext, Option.mem_def,
    Option.some.injEq, forall_eq']
  constructor
  · rintro ⟨file', ⟨rfl, -, hsuf⟩, -, hline⟩
    rw [suffix_iff_length hsuf, hkept] at hline
    exact ⟨hsuf, hline⟩
  · rintro ⟨hsuf, hline⟩
    rw [← hkept, ← suffix_iff_length hsuf] at hline
    exact ⟨_, ⟨rfl, hkept.symm, hsuf⟩, by omega, hline⟩

/-- A call whose line leaves the file within the limit. -/
theorem Tail.rotates_within (h : Tail g stream file) (htext : assembled g c = some text)
    (hfits : file.length + text.length ≤ g.maxSize) :
    Rotates (g, stream) c ↔ text.length < 4608 := by
  have hlen := length_linebuf c text
  have hsuf := suffix_append_iff h.suffix hlen
  rw [← linebuf_eq_iff (c := c) (zero_notMem_assembled htext)]
  have hwrite : writeFile g (linebuf c text) = _ := h.append (by omega)
  unfold Rotates
  simp only [note_some htext, h.logWrite_iff htext, hwrite, htext, Option.mem_def,
    Option.some.injEq, forall_eq']
  constructor
  · rintro ⟨file', ⟨rfl, -, hsuf'⟩, -, -⟩
    exact hsuf.mp hsuf'
  · intro hsame
    refine ⟨_, ⟨rfl, by rw [List.length_append], hsuf.mpr hsame⟩, ?_, fun _ => ?_⟩
    · rw [List.length_append]
      omega
    · rw [hsame]
      exact List.suffix_append file text

/-- What a call does to the file in the end, as one of three. -/
theorem Tail.rotates_grows (h : Tail g stream file) :
    Rotates (g, stream) c ↔ Grows (g, stream) c := by
  unfold Grows
  cases htext : assembled g c with
  | none =>
    simp only [h.size]
    exact h.rotates_filtered htext
  | some text =>
    simp only [h.size, h.open_, Option.getD_some]
    rcases Nat.lt_or_ge g.maxSize (file.length + text.length) with hover | hfits
    · rw [h.rotates_over htext hover, h.repeats_iff_suffix (length_linebuf c text) hover]
      constructor
      · exact fun hkept => Or.inr ⟨hover, hkept⟩
      · rintro (⟨hle, -⟩ | ⟨-, hkept⟩)
        · omega
        · exact hkept
    · rw [h.rotates_within htext hfits]
      constructor
      · exact fun hshort => Or.inl ⟨hfits, hshort⟩
      · rintro (⟨-, hshort⟩ | ⟨hlt, -⟩)
        · exact hshort
        · omega

end Call

/-! ## Runs -/

/-- `bb_log_init` opens the file, whose content is what was logged before. -/
theorem tail_logInit (g : Logger) (ident : Bytes) {destMask : UInt32}
    (hdest : destMask &&& toFile ≠ 0) (filePath content : Bytes) (maxSize : Nat) :
    Tail (logInit g ident destMask filePath (.ok content) maxSize) content content := by
  unfold logInit
  simp only
  rw [if_neg hdest]
  exact ⟨rfl, hdest, rfl, List.suffix_rfl⟩

/-- **The log keeps its end in every run exactly when** no call finds the file over the limit or
takes it there, the lines fit the buffer, and where the file is truncated its front happens to be
repeated at its end, with the line within. -/
theorem rotates_iff (g : Logger) (ident : Bytes) {destMask : UInt32}
    (hdest : destMask &&& toFile ≠ 0) (filePath content : Bytes) (maxSize : Nat)
    (calls : List Call) :
    Meets (noted step note) Rotates
        (logInit g ident destMask filePath (.ok content) maxSize, content) calls ↔
      Meets (noted step note) Grows
        (logInit g ident destMask filePath (.ok content) maxSize, content) calls := by
  obtain ⟨s', hs'⟩ := exists_run_of_total (fun s c => ⟨(logWrite s.1 c, note s.1 c s.2), rfl⟩)
    (logInit g ident destMask filePath (.ok content) maxSize, content) calls
  refine meets_iff_of_invariant (I := fun s => ∃ file, Tail s.1 s.2 file) ?_ ?_
    ⟨content, tail_logInit g ident hdest filePath content maxSize⟩ hs'
  · rintro s c s₁ ⟨file, hfile⟩ -
    exact hfile.rotates_grows
  · rintro s c s₁ ⟨file, hfile⟩ hgrows hs₁
    obtain ⟨file', htail, -⟩ := hfile.rotates_grows.mpr hgrows
    cases hs₁
    exact ⟨file', htail⟩

/-- Three lines of 41 bytes. -/
def threeLines : List Call :=
  [ascii "one", ascii "two", ascii "end"].map fun msg =>
    { level := .info, file := ascii "f", line := 1, msg := some msg,
      time := ascii "2024-01-01T00:00:00", nsec := 0, stack := fun _ => 0 }

theorem rotates_threeLines :
    Meets (noted step note) Rotates
        (logInit Logger.initial (ascii "a") toFile (ascii "/l") (.ok []) 100, []) threeLines ↔
      Meets (noted step note) Grows
        (logInit Logger.initial (ascii "a") toFile (ascii "/l") (.ok []) 100, []) threeLines :=
  rotates_iff Logger.initial (ascii "a") (by decide) (ascii "/l") [] 100 threeLines

/-- With a limit of 100 bytes the third line is lost; what stays is the first line. -/
theorem newest_lost :
    ¬ Meets (noted step note) Rotates
        (logInit Logger.initial (ascii "a") toFile (ascii "/l") (.ok []) 100, []) threeLines ∧
      (run step (logInit Logger.initial (ascii "a") toFile (ascii "/l") (.ok []) 100)
          threeLines).bind Logger.file =
        some (ascii "2024-01-01T00:00:00.000 [INFO] a f:1 one\n2024-01-0") := by
  refine ⟨fun h => ?_, by decide⟩
  obtain ⟨-, h⟩ := h
  obtain ⟨-, h⟩ := h _ rfl
  obtain ⟨⟨file, htail, -⟩, -⟩ := h _ rfl
  have hfile : file = ascii "2024-01-01T00:00:00.000 [INFO] a f:1 one\n2024-01-0" := by
    refine Option.some.inj (htail.open_.symm.trans ?_)
    decide
  have hsuffix := htail.suffix
  rw [hfile] at hsuffix
  revert hsuffix
  decide

end Log
end BuildingBlocks
