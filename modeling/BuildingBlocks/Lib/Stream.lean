import Mathlib.Data.List.Basic
import Mathlib.Tactic.Common

/-!
# BuildingBlocks.Lib.Stream

A buffered output stream on a file that other processes write to as well.

* `Stream` holds the file as others see it, the offset of the next flush and the bytes not yet
  written.
* `append` is another process writing at the end of the file.
* `close_append` is what is left when everything the stream wrote was still in its buffer.
-/

namespace BuildingBlocks

def bufSize : Nat := 4096

/-- `write(2)` at offset `pos`; a hole before it reads as zeros. -/
def overwrite (file : List UInt8) (pos : Nat) (bytes : List UInt8) : List UInt8 :=
  file.take pos ++ List.replicate (pos - file.length) 0 ++ bytes ++ file.drop (pos + bytes.length)

structure Stream where
  file : List UInt8
  pos : Nat
  buf : List UInt8

namespace Stream

/-- `fopen(path, "wb")`. -/
def create : Stream := { file := [], pos := 0, buf := [] }

def flush (s : Stream) : Stream :=
  { file := overwrite s.file s.pos s.buf, pos := s.pos + s.buf.length, buf := [] }

/-- `fwrite`: bytes stay in the buffer while they fit. -/
def write (s : Stream) (bytes : List UInt8) : Stream :=
  let s' := { s with buf := s.buf ++ bytes }
  if s'.buf.length ≤ bufSize then s' else s'.flush

/-- Another process appends to the file (`>>`). -/
def append (s : Stream) (bytes : List UInt8) : Stream := { s with file := s.file ++ bytes }

/-- `fclose`: the file it leaves. -/
def close (s : Stream) : List UInt8 := s.flush.file

theorem write_of_le {s : Stream} {bytes : List UInt8} (h : s.buf.length + bytes.length ≤ bufSize) :
    s.write bytes = { s with buf := s.buf ++ bytes } := by
  simp [write, h]

theorem overwrite_zero (file bytes : List UInt8) :
    overwrite file 0 bytes = bytes ++ file.drop bytes.length := by
  simp [overwrite]

/-- Bytes still in the buffer of a new stream overwrite the start of what was appended. -/
theorem close_append {buf bytes : List UInt8} :
    ({ create with buf := buf }.append bytes).close = buf ++ bytes.drop buf.length := by
  simp [create, append, close, flush, overwrite_zero]

end Stream
end BuildingBlocks
