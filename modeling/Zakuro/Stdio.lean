import Mathlib.Data.List.Basic

/-!
# Reading from a file

The part of `stdio` that reads: a regular file that nobody writes to, and the
offset of the stream in it.
-/

namespace Stdio

structure File where
  content : List UInt8
  offset : Nat
  deriving DecidableEq, Repr

namespace File

/-- What `fread` finds when it is asked for `n` bytes, fewer at the end of the file. -/
def ahead (f : File) (n : Nat) : List UInt8 := (f.content.drop f.offset).take n

def advance (f : File) (n : Nat) : File := { f with offset := f.offset + n }

/-- `fread(buf, 1, n, f)`, with the bytes it puts in the buffer. -/
def fread (f : File) (n : Nat) : List UInt8 × File := (f.ahead n, f.advance (f.ahead n).length)

/-- `fseek(f, off, SEEK_SET)`. A stream may stand behind the end of its file. -/
def seekSet (f : File) (off : Int) : Int × File :=
  if off < 0 then (-1, f) else (0, { f with offset := off.toNat })

/-- `fseek(f, off, SEEK_CUR)` -/
def seekCur (f : File) (off : Int) : Int × File := f.seekSet (f.offset + off)

@[simp] theorem advance_content (f : File) (n : Nat) : (f.advance n).content = f.content := rfl
@[simp] theorem advance_offset (f : File) (n : Nat) : (f.advance n).offset = f.offset + n := rfl

@[simp] theorem advance_advance (f : File) (m n : Nat) :
    (f.advance m).advance n = f.advance (m + n) := by
  simp [advance, Nat.add_assoc]

/-- A stream that stands before a text reads it whole. -/
theorem fread_text {f : File} (text : List UInt8) {rest : List UInt8}
    (h : f.content.drop f.offset = text ++ rest) :
    f.fread text.length = (text, f.advance text.length) := by
  simp [fread, ahead, h]

/-- What is left to read behind a text that has been read. -/
theorem drop_advance {f : File} (text : List UInt8) {rest : List UInt8}
    (h : f.content.drop f.offset = text ++ rest) :
    (f.advance text.length).content.drop (f.advance text.length).offset = rest := by
  rw [advance_content, advance_offset, ← List.drop_drop, h, List.drop_left]

theorem seekSet_nat (f : File) (n : Nat) : f.seekSet n = (0, { f with offset := n }) := by
  simp [seekSet]

theorem seekCur_nat (f : File) (n : Nat) : f.seekCur n = (0, f.advance n) := by
  have h : (f.offset : Int) + n = ((f.offset + n : Nat) : Int) := by simp
  rw [seekCur, h, seekSet_nat, advance]

end File

end Stdio
