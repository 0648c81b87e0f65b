import Mathlib.Data.List.Basic
import Zakuro.CData
import Zakuro.Loop

/-!
# WavReader

`WavReader::Load` over a buffer in memory. A read beside the buffer and the
`std::length_error` of `reserve` are faults of their own, so that a buffer which
causes one is told apart from one that is refused with a code. The cursor and
the remaining size are `size_t` values and wrap as these do.
-/

/-- A buffer in memory. No object is larger than half of the address space. -/
structure Buffer where
  bytes : List UInt8
  fits : bytes.length < 2 ^ 63

namespace WavReader

inductive Fault where
  /-- A read at an offset that is not below the size of the buffer. -/
  | outOfBounds
  /-- `std::length_error`, thrown by `reserve`. -/
  | lengthError
  deriving DecidableEq, Repr

end WavReader

structure WavReader where
  channels : Int
  sampleRate : Int
  data : List Int16
  deriving DecidableEq

namespace WavReader

open CData

def read (b : Buffer) (off : Nat) : Except Fault UInt8 :=
  match b.bytes[off]? with
  | some x => .ok x
  | none => .error .outOfBounds

def le16 (b0 b1 : UInt8) : UInt16 := b0.toUInt16 ||| b1.toUInt16 <<< 8

def le32 (b0 b1 b2 b3 : UInt8) : UInt32 :=
  b0.toUInt32 ||| b1.toUInt32 <<< 8 ||| b2.toUInt32 <<< 16 ||| b3.toUInt32 <<< 24

/-- Four bytes put together in an `int`. -/
def readInt32 (b : Buffer) (off : Nat) : Except Fault Int := do
  let b0 ← read b off
  let b1 ← read b (off + 1)
  let b2 ← read b (off + 2)
  let b3 ← read b (off + 3)
  return (le32 b0 b1 b2 b3).toInt32.toInt

/-- Two bytes put together in an `int`. -/
def readUInt16 (b : Buffer) (off : Nat) : Except Fault Int := do
  let b0 ← read b off
  let b1 ← read b (off + 1)
  return (le16 b0 b1).toNat

/-- `std::string(p, p + 4)` -/
def readName (b : Buffer) (off : Nat) : Except Fault (List UInt8) := do
  let b0 ← read b off
  let b1 ← read b (off + 1)
  let b2 ← read b (off + 2)
  let b3 ← read b (off + 3)
  return [b0, b1, b2, b3]

structure Chunk where
  name : List UInt8
  chunkSize : Nat
  chunkData : Nat
  deriving DecidableEq, Repr

def readChunk (b : Buffer) (off size : Nat) : Except Fault (Option Chunk) :=
  if size < 8 then return none
  else do
    let name ← readName b off
    let csize ← readInt32 b (off + 4)
    if size < toSize (toInt (csize + 8)) then return none
    else return some ⟨name, toSize csize, off + 8⟩

/-- `cbuf += 8 + chunk_size` -/
def skipOff (off chunkSize : Nat) : Nat := (off + (8 + chunkSize)) % 2 ^ 64

/-- `size -= 8 + chunk_size` -/
def skipSize (size chunkSize : Nat) : Nat := (size + (2 ^ 64 - (8 + chunkSize) % 2 ^ 64)) % 2 ^ 64

def readSamples (b : Buffer) : Nat → Nat → Except Fault (List Int16)
  | _, 0 => return []
  | off, n + 1 => do
    let b0 ← read b off
    let b1 ← read b (off + 1)
    let rest ← readSamples b (off + 2) n
    return (le16 b0 b1).toInt16 :: rest

/-- The samples of the data chunk go behind those the reader already holds. -/
def loadData (b : Buffer) (chunk : Chunk) (r : WavReader) : Except Fault (Int × WavReader) :=
  let n := toInt (chunk.chunkSize / 2 : Nat)
  if n < 0 then .error .lengthError
  else do
    let samples ← readSamples b chunk.chunkData n.toNat
    return (0, { r with data := r.data ++ samples })

/-- One pass of `while (true)`, over the cursor and the remaining size. -/
def chunkPass (b : Buffer) (r : WavReader) (cur : Nat × Nat) :
    (Nat × Nat) ⊕ Except Fault (Int × WavReader) :=
  match readChunk b cur.1 cur.2 with
  | .error f => .inr (.error f)
  | .ok none => .inr (.ok (-10, r))
  | .ok (some chunk) =>
    if chunk.name = asciiBytes "data" then .inr (loadData b chunk r)
    else .inl (skipOff cur.1 chunk.chunkSize, skipSize cur.2 chunk.chunkSize)

/-- What the part of `Load` before its loop leaves: a code to return, or the
members it has set, the cursor and the remaining size. -/
inductive Head where
  | code : Int → Head
  | fmt : (channels sampleRate : Int) → (off size : Nat) → Head
  deriving DecidableEq, Repr

/-- The `fmt ` chunk, whose members are all read before any is checked. -/
def loadFmt (b : Buffer) (chunk : Chunk) (off size : Nat) : Except Fault Head := do
  let formatCode ← readUInt16 b chunk.chunkData
  let channels ← readUInt16 b (chunk.chunkData + 2)
  let sampleRate ← readInt32 b (chunk.chunkData + 4)
  let bits ← readUInt16 b (chunk.chunkData + 14)
  if formatCode ≠ 1 then return .code (-9)
  else if channels ≠ 1 ∧ channels ≠ 2 then return .code 1
  else if bits ≠ 16 then return .code (-4)
  else return .fmt channels sampleRate off size

def loadHead (b : Buffer) : Except Fault Head :=
  if b.bytes.length < 20 then return .code (-1)
  else do
    let riff ← readName b 0
    if riff ≠ asciiBytes "RIFF" then return .code (-5)
    else
      let wave ← readName b 8
      if wave ≠ asciiBytes "WAVE" then return .code (-6)
      else
        match ← readChunk b 12 (b.bytes.length - 12) with
        | none => return .code (-7)
        | some chunk =>
          if chunk.name ≠ asciiBytes "fmt " then return .code (-8)
          else
            loadFmt b chunk (skipOff 12 chunk.chunkSize)
              (skipSize (b.bytes.length - 12) chunk.chunkSize)

/-- `Load(ptr, size)`, with a bound on the passes of its loop. -/
def load (fuel : Nat) (b : Buffer) (r : WavReader) : Option (Except Fault (Int × WavReader)) :=
  match loadHead b with
  | .error f => some (.error f)
  | .ok (.code c) => some (.ok (c, r))
  | .ok (.fmt channels sampleRate off size) =>
    let r := { r with channels := channels, sampleRate := sampleRate }
    Loop.run (chunkPass b r) fuel (off, size)

end WavReader
