import Zakuro.CData
import Zakuro.Stdio

/-!
# Y4MReader

`Y4MReader::Open` and `Y4MReader::GetFrame`. A call gives the code it returns
and the reader it leaves, also where it fails half way. `pos_`, `frame_` and
`prev_frame_` are 64-bit counters of bytes and frames and do not wrap here.
-/

open Stdio CData

/-- What the header line of the file says, 0 where it says nothing. -/
structure Y4MHeader where
  width : Int := 0
  height : Int := 0
  fpsNum : Int := 0
  fpsDen : Int := 0
  aspectH : Int := 0
  aspectV : Int := 0
  deriving DecidableEq, Repr

structure Y4MReader extends Y4MHeader where
  file : File
  startPos : Int := 0
  pos : Int := 0
  frame : Int := 0
  prevFrame : Int := -1
  fileSize : Nat := 0
  deriving DecidableEq, Repr

/-! ## Numbers -/

namespace CData

def isSpace (c : UInt8) : Bool := c == 32 || (9 ≤ c && c ≤ 13)

def isDigit (c : UInt8) : Bool := 48 ≤ c && c ≤ 57

/-- The number that the digits at the front of a text make, after those of `n`. -/
def digits (n : Nat) : List UInt8 → Nat
  | [] => n
  | c :: cs => if isDigit c then digits (10 * n + (c.toNat - 48)) cs else n

/-- `strtol` to the base 10: a number that does not fit a `long` is cut to the
nearest that does. -/
def strtol (text : List UInt8) : Int :=
  match text.dropWhile isSpace with
  | [] => 0
  | c :: cs =>
    if c = asciiByte '-' then max (-(digits 0 cs : Int)) (-2 ^ 63)
    else if c = asciiByte '+' then min (digits 0 cs : Int) (2 ^ 63 - 1)
    else min (digits 0 (c :: cs) : Int) (2 ^ 63 - 1)

def atoi (text : List UInt8) : Int := toInt (strtol text)

end CData

/-! ## The header -/

namespace Y4MHeader

def getWidth (h : Y4MHeader) : Int := toInt h.width

def getHeight (h : Y4MHeader) : Int := toInt h.height

def getChromaWidth (h : Y4MHeader) : Int := toInt ((h.width + 1).tdiv 2)

def getChromaHeight (h : Y4MHeader) : Int := toInt ((h.height + 1).tdiv 2)

def getSize (h : Y4MHeader) : Int :=
  toInt (toInt (h.getWidth * h.getHeight) + toInt (toInt (h.getChromaWidth * h.getChromaHeight) * 2))

/-- One token of the header line behind the first. -/
def readToken (h : Y4MHeader) (token : List UInt8) : Int × Y4MHeader :=
  match token with
  | [] => (-5, h)
  | c :: rest =>
    if c = asciiByte 'W' then (0, { h with width := atoi rest })
    else if c = asciiByte 'H' then (0, { h with height := atoi rest })
    else if c = asciiByte 'F' then
      match token.findIdx? (· == asciiByte ':') with
      | none => (-7, h)
      | some n => (0, { h with fpsNum := atoi rest, fpsDen := atoi (token.drop (n + 1)) })
    else if c = asciiByte 'I' then
      if rest.head? = some (asciiByte 'p') then (0, h) else (1, h)
    else if c = asciiByte 'A' then
      match token.findIdx? (· == asciiByte ':') with
      | none => (-7, h)
      | some n => (0, { h with aspectH := atoi rest, aspectV := atoi (token.drop (n + 1)) })
    else if c = asciiByte 'C' then
      if token ∈ ["C420jpeg", "C420paldv", "C420", "C420mpeg2"].map asciiBytes then (0, h) else (2, h)
    else if c = asciiByte 'X' then (0, h)
    else (-8, h)

def readTokens (h : Y4MHeader) : List (List UInt8) → Int × Y4MHeader
  | [] => (0, h)
  | token :: tokens =>
    match h.readToken token with
    | (0, h) => readTokens h tokens
    | (code, h) => (code, h)

/-- The header line without its end. -/
def readLine (h : Y4MHeader) (line : List UInt8) : Int × Y4MHeader :=
  match line.splitOn (asciiByte ' ') with
  | [] => (-5, h)
  | magic :: tokens =>
    if magic ≠ asciiBytes "YUV4MPEG2" then (-5, h)
    else
      match h.readTokens tokens with
      | (0, h) => if h.width = 0 ∨ h.height = 0 ∨ h.fpsNum = 0 then (-9, h) else (0, h)
      | (code, h) => (code, h)

end Y4MHeader

namespace Y4MReader

def readHeader (r : Y4MReader) : Int × Y4MReader :=
  let (data, file) := r.file.fread 1024
  let r := { r with file := file }
  if data = [] then (-2, r)
  else
    match data.findIdx? (· == asciiByte '\n') with
    | none => (-3, r)
    | some n1 =>
      match r.toY4MHeader.readLine (data.take n1) with
      | (0, h) =>
        let r := { r with toY4MHeader := h }
        let (code, file) := r.file.seekSet (n1 + 1 : Nat)
        let r := { r with file := file }
        if code ≠ 0 then (-10, r)
        else (0, { r with startPos := (n1 + 1 : Nat), pos := (n1 + 1 : Nat), frame := 0, prevFrame := -1 })
      | (code, h) => (code, { r with toY4MHeader := h })

/-- `Open` of a file that exists, by a new reader. -/
def «open» (content : List UInt8) : Int × Y4MReader :=
  readHeader { file := ⟨content, 0⟩, fileSize := content.length }

/-! ## Frames -/

/-- The loop that reads up to the end of the line, with the passes it has left. -/
def skipLine : Nat → Y4MReader → Int × Y4MReader
  | 0, r => (-4, r)
  | n + 1, r =>
    match r.file.fread 1 with
    | ([c], file) =>
      let r := { r with file := file, pos := r.pos + 1 }
      if c = asciiByte '\n' then (0, r) else skipLine n r
    | (_, file) => (-3, { r with file := file })

def readFrameHeader (r : Y4MReader) : Int × Y4MReader :=
  let (mark, file) := r.file.fread 5
  let r := { r with file := file }
  if mark.length ≠ 5 then (-1, r)
  else if mark ≠ asciiBytes "FRAME" then (-2, r)
  else skipLine 1024 { r with pos := r.pos + 5 }

/-- `pos_ > file_size_`, a comparison of `uintmax_t` values. -/
def pastEnd (r : Y4MReader) : Bool := r.fileSize < toSize r.pos

/-- `pos_ == file_size_` -/
def atEnd (r : Y4MReader) : Bool := toSize r.pos == r.fileSize

/-- Back to the first frame, or the code `failed`. -/
def rewind (failed : Int) (r : Y4MReader) : Int × Y4MReader :=
  let (code, file) := r.file.seekSet r.startPos
  let r := { r with file := file }
  if code ≠ 0 then (failed, r) else (0, { r with pos := r.startPos })

/-- The end of `SkipFrame` and of `GetFrame`: the payload is behind the stream.
The codes are those for a file that is too short and for a seek that fails. -/
def finishFrame (short failed : Int) (r : Y4MReader) : Int × Y4MReader :=
  let r := { r with pos := r.pos + r.getSize }
  if r.pastEnd then (short, r)
  else if r.atEnd then rewind failed r
  else (0, r)

def skipFrame (r : Y4MReader) : Int × Y4MReader :=
  match r.readFrameHeader with
  | (0, r) =>
    let (code, file) := r.file.seekCur r.getSize
    let r := { r with file := file }
    if code ≠ 0 then (-5, r)
    else
      match r.finishFrame (-6) (-7) with
      | (0, r) => (0, { r with frame := r.frame + 1 })
      | (code, r) => (code, r)
  | (code, r) => (code, r)

/-- `while (frame_ < frame)`, with the passes that are left: one that succeeds
adds one to `frame_`. -/
def skipFrames : Nat → Y4MReader → Int × Y4MReader
  | 0, r => (0, r)
  | n + 1, r =>
    match r.skipFrame with
    | (0, r) => skipFrames n r
    | (code, r) => (code, r)

/-- What a call of `GetFrame` shows to its caller: the code, `*updated` if it is
assigned, and the bytes put in `data`. -/
structure Outcome where
  code : Int
  updated : Option Bool
  data : List UInt8
  deriving DecidableEq, Repr

/-- The part of `GetFrame` behind its loop. -/
def readFrame (frame : Int) (r : Y4MReader) : Outcome × Y4MReader :=
  match r.readFrameHeader with
  | (0, r) =>
    let (data, file) := r.file.fread (toSize r.getSize)
    let r := { r with file := file }
    if toInt data.length ≠ r.getSize then (⟨-10, none, data⟩, r)
    else
      match r.finishFrame (-11) (-12) with
      | (0, r) => (⟨0, some true, data⟩, { r with frame := r.frame + 1, prevFrame := frame })
      | (code, r) => (⟨code, none, data⟩, r)
  | (code, r) => (⟨code, none, []⟩, r)

/-- The number of the frame at a time, `none` for a division by zero. -/
def frameAt (r : Y4MReader) (ms : Int) : Option Int :=
  if toInt64 (1000 * r.fpsDen) = 0 then none
  else some (toInt ((toInt64 (ms * r.fpsNum)).tdiv (toInt64 (1000 * r.fpsDen))))

def getFrame (ms : Int) (r : Y4MReader) : Option (Outcome × Y4MReader) :=
  (r.frameAt ms).map fun frame =>
    if r.prevFrame = frame then (⟨0, some false, []⟩, r)
    else if frame < r.frame then (⟨-1, none, []⟩, r)
    else
      match r.skipFrames (frame - r.frame).toNat with
      | (0, r) => r.readFrame frame
      | (code, r) => (⟨code, none, []⟩, r)

end Y4MReader
