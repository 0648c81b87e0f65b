import Mathlib.Data.List.GetD
import Zakuro.Y4MReader

/-!
# Sampling a Y4M file

A well-formed file repeats its frames for ever, and the reader follows it: when
`frame_` is `k` the stream stands before frame `k mod n` of the file, whichever
frames were read or skipped on the way. One lemma says so for each of the two
ways past a frame, and a sequence of calls of `GetFrame` then samples the
repeated file.
-/

namespace Y4MSampling

open CData Stdio

/-! ## Well-formed files -/

/-- The size of a frame with 4:2:0 chroma planes. -/
def frameSize (h : Y4MHeader) : Int :=
  h.width * h.height + (h.width + 1) / 2 * ((h.height + 1) / 2) * 2

structure Frame where
  tail : List UInt8
  payload : List UInt8
  deriving DecidableEq, Repr

def Frame.header (f : Frame) : List UInt8 := asciiBytes "FRAME" ++ (f.tail ++ [asciiByte '\n'])

def Frame.bytes (f : Frame) : List UInt8 := f.header ++ f.payload

/-- A well-formed file. Its header line is one that the reader accepts. -/
structure Video where
  line : List UInt8
  frames : List Frame
  params : Y4MHeader
  accepted : Y4MHeader.readLine {} line = (0, params)
  line_short : line.length ≤ 1023
  line_whole : asciiByte '\n' ∉ line
  width_pos : 0 < params.width
  height_pos : 0 < params.height
  fpsNum_pos : 0 < params.fpsNum
  fpsDen_pos : 0 < params.fpsDen
  size_fits : frameSize params < 2 ^ 31
  frames_ne : frames ≠ []
  tail_short : ∀ f ∈ frames, f.tail.length ≤ 1023
  tail_whole : ∀ f ∈ frames, asciiByte '\n' ∉ f.tail
  payload_size : ∀ f ∈ frames, (f.payload.length : Int) = frameSize params
  /-- The size of a file is an `off_t`. -/
  fits : (line ++ asciiByte '\n' :: frames.flatMap Frame.bytes).length < 2 ^ 63

namespace Video

variable (v : Video)

def content : List UInt8 := v.line ++ asciiByte '\n' :: v.frames.flatMap Frame.bytes

def count : Nat := v.frames.length

def start : Nat := v.line.length + 1

/-- Where the `k`-th frame of the file begins. -/
def offset (k : Nat) : Nat := v.start + ((v.frames.take k).flatMap Frame.bytes).length

/-- The number of the frame that is shown at a time. -/
def frameNumber (ms : Nat) : Nat := (ms * v.params.fpsNum / (1000 * v.params.fpsDen)).toNat

def nth (k : Nat) : Frame := v.frames.getD k ⟨[], []⟩

/-- The payload of a frame of the file that repeats for ever. -/
def shown (f : Nat) : List UInt8 := (v.nth (f % v.count)).payload

theorem count_pos : 0 < v.count := List.length_pos_iff.mpr v.frames_ne

theorem drop_nth {k : Nat} (hk : k < v.count) :
    v.frames.drop k = v.nth k :: v.frames.drop (k + 1) := by
  rw [nth, List.getD_eq_getElem _ _ hk]
  exact List.drop_eq_getElem_cons hk

theorem nth_mem {k : Nat} (hk : k < v.count) : v.nth k ∈ v.frames := by
  rw [nth, List.getD_eq_getElem _ _ hk]
  exact List.getElem_mem hk

theorem content_length : v.content.length = v.offset v.count := by
  simp [content, offset, start, count]
  omega

theorem offset_succ {k : Nat} (hk : k < v.count) :
    v.offset (k + 1) = v.offset k + (v.nth k).bytes.length := by
  have h : v.frames.take (k + 1) = v.frames.take k ++ [v.nth k] := by
    rw [nth, List.getD_eq_getElem _ _ hk]
    exact List.take_succ_eq_append_getElem hk
  rw [offset, h, List.flatMap_append, List.length_append, offset]
  simp only [List.flatMap_cons, List.flatMap_nil, List.append_nil]
  omega

theorem bytes_pos (f : Frame) : 0 < f.bytes.length := by
  simp only [Frame.bytes, Frame.header, List.length_append, List.length_singleton]
  omega

theorem offset_lt_succ {k : Nat} (hk : k < v.count) : v.offset k < v.offset (k + 1) := by
  rw [offset_succ v hk]
  exact Nat.lt_add_of_pos_right (bytes_pos _)

theorem offset_mono {j k : Nat} (h : j ≤ k) : v.offset j ≤ v.offset k := by
  have htake : v.frames.take j = (v.frames.take k).take j := by
    rw [List.take_take, Nat.min_eq_left h]
  have hsplit : (v.frames.take k).flatMap Frame.bytes =
      (v.frames.take j).flatMap Frame.bytes ++ ((v.frames.take k).drop j).flatMap Frame.bytes := by
    rw [← List.flatMap_append, htake, List.take_append_drop]
  rw [offset, offset, hsplit, List.length_append]
  omega

theorem offset_range {k : Nat} (hk : k < v.count) :
    v.start ≤ v.offset k ∧ v.offset k < v.content.length := by
  constructor
  · exact Nat.le_add_right _ _
  · rw [content_length]
    exact Nat.lt_of_lt_of_le (offset_lt_succ v hk) (offset_mono v hk)

/-- What a stream that stands before a frame has still to read. -/
theorem content_drop {k : Nat} (hk : k < v.count) : ∃ rest,
    v.content.drop (v.offset k) = (v.nth k).bytes ++ rest := by
  refine ⟨(v.frames.drop (k + 1)).flatMap Frame.bytes, ?_⟩
  have hsplit : v.frames.flatMap Frame.bytes =
      (v.frames.take k).flatMap Frame.bytes ++ (v.frames.drop k).flatMap Frame.bytes := by
    rw [← List.flatMap_append, List.take_append_drop]
  have hcontent : v.content = (v.line ++ asciiByte '\n' :: (v.frames.take k).flatMap Frame.bytes) ++
      ((v.nth k).bytes ++ (v.frames.drop (k + 1)).flatMap Frame.bytes) := by
    rw [content, hsplit, drop_nth v hk, List.flatMap_cons]
    simp
  rw [hcontent]
  apply List.drop_left'
  simp [offset, start]
  omega

theorem content_small : v.content.length < 2 ^ 63 := v.fits

end Video

/-! ## The values of the header -/

/-- The members are `int` values, as `atoi` gives them. -/
structure Ints (h : Y4MHeader) : Prop where
  width : h.width < 2 ^ 31
  height : h.height < 2 ^ 31
  fpsNum : h.fpsNum < 2 ^ 31
  fpsDen : h.fpsDen < 2 ^ 31

theorem atoi_lt (text : List UInt8) : atoi text < 2 ^ 31 := (toInt_range _).2

theorem readToken_ints {h : Y4MHeader} (hi : Ints h) (token : List UInt8) :
    Ints (h.readToken token).2 := by
  have number := atoi_lt
  obtain ⟨hw, hh, hn, hd⟩ := hi
  unfold Y4MHeader.readToken
  repeat' split
  all_goals constructor <;> first | assumption | exact number _

theorem readTokens_ints {h : Y4MHeader} (hi : Ints h) (tokens : List (List UInt8)) :
    Ints (h.readTokens tokens).2 := by
  induction tokens generalizing h with
  | nil => exact hi
  | cons token tokens ih =>
    have ht := readToken_ints hi token
    rw [Y4MHeader.readTokens]
    split
    next h' heq =>
      rw [heq] at ht
      exact ih ht
    next code h' _ heq =>
      rw [heq] at ht
      exact ht

theorem readLine_ints {h : Y4MHeader} (hi : Ints h) (line : List UInt8) :
    Ints (h.readLine line).2 := by
  rw [Y4MHeader.readLine]
  split
  next => exact hi
  next magic tokens _ =>
    have ht := readTokens_ints hi tokens
    split
    next => exact hi
    next =>
      split
      next h' heq =>
        rw [heq] at ht
        split <;> exact ht
      next code h' _ heq =>
        rw [heq] at ht
        exact ht

theorem params_ints (v : Video) : Ints v.params := by
  have h : Ints (Y4MHeader.readLine {} v.line).2 := readLine_ints ⟨by decide, by decide, by decide, by decide⟩ _
  rwa [v.accepted] at h

/-- `GetSize` computes the size of a frame when this fits an `int`. -/
theorem getSize_of_fits {h : Y4MHeader} (hi : Ints h) (hw : 0 < h.width) (hh : 0 < h.height)
    (hsize : frameSize h < 2 ^ 31) : h.getSize = frameSize h := by
  obtain ⟨hw', hh', -, -⟩ := hi
  have hcw : (h.width + 1).tdiv 2 = (h.width + 1) / 2 := Int.tdiv_eq_ediv_of_nonneg (by omega)
  have hch : (h.height + 1).tdiv 2 = (h.height + 1) / 2 := Int.tdiv_eq_ediv_of_nonneg (by omega)
  have hluma : 0 < h.width * h.height := Int.mul_pos hw hh
  have hchroma : 0 < (h.width + 1) / 2 * ((h.height + 1) / 2) :=
    Int.mul_pos (by omega) (by omega)
  simp only [frameSize] at hsize ⊢
  simp only [Y4MHeader.getSize, Y4MHeader.getWidth, Y4MHeader.getHeight, Y4MHeader.getChromaWidth,
    Y4MHeader.getChromaHeight, hcw, hch]
  rw [toInt_of_range (x := h.width) (by omega) (by omega),
    toInt_of_range (x := h.height) (by omega) (by omega),
    toInt_of_range (x := (h.width + 1) / 2) (by omega) (by omega),
    toInt_of_range (x := (h.height + 1) / 2) (by omega) (by omega)]
  generalize h.width * h.height = luma at *
  generalize (h.width + 1) / 2 * ((h.height + 1) / 2) = chroma at *
  rw [toInt_of_range (x := luma) (by omega) (by omega),
    toInt_of_range (x := chroma) (by omega) (by omega),
    toInt_of_range (x := chroma * 2) (by omega) (by omega),
    toInt_of_range (by omega) (by omega)]

theorem getSize_eq (v : Video) : v.params.getSize = frameSize v.params :=
  getSize_of_fits (params_ints v) v.width_pos v.height_pos v.size_fits

/-! ## Reading and skipping -/

/-- The reader after reading `n` bytes, with `pos_` in step. -/
def forward (r : Y4MReader) (n : Nat) : Y4MReader :=
  { r with file := r.file.advance n, pos := r.pos + n }

theorem forward_forward (r : Y4MReader) (m n : Nat) :
    forward (forward r m) n = forward r (m + n) := by
  simp [forward, Int.add_assoc]

theorem skipLine_tail (tail rest : List UInt8) (n : Nat) (r : Y4MReader)
    (hwhole : asciiByte '\n' ∉ tail) (hshort : tail.length < n)
    (hr : r.file.content.drop r.file.offset = tail ++ asciiByte '\n' :: rest) :
    Y4MReader.skipLine n r = (0, forward r (tail.length + 1)) := by
  induction tail generalizing n r with
  | nil =>
    obtain ⟨m, rfl⟩ : ∃ m, n = m + 1 := ⟨n - 1, by simp at hshort; omega⟩
    have hread := File.fread_text [asciiByte '\n'] hr
    rw [Y4MReader.skipLine]
    simp only [List.length_singleton] at hread
    simp [hread, forward]
  | cons c tail ih =>
    obtain ⟨m, rfl⟩ : ∃ m, n = m + 1 := ⟨n - 1, by simp at hshort; omega⟩
    have hread := File.fread_text [c] hr
    have hrest := File.drop_advance [c] hr
    simp only [List.mem_cons, not_or] at hwhole
    simp only [List.length_cons, Nat.add_lt_add_iff_right] at hshort
    simp only [List.length_singleton] at hread hrest
    have hnext := ih m (forward r 1) hwhole.2 hshort hrest
    rw [Y4MReader.skipLine, List.length_cons, Nat.add_comm (tail.length + 1) 1,
      ← forward_forward, ← hnext]
    simp [hread, Ne.symm hwhole.1, forward]

theorem readFrameHeader_frame (f : Frame) (rest : List UInt8) (r : Y4MReader)
    (hwhole : asciiByte '\n' ∉ f.tail) (hshort : f.tail.length ≤ 1023)
    (hr : r.file.content.drop r.file.offset = f.bytes ++ rest) :
    r.readFrameHeader = (0, forward r f.header.length) := by
  have hmark : r.file.content.drop r.file.offset =
      asciiBytes "FRAME" ++ (f.tail ++ asciiByte '\n' :: (f.payload ++ rest)) := by
    simpa [Frame.bytes, Frame.header] using hr
  have hfive : (asciiBytes "FRAME").length = 5 := by decide
  have hread := File.fread_text _ hmark
  have hrest := File.drop_advance _ hmark
  rw [hfive] at hread hrest
  have hline := skipLine_tail f.tail (f.payload ++ rest) 1024 (forward r 5) hwhole (by omega) hrest
  have hlength : f.header.length = 5 + (f.tail.length + 1) := by
    rw [Frame.header, List.length_append, hfive, List.length_append, List.length_singleton]
  rw [hlength, ← forward_forward, ← hline]
  simp [Y4MReader.readFrameHeader, hread, hfive, forward]

/-- The reader stands before the `k`-th frame of the file that repeats for ever. -/
structure Stands (v : Video) (k : Nat) (r : Y4MReader) : Prop where
  params : r.toY4MHeader = v.params
  content : r.file.content = v.content
  fileSize : r.fileSize = v.content.length
  startPos : r.startPos = v.start
  frame : r.frame = k
  pos : r.pos = v.offset (k % v.count)
  offset : r.file.offset = v.offset (k % v.count)

theorem Stands.pos_range {v : Video} {k : Nat} {r : Y4MReader} (h : Stands v k r) :
    r.pos = r.file.offset ∧ r.startPos ≤ r.pos ∧ r.pos < r.fileSize := by
  obtain ⟨hlo, hhi⟩ := v.offset_range (Nat.mod_lt k v.count_pos)
  rw [h.pos, h.offset, h.startPos, h.fileSize]
  exact ⟨rfl, by exact_mod_cast hlo, by exact_mod_cast hhi⟩

/-- The reader after it has passed the payload of the `k`-th frame. -/
def past (v : Video) (k : Nat) (r : Y4MReader) : Y4MReader :=
  { r with
    file := { r.file with offset := v.offset ((k + 1) % v.count) }
    pos := v.offset ((k + 1) % v.count) }

theorem succ_mod (v : Video) (k : Nat) : (k + 1) % v.count =
    if k % v.count + 1 = v.count then 0 else k % v.count + 1 := by
  have hlt := Nat.mod_lt k v.count_pos
  rw [← Nat.mod_add_mod]
  split
  next h => rw [h, Nat.mod_self]
  next h => exact Nat.mod_eq_of_lt (by omega)

/-- Behind a payload the reader goes on to the next frame, or back to the first. -/
theorem finishFrame_past {v : Video} {k : Nat} {r : Y4MReader} (short failed : Int)
    (hparams : r.toY4MHeader = v.params) (hsize : r.fileSize = v.content.length)
    (hstart : r.startPos = v.start) (hoff : r.file.offset = v.offset (k % v.count + 1))
    (hpos : r.pos + frameSize v.params = v.offset (k % v.count + 1)) :
    r.finishFrame short failed = (0, past v k r) := by
  have hlt := Nat.mod_lt k v.count_pos
  have hle : v.offset (k % v.count + 1) ≤ v.content.length := by
    rw [Video.content_length]
    exact v.offset_mono hlt
  have hsmall := v.content_small
  have hcast : toSize (v.offset (k % v.count + 1)) = v.offset (k % v.count + 1) :=
    toSize_of_range (by omega) (by omega)
  have hget : r.pos + r.getSize = v.offset (k % v.count + 1) := by
    rw [hparams, getSize_eq, hpos]
  simp only [Y4MReader.finishFrame, Y4MReader.pastEnd, Y4MReader.atEnd, hget, hcast, hsize]
  rw [if_neg (by simpa using hle)]
  by_cases hend : k % v.count + 1 = v.count
  · have hfile : v.offset (k % v.count + 1) = v.content.length := by
      rw [hend, Video.content_length]
    have hzero : v.offset ((k + 1) % v.count) = v.start := by
      rw [succ_mod, if_pos hend]
      simp [Video.offset]
    simp only [hfile, beq_self_eq_true, if_true, Y4MReader.rewind, hstart, File.seekSet_nat, past,
      hzero]
    simp [hsize]
  · have hnext : (k + 1) % v.count = k % v.count + 1 := by
      rw [succ_mod, if_neg hend]
    have hinside : v.offset (k % v.count + 1) < v.content.length :=
      (v.offset_range (by omega)).2
    rw [if_neg (by simpa using Nat.ne_of_lt hinside), past, hnext, ← hoff]
    simp [hsize]

/-- Past the header of the frame the reader stands before. -/
theorem Stands.header {v : Video} {k : Nat} {r : Y4MReader} (h : Stands v k r) :
    ∃ rest, r.readFrameHeader = (0, forward r (v.nth (k % v.count)).header.length) ∧
      (forward r (v.nth (k % v.count)).header.length).file.content.drop
          (forward r (v.nth (k % v.count)).header.length).file.offset =
        v.shown k ++ rest := by
  have hlt := Nat.mod_lt k v.count_pos
  have hmem := v.nth_mem hlt
  obtain ⟨rest, hdrop⟩ := v.content_drop hlt
  have hr : r.file.content.drop r.file.offset = (v.nth (k % v.count)).bytes ++ rest := by
    rw [h.content, h.offset, hdrop]
  refine ⟨rest, readFrameHeader_frame _ rest r (v.tail_whole _ hmem) (v.tail_short _ hmem) hr, ?_⟩
  rw [Frame.bytes, List.append_assoc] at hr
  exact File.drop_advance _ hr

theorem shown_length (v : Video) (k : Nat) : ((v.shown k).length : Int) = frameSize v.params :=
  v.payload_size _ (v.nth_mem (Nat.mod_lt k v.count_pos))

/-- Past the frame the reader stands before, before the loop at the end of the file. -/
def passed (v : Video) (k : Nat) (r : Y4MReader) : Y4MReader :=
  let r := forward r (v.nth (k % v.count)).header.length
  { r with file := r.file.advance (v.shown k).length }

theorem Stands.finishFrame {v : Video} {k : Nat} {r : Y4MReader} (h : Stands v k r)
    (short failed : Int) : (passed v k r).finishFrame short failed = (0, past v k r) := by
  have hlt := Nat.mod_lt k v.count_pos
  have hsize := shown_length v k
  have hoff := v.offset_succ hlt
  rw [Frame.bytes, List.length_append] at hoff
  have hpast : past v k (passed v k r) = past v k r := by simp [past, passed, forward]
  rw [← hpast]
  apply finishFrame_past (r := passed v k r) short failed h.params h.fileSize h.startPos
  · simp only [passed, forward, File.advance_offset, h.offset, hoff, Video.shown]
    omega
  · simp only [passed, forward, h.pos, hoff, ← hsize, Video.shown]
    omega

theorem Stands.past {v : Video} {k : Nat} {r : Y4MReader} (h : Stands v k r) (p : Int) :
    Stands v (k + 1) { past v k r with frame := r.frame + 1, prevFrame := p } :=
  ⟨h.params, h.content, h.fileSize, h.startPos, by simp [h.frame], rfl, rfl⟩

theorem Stands.getSize {v : Video} {k : Nat} {r : Y4MReader} (h : Stands v k r) (n : Nat) :
    (forward r n).getSize = ((v.shown k).length : Int) := by
  rw [shown_length, ← getSize_eq, ← h.params]
  rfl

theorem skipFrame_stands {v : Video} {k : Nat} {r : Y4MReader} (h : Stands v k r) :
    r.skipFrame = (0, { past v k r with frame := r.frame + 1 }) := by
  obtain ⟨rest, hheader, -⟩ := h.header
  have hseek := File.seekCur_nat (forward r (v.nth (k % v.count)).header.length).file
    (v.shown k).length
  have hfinish := h.finishFrame (-6) (-7)
  rw [passed] at hfinish
  simp only [Y4MReader.skipFrame, hheader, h.getSize, hseek, hfinish]
  simp [past]

theorem readFrame_stands {v : Video} {k : Nat} {r : Y4MReader} (h : Stands v k r) (frame : Int) :
    r.readFrame frame =
      (⟨0, some true, v.shown k⟩, { past v k r with frame := r.frame + 1, prevFrame := frame }) := by
  obtain ⟨rest, hheader, hrest⟩ := h.header
  have hsize := shown_length v k
  have hfits := v.size_fits
  have hread := File.fread_text _ hrest
  have hcount : toSize ((v.shown k).length : Int) = (v.shown k).length :=
    toSize_of_range (by omega) (by omega)
  have hint : toInt ((v.shown k).length : Int) = (v.shown k).length :=
    toInt_of_range (by omega) (by omega)
  have hfinish := h.finishFrame (-11) (-12)
  rw [passed] at hfinish
  simp only [Y4MReader.readFrame, hheader, h.getSize, hcount, hread]
  rw [if_neg (by simp [hint]), hfinish]
  rfl

/-- Skipping is not noticed: the reader only stands before a later frame. -/
theorem skipFrames_stands {v : Video} (m : Nat) {k : Nat} {r : Y4MReader} (h : Stands v k r) :
    ∃ r', r.skipFrames m = (0, r') ∧ Stands v (k + m) r' := by
  induction m generalizing k r with
  | zero => exact ⟨r, rfl, h⟩
  | succ m ih =>
    obtain ⟨r', hr', hs⟩ := ih (h.past r.prevFrame)
    refine ⟨r', ?_, by rwa [Nat.add_right_comm] at hs⟩
    rw [Y4MReader.skipFrames, skipFrame_stands h]
    exact hr'

/-! ## One call -/

theorem frameNumber_cast (v : Video) (ms : Nat) :
    (v.frameNumber ms : Int) = ms * v.params.fpsNum / (1000 * v.params.fpsDen) := by
  have hnum := v.fpsNum_pos
  have hden := v.fpsDen_pos
  apply Int.toNat_of_nonneg
  apply Int.ediv_nonneg
  · exact Int.mul_nonneg (by omega) (by omega)
  · omega

theorem frameAt_eq {v : Video} {r : Y4MReader} (hparams : r.toY4MHeader = v.params) {ms : Nat}
    (hms : ms < 2 ^ 32) (hf : v.frameNumber ms < 2 ^ 31) :
    r.frameAt ms = some (v.frameNumber ms : Int) := by
  have hnum := v.fpsNum_pos
  have hden := v.fpsDen_pos
  obtain ⟨-, -, hnum', hden'⟩ := params_ints v
  have hcast := frameNumber_cast v ms
  have hlo : 0 ≤ (ms : Int) * v.params.fpsNum := Int.mul_nonneg (by omega) (by omega)
  have hhi : (ms : Int) * v.params.fpsNum < 2 ^ 63 := by
    calc (ms : Int) * v.params.fpsNum ≤ 2 ^ 32 * v.params.fpsNum :=
          Int.mul_le_mul_of_nonneg_right (by omega) (by omega)
      _ < 2 ^ 32 * 2 ^ 31 := Int.mul_lt_mul_of_pos_left hnum' (by decide)
      _ = 2 ^ 63 := by decide
  rw [Y4MReader.frameAt, hparams, toInt64_of_range (x := 1000 * v.params.fpsDen) (by omega) (by omega),
    toInt64_of_range (by omega) hhi, if_neg (by omega), Int.tdiv_eq_ediv_of_nonneg hlo, ← hcast,
    toInt_of_range (by omega) (by omega)]

/-- The number of the frame that is read next, after the last that was delivered. -/
def next (last : Option Nat) : Nat := last.elim 0 (· + 1)

/-- A reader whose last delivered frame is known. -/
structure Ready (v : Video) (last : Option Nat) (r : Y4MReader) : Prop where
  stands : Stands v (next last) r
  prevFrame : r.prevFrame = last.elim (-1) (Nat.cast)

theorem Ready.prevFrame_iff {v : Video} {last : Option Nat} {r : Y4MReader} (h : Ready v last r)
    (f : Nat) : r.prevFrame = (f : Int) ↔ last = some f := by
  rw [h.prevFrame]
  cases last with
  | none => simp
  | some g =>
    rw [Option.elim_some, Option.some.injEq]
    omega

theorem Ready.frame_lt_iff {v : Video} {last : Option Nat} {r : Y4MReader} (h : Ready v last r)
    (f : Nat) : (f : Int) < r.frame ↔ ∃ g, last = some g ∧ f ≤ g := by
  rw [h.stands.frame]
  cases last with
  | none => simp [next]
  | some g =>
    simp only [next, Option.elim_some, Option.some.injEq, exists_eq_left']
    omega

theorem getFrame_same {v : Video} {last : Option Nat} {r : Y4MReader} (h : Ready v last r) {ms : Nat}
    (hms : ms < 2 ^ 32) (hf : v.frameNumber ms < 2 ^ 31) (hsame : last = some (v.frameNumber ms)) :
    r.getFrame ms = some (⟨0, some false, []⟩, r) := by
  rw [Y4MReader.getFrame, frameAt_eq h.stands.params hms hf, Option.map_some,
    if_pos ((h.prevFrame_iff _).mpr hsame)]

theorem getFrame_rewound {v : Video} {last : Option Nat} {r : Y4MReader} (h : Ready v last r)
    {ms : Nat} (hms : ms < 2 ^ 32) (hf : v.frameNumber ms < 2 ^ 31)
    (hback : ∃ g, last = some g ∧ v.frameNumber ms < g) :
    r.getFrame ms = some (⟨-1, none, []⟩, r) := by
  obtain ⟨g, hg, hlt⟩ := hback
  have hne : last ≠ some (v.frameNumber ms) := by
    rw [hg, ne_eq, Option.some.injEq]
    omega
  rw [Y4MReader.getFrame, frameAt_eq h.stands.params hms hf, Option.map_some,
    if_neg (mt (h.prevFrame_iff _).mp hne), if_pos ((h.frame_lt_iff _).mpr ⟨g, hg, Nat.le_of_lt hlt⟩)]

theorem getFrame_fresh {v : Video} {last : Option Nat} {r : Y4MReader} (h : Ready v last r)
    {ms : Nat} (hms : ms < 2 ^ 32) (hf : v.frameNumber ms < 2 ^ 31)
    (hnew : ¬ ∃ g, last = some g ∧ v.frameNumber ms ≤ g) :
    ∃ r', r.getFrame ms = some (⟨0, some true, v.shown (v.frameNumber ms)⟩, r') ∧
      Ready v (some (v.frameNumber ms)) r' := by
  have hne : last ≠ some (v.frameNumber ms) := fun hs => hnew ⟨_, hs, Nat.le_refl _⟩
  have hle : next last ≤ v.frameNumber ms := by
    have hlt := mt (h.frame_lt_iff _).mp hnew
    rw [h.stands.frame] at hlt
    omega
  obtain ⟨r₁, hskip, hstands⟩ := skipFrames_stands (v.frameNumber ms - next last) h.stands
  rw [Nat.add_sub_cancel' hle] at hstands
  have hcount : ((v.frameNumber ms : Int) - r.frame).toNat = v.frameNumber ms - next last := by
    rw [h.stands.frame]
    omega
  refine ⟨_, ?_, hstands.past (v.frameNumber ms), rfl⟩
  rw [Y4MReader.getFrame, frameAt_eq h.stands.params hms hf, Option.map_some,
    if_neg (mt (h.prevFrame_iff _).mp hne), if_neg (mt (h.frame_lt_iff _).mp hnew), hcount, hskip]
  exact congrArg some (readFrame_stands hstands _)

/-! ## Opening the file -/

theorem find_lineEnd {line : List UInt8} (h : asciiByte '\n' ∉ line) (rest : List UInt8) :
    (line ++ asciiByte '\n' :: rest).findIdx? (· == asciiByte '\n') = some line.length := by
  have hnone : line.findIdx? (· == asciiByte '\n') = none := by
    rw [List.findIdx?_eq_none_iff]
    intro c hc
    have hne : c ≠ asciiByte '\n' := ne_of_mem_of_not_mem hc h
    simpa using hne
  rw [List.findIdx?_append, hnone, List.findIdx?_cons]
  simp

theorem open_ready (v : Video) : ∃ r, Y4MReader.open v.content = (0, r) ∧ Ready v none r := by
  have hshort := v.line_short
  obtain ⟨m, hm⟩ : ∃ m, 1024 = v.line.length + (m + 1) := ⟨1023 - v.line.length, by omega⟩
  have hahead : v.content.take 1024 =
      v.line ++ asciiByte '\n' :: (v.frames.flatMap Frame.bytes).take m := by
    rw [hm, Video.content, List.take_length_add_append, List.take_succ_cons]
  have hne : v.line ++ asciiByte '\n' :: (v.frames.flatMap Frame.bytes).take m ≠ [] := by simp
  refine ⟨{
    toY4MHeader := v.params
    file := ⟨v.content, v.start⟩
    startPos := v.start
    pos := v.start
    fileSize := v.content.length }, ?_, ?_⟩
  · simp only [Y4MReader.open, Y4MReader.readHeader, File.fread, File.ahead, List.drop_zero, hahead]
    rw [if_neg hne, find_lineEnd v.line_whole]
    simp only [List.take_left', v.accepted, File.seekSet_nat]
    rfl
  · exact ⟨⟨rfl, rfl, rfl, rfl, rfl, rfl, rfl⟩, rfl⟩

/-! ## Sequences of calls -/

/-- One call, with the reader it leaves. -/
structure Call where
  ms : Nat
  outcome : Y4MReader.Outcome
  after : Y4MReader

/-- The calls of `GetFrame` at some times, one after the other; `none` when one
of them divides by zero. -/
def calls (r : Y4MReader) : List Nat → Option (List Call)
  | [] => some []
  | ms :: times =>
    (r.getFrame ms).bind fun o => (calls o.2 times).map (⟨ms, o.1, o.2⟩ :: ·)

/-- How a call has to answer when `last` is the frame that was delivered last. -/
structure Answers (v : Video) (last : Option Nat) (before : Y4MReader) (c : Call) : Prop where
  same : last = some (v.frameNumber c.ms) → c.outcome = ⟨0, some false, []⟩ ∧ c.after = before
  rewound : (∃ g, last = some g ∧ v.frameNumber c.ms < g) →
    c.outcome.code = -1 ∧ c.outcome.data = [] ∧ c.after = before
  fresh : (¬ ∃ g, last = some g ∧ v.frameNumber c.ms ≤ g) →
    c.outcome = ⟨0, some true, v.shown (v.frameNumber c.ms)⟩
  position : c.after.pos = c.after.file.offset ∧ c.after.startPos ≤ c.after.pos ∧
    c.after.pos < c.after.fileSize

/-- The frame that was delivered last, after the call. -/
def delivered (v : Video) (last : Option Nat) (c : Call) : Option Nat :=
  if c.outcome.updated = some true then some (v.frameNumber c.ms) else last

inductive Sampled (v : Video) : Option Nat → Y4MReader → List Call → Prop where
  | nil (last : Option Nat) (r : Y4MReader) : Sampled v last r []
  | cons {last : Option Nat} {r : Y4MReader} {c : Call} {cs : List Call} :
    Answers v last r c → Sampled v (delivered v last c) c.after cs → Sampled v last r (c :: cs)

/-- One call answers as it has to, and leaves a reader that is ready for the next. -/
theorem getFrame_answers {v : Video} {last : Option Nat} {r : Y4MReader} (h : Ready v last r)
    {ms : Nat} (hms : ms < 2 ^ 32) (hf : v.frameNumber ms < 2 ^ 31) :
    ∃ o r', r.getFrame ms = some (o, r') ∧ Answers v last r ⟨ms, o, r'⟩ ∧
      Ready v (delivered v last ⟨ms, o, r'⟩) r' := by
  by_cases hle : ∃ g, last = some g ∧ v.frameNumber ms ≤ g
  · by_cases hsame : last = some (v.frameNumber ms)
    · refine ⟨_, r, getFrame_same h hms hf hsame, ?_, h⟩
      refine ⟨fun _ => ⟨rfl, rfl⟩, ?_, fun hn => absurd hle hn, h.stands.pos_range⟩
      rintro ⟨g, hg, hlt⟩
      rw [hsame, Option.some.injEq] at hg
      exact absurd hlt (by simp [hg])
    · have hback : ∃ g, last = some g ∧ v.frameNumber ms < g := by
        obtain ⟨g, hg, hle⟩ := hle
        have hne : v.frameNumber ms ≠ g := fun heq => hsame (heq ▸ hg)
        exact ⟨g, hg, by omega⟩
      refine ⟨_, r, getFrame_rewound h hms hf hback, ?_, h⟩
      exact ⟨fun hs => absurd hs hsame, fun _ => ⟨rfl, rfl, rfl⟩, fun hn => absurd hle hn,
        h.stands.pos_range⟩
  · obtain ⟨r', hr', hready⟩ := getFrame_fresh h hms hf hle
    refine ⟨_, r', hr', ?_, hready⟩
    refine ⟨fun hs => absurd ⟨_, hs, Nat.le_refl _⟩ hle, ?_, fun _ => rfl, hready.stands.pos_range⟩
    rintro ⟨g, hg, hlt⟩
    exact absurd ⟨g, hg, Nat.le_of_lt hlt⟩ hle

theorem calls_sampled {v : Video} {last : Option Nat} {r : Y4MReader} (h : Ready v last r)
    (times : List Nat) (htimes : ∀ ms ∈ times, ms < 2 ^ 32 ∧ v.frameNumber ms < 2 ^ 31) :
    ∃ cs, calls r times = some cs ∧ cs.map Call.ms = times ∧ Sampled v last r cs := by
  induction times generalizing last r with
  | nil => exact ⟨[], rfl, rfl, .nil last r⟩
  | cons ms times ih =>
    obtain ⟨hms, hf⟩ := htimes ms (List.mem_cons_self ..)
    obtain ⟨o, r', hcall, hanswers, hready⟩ := getFrame_answers h hms hf
    obtain ⟨cs, hcs, htime, hsampled⟩ := ih hready fun t ht => htimes t (List.mem_cons_of_mem _ ht)
    refine ⟨⟨ms, o, r'⟩ :: cs, ?_, ?_, .cons hanswers hsampled⟩
    · simp [calls, hcall, hcs]
    · rw [List.map_cons, htime]

/-- After `Open` every sequence of calls samples the file that repeats for ever. -/
theorem open_sampled (v : Video) (times : List Nat)
    (htimes : ∀ ms ∈ times, ms < 2 ^ 32 ∧ v.frameNumber ms < 2 ^ 31) :
    ∃ r cs, Y4MReader.open v.content = (0, r) ∧
      (r.pos = r.file.offset ∧ r.startPos ≤ r.pos ∧ r.pos < r.fileSize) ∧
      calls r times = some cs ∧ cs.map Call.ms = times ∧ Sampled v none r cs := by
  obtain ⟨r, hopen, hready⟩ := open_ready v
  obtain ⟨cs, hcs, htime, hsampled⟩ := calls_sampled hready times htimes
  exact ⟨r, cs, hopen, hready.stands.pos_range, hcs, htime, hsampled⟩

/-- Two frames of four pixels, whose header lines are not equally long. -/
def twoFrames : Video where
  line := asciiBytes "YUV4MPEG2 W2 H2 F30:1 Ip C420jpeg"
  frames := [⟨[], [1, 2, 3, 4, 5, 6]⟩, ⟨asciiBytes " Ip", [7, 8, 9, 10, 11, 12]⟩]
  params := { width := 2, height := 2, fpsNum := 30, fpsDen := 1 }
  accepted := by decide +kernel
  line_short := by decide
  line_whole := by decide
  width_pos := by decide
  height_pos := by decide
  fpsNum_pos := by decide
  fpsDen_pos := by decide
  size_fits := by decide
  frames_ne := by decide
  tail_short := by decide
  tail_whole := by decide
  payload_size := by decide
  fits := by decide

theorem open_sampled_twoFrames :
    ∃ r cs, Y4MReader.open twoFrames.content = (0, r) ∧
      (r.pos = r.file.offset ∧ r.startPos ≤ r.pos ∧ r.pos < r.fileSize) ∧
      calls r [0, 34, 40, 200, 100] = some cs ∧ cs.map Call.ms = [0, 34, 40, 200, 100] ∧
      Sampled twoFrames none r cs :=
  open_sampled twoFrames [0, 34, 40, 200, 100] (by decide)

end Y4MSampling
