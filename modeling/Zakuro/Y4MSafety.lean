import Zakuro.Y4MSampling

/-!
# Which Y4M headers are safe

`ReadHeader` refuses a width, a height or a rate that is 0 and nothing else. A
header that it accepts is safe to use exactly when the numbers that stand in its
line are positive and make a frame whose size fits an `int`.
-/

namespace Y4MSafety

open CData Stdio Y4MSampling

/-! ## What a header line says -/

def startsWith (c : Char) (token : List UInt8) : Bool := token.head? == some (asciiByte c)

/-- The last of the tokens that begin with a letter. -/
def lastToken (c : Char) (tokens : List (List UInt8)) : Option (List UInt8) :=
  tokens.reverse.find? (startsWith c)

/-- The number behind the letter, 0 without a token. -/
def number (c : Char) (tokens : List (List UInt8)) : Int :=
  (lastToken c tokens).elim 0 fun token => atoi (token.drop 1)

/-- The number behind the colon of the rate. -/
def denominator (tokens : List (List UInt8)) : Int :=
  (lastToken 'F' tokens).elim 0 fun token => atoi ((token.dropWhile (· ≠ asciiByte ':')).drop 1)

/-- The tokens of a line behind its first. -/
def fields (line : List UInt8) : List (List UInt8) := (line.splitOn (asciiByte ' ')).drop 1

/-- The numbers of a header line, 0 where it has none. -/
def said (line : List UInt8) : Y4MHeader where
  width := number 'W' (fields line)
  height := number 'H' (fields line)
  fpsNum := number 'F' (fields line)
  fpsDen := denominator (fields line)

/-- The numbers can be used for frames and times. -/
structure Sound (h : Y4MHeader) : Prop where
  width : 1 ≤ h.width
  height : 1 ≤ h.height
  fpsNum : 1 ≤ h.fpsNum
  fpsDen : 1 ≤ h.fpsDen
  size : frameSize h < 2 ^ 31

theorem lastToken_cons (c : Char) (token : List UInt8) (tokens : List (List UInt8)) :
    lastToken c (token :: tokens) =
      (lastToken c tokens).or (if startsWith c token then some token else none) := by
  rw [lastToken, List.reverse_cons, List.find?_append, lastToken, List.find?_cons, List.find?_nil]
  cases startsWith c token <;> rfl

/-- What the letters of the tokens add to what is known. -/
structure Says (h : Y4MHeader) (tokens : List (List UInt8)) (h' : Y4MHeader) : Prop where
  width : h'.width = (lastToken 'W' tokens).elim h.width fun token => atoi (token.drop 1)
  height : h'.height = (lastToken 'H' tokens).elim h.height fun token => atoi (token.drop 1)
  fpsNum : h'.fpsNum = (lastToken 'F' tokens).elim h.fpsNum fun token => atoi (token.drop 1)
  fpsDen : h'.fpsDen = (lastToken 'F' tokens).elim h.fpsDen fun token =>
    atoi ((token.dropWhile (· ≠ asciiByte ':')).drop 1)

theorem drop_findIdx? {text : List UInt8} {b : UInt8} {n : Nat}
    (h : text.findIdx? (· == b) = some n) :
    text.drop (n + 1) = (text.dropWhile (· ≠ b)).drop 1 := by
  induction text generalizing n with
  | nil => simp at h
  | cons c text ih =>
    by_cases hc : c = b
    · simp [List.findIdx?_cons, hc] at h
      simp [hc, ← h]
    · simp only [List.findIdx?_cons, beq_iff_eq, hc, if_false, Option.map_eq_some_iff] at h
      obtain ⟨m, hm, rfl⟩ := h
      simpa [hc] using ih hm

theorem elim_or {α β : Type} (x y : Option α) (d : β) (f : α → β) :
    (x.or y).elim d f = x.elim (y.elim d f) f := by
  cases x <;> rfl

theorem readToken_other (h : Y4MHeader) {c : UInt8} (rest : List UInt8) (hw : c ≠ asciiByte 'W')
    (hh : c ≠ asciiByte 'H') (hf : c ≠ asciiByte 'F') :
    ∃ a b, (h.readToken (c :: rest)).2 = { h with aspectH := a, aspectV := b } := by
  simp only [Y4MHeader.readToken, if_neg hw, if_neg hh, if_neg hf]
  repeat' split
  all_goals exact ⟨_, _, rfl⟩

/-- A token that is accepted sets the numbers of its letter and no others. -/
theorem readToken_said {h h' : Y4MHeader} {token : List UInt8} (hr : h.readToken token = (0, h')) :
    Says h [token] h' := by
  cases token with
  | nil => simp [Y4MHeader.readToken] at hr
  | cons c rest =>
    have hlast (d : Char) : lastToken d [c :: rest] =
        if c = asciiByte d then some (c :: rest) else none := by
      simp [lastToken, startsWith]
    by_cases hw : c = asciiByte 'W'
    · rw [Y4MHeader.readToken, if_pos hw] at hr
      obtain rfl := (Prod.mk.inj hr).2
      constructor <;> rw [hlast, hw] <;> rfl
    by_cases hh : c = asciiByte 'H'
    · rw [Y4MHeader.readToken, if_neg hw, if_pos hh] at hr
      obtain rfl := (Prod.mk.inj hr).2
      constructor <;> rw [hlast, hh] <;> rfl
    by_cases hf : c = asciiByte 'F'
    · rw [Y4MHeader.readToken, if_neg hw, if_neg hh, if_pos hf] at hr
      split at hr
      next => simp at hr
      next n hn =>
        obtain rfl := (Prod.mk.inj hr).2
        rw [drop_findIdx? hn]
        constructor <;> rw [hlast, hf] <;> rfl
    obtain ⟨a, b, hab⟩ := readToken_other h rest hw hh hf
    rw [hr] at hab
    obtain rfl := hab
    constructor <;> simp only [hlast, if_neg hw, if_neg hh, if_neg hf, Option.elim_none]

theorem readTokens_said {h h' : Y4MHeader} {tokens : List (List UInt8)}
    (hr : h.readTokens tokens = (0, h')) : Says h tokens h' := by
  induction tokens generalizing h with
  | nil =>
    obtain rfl := (Prod.mk.inj hr).2
    constructor <;> rfl
  | cons token tokens ih =>
    rw [Y4MHeader.readTokens] at hr
    split at hr
    next h₁ heq =>
      have hone := readToken_said heq
      have hrest := ih hr
      have hsplit (c : Char) : lastToken c (token :: tokens) =
          (lastToken c tokens).or (lastToken c [token]) := by
        rw [lastToken_cons, lastToken_cons]
        rfl
      constructor
      · rw [hsplit, elim_or, hrest.width, hone.width]
      · rw [hsplit, elim_or, hrest.height, hone.height]
      · rw [hsplit, elim_or, hrest.fpsNum, hone.fpsNum]
      · rw [hsplit, elim_or, hrest.fpsDen, hone.fpsDen]
    next code _ hcode _ =>
      exact absurd (Prod.mk.inj hr).1 (by simpa using hcode)

/-- A line that is accepted has passed the tokens that it has. -/
theorem readLine_said {line : List UInt8} {h : Y4MHeader}
    (hr : Y4MHeader.readLine {} line = (0, h)) : Says {} (fields line) h := by
  rw [Y4MHeader.readLine] at hr
  split at hr
  next => simp at hr
  next magic tokens htokens =>
    have hfields : fields line = tokens := by rw [fields, htokens, List.drop_succ_cons, List.drop_zero]
    rw [hfields]
    split at hr
    next => simp at hr
    next =>
      split at hr
      next h₁ heq =>
        split at hr
        next => simp at hr
        next =>
          obtain rfl := (Prod.mk.inj hr).2
          exact readTokens_said heq
      next code _ hcode _ =>
        exact absurd (Prod.mk.inj hr).1 (by simpa using hcode)

/-- Two headers with the same numbers. -/
structure Agrees (h h' : Y4MHeader) : Prop where
  width : h.width = h'.width
  height : h.height = h'.height
  fpsNum : h.fpsNum = h'.fpsNum
  fpsDen : h.fpsDen = h'.fpsDen

/-- The numbers of a header whose line is accepted are those that stand in the line. -/
theorem readLine_agrees {line : List UInt8} {h : Y4MHeader} (hr : Y4MHeader.readLine {} line = (0, h)) :
    Agrees h (said line) :=
  have hline := readLine_said hr
  ⟨hline.width, hline.height, hline.fpsNum, hline.fpsDen⟩

theorem video_agrees (v : Video) : Agrees v.params (said v.line) := readLine_agrees v.accepted

theorem Agrees.frameSize {h h' : Y4MHeader} (hagrees : Agrees h h') : frameSize h = frameSize h' := by
  rw [Y4MSampling.frameSize, Y4MSampling.frameSize, hagrees.width, hagrees.height]

theorem Agrees.sound {h h' : Y4MHeader} (hagrees : Agrees h h') : Sound h ↔ Sound h' := by
  have hsize := hagrees.frameSize
  constructor
  · rintro ⟨hw, hh, hn, hd, hs⟩
    exact ⟨hagrees.width ▸ hw, hagrees.height ▸ hh, hagrees.fpsNum ▸ hn, hagrees.fpsDen ▸ hd, hsize ▸ hs⟩
  · rintro ⟨hw, hh, hn, hd, hs⟩
    exact ⟨hagrees.width ▸ hw, hagrees.height ▸ hh, hagrees.fpsNum ▸ hn, hagrees.fpsDen ▸ hd, hsize ▸ hs⟩

/-- The readers that calls of `GetFrame` leave. -/
inductive Later (r : Y4MReader) : Y4MReader → Prop where
  | refl : Later r r
  | call {r₁ r₂ : Y4MReader} {ms : Int} {o : Y4MReader.Outcome} :
    Later r r₁ → r₁.getFrame ms = some (o, r₂) → Later r r₂

/-- The size of the payload that `SkipFrame` and the end of `GetFrame` ask for. -/
def payloadSize (r : Y4MReader) : List Int :=
  match r.readFrameHeader with
  | (0, r) => [r.getSize]
  | _ => []

def skipSizes : Nat → Y4MReader → List Int
  | 0, _ => []
  | n + 1, r =>
    payloadSize r ++
      match r.skipFrame with
      | (0, r) => skipSizes n r
      | _ => []

/-- The sizes that a call of `GetFrame` gives to `fseek` and to `fread`, in order. -/
def sizes (ms : Int) (r : Y4MReader) : List Int :=
  match r.frameAt ms with
  | none => []
  | some frame =>
    if r.prevFrame = frame ∨ frame < r.frame then []
    else
      skipSizes (frame - r.frame).toNat r ++
        match r.skipFrames (frame - r.frame).toNat with
        | (0, r) => payloadSize r
        | _ => []

/-- A reader that can be used. -/
structure Safe (r : Y4MReader) : Prop where
  width : 1 ≤ r.width
  height : 1 ≤ r.height
  fpsNum : 1 ≤ r.fpsNum
  fpsDen : 1 ≤ r.fpsDen
  size : r.getSize = frameSize r.toY4MHeader
  division : ∀ r', Later r r' → ∀ ms, r'.getFrame ms ≠ none
  whole : ∀ r', Later r r' → ∀ ms, ∀ size ∈ sizes ms r',
    size = frameSize r.toY4MHeader ∧ 0 < size ∧ (toSize size : Int) = size

theorem skipLine_header (n : Nat) (r : Y4MReader) :
    (Y4MReader.skipLine n r).2.toY4MHeader = r.toY4MHeader := by
  induction n generalizing r with
  | zero => rfl
  | succ n ih =>
    rw [Y4MReader.skipLine]
    split
    next =>
      split
      next => rfl
      next => exact ih _
    next => rfl

theorem readFrameHeader_header (r : Y4MReader) :
    r.readFrameHeader.2.toY4MHeader = r.toY4MHeader := by
  simp only [Y4MReader.readFrameHeader]
  repeat' split
  · rfl
  · rfl
  · exact skipLine_header _ _

theorem finishFrame_header (short failed : Int) (r : Y4MReader) :
    (r.finishFrame short failed).2.toY4MHeader = r.toY4MHeader := by
  simp only [Y4MReader.finishFrame, Y4MReader.rewind]
  repeat' split
  all_goals rfl

/-- What both branches behind a code keep of the header is kept. -/
theorem code_header {α : Type} {p : Int × Y4MReader} {ok : Y4MReader → α × Y4MReader}
    {error : Int → Y4MReader → α × Y4MReader}
    (hok : ∀ r, (ok r).2.toY4MHeader = r.toY4MHeader)
    (herror : ∀ code r, (error code r).2.toY4MHeader = r.toY4MHeader) :
    (match p with
      | (0, r) => ok r
      | (code, r) => error code r).2.toY4MHeader = p.2.toY4MHeader := by
  split
  · exact hok _
  · exact herror _ _

theorem skipFrame_header (r : Y4MReader) : r.skipFrame.2.toY4MHeader = r.toY4MHeader := by
  rw [← readFrameHeader_header r]
  refine code_header (fun r => ?_) fun _ _ => rfl
  dsimp only
  split
  · rfl
  · refine (code_header (fun _ => rfl) fun _ _ => rfl).trans ?_
    exact finishFrame_header _ _ _

theorem skipFrames_header (n : Nat) (r : Y4MReader) :
    (r.skipFrames n).2.toY4MHeader = r.toY4MHeader := by
  induction n generalizing r with
  | zero => rfl
  | succ n ih =>
    rw [← skipFrame_header r]
    exact code_header ih fun _ _ => rfl

theorem readFrame_header (frame : Int) (r : Y4MReader) :
    (r.readFrame frame).2.toY4MHeader = r.toY4MHeader := by
  have hhead := readFrameHeader_header r
  rw [Y4MReader.readFrame]
  split
  next r₁ heq =>
    rw [heq] at hhead
    dsimp only
    split
    · exact hhead
    · refine (code_header (fun _ => rfl) fun _ _ => rfl).trans ?_
      exact (finishFrame_header _ _ _).trans hhead
  next heq =>
    rw [heq] at hhead
    exact hhead

/-- A call changes where the reader stands, not what the header says. -/
theorem getFrame_header {ms : Int} {r r' : Y4MReader} {o : Y4MReader.Outcome}
    (h : r.getFrame ms = some (o, r')) : r'.toY4MHeader = r.toY4MHeader := by
  rw [Y4MReader.getFrame, Option.map_eq_some_iff] at h
  obtain ⟨frame, -, hcall⟩ := h
  split at hcall
  next =>
    rw [← (Prod.mk.inj hcall).2]
  next =>
    split at hcall
    next =>
      rw [← (Prod.mk.inj hcall).2]
    next =>
      have hskip := skipFrames_header (frame - r.frame).toNat r
      split at hcall
      next r₁ heq =>
        rw [heq] at hskip
        have hread := readFrame_header frame r₁
        rw [hcall] at hread
        exact hread.trans hskip
      next heq =>
        rw [heq] at hskip
        rw [← (Prod.mk.inj hcall).2]
        exact hskip

theorem Later.header {r r' : Y4MReader} (h : Later r r') : r'.toY4MHeader = r.toY4MHeader := by
  induction h with
  | refl => rfl
  | call _ hcall ih => exact (getFrame_header hcall).trans ih

end Y4MSafety
