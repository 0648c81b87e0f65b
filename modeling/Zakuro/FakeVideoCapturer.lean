import Zakuro.FakeVideoTexts
import Zakuro.Generator
import Zakuro.Machine
import Zakuro.Xorshift
import Zakuro.Y4MSampling

/-!
# FakeVideoCapturer

The thread that makes the pictures of the fake video. Each pass of its loop makes
a picture, hands it over, and sleeps. When a pass begins, how long its sleeps
really last, whether the picture can be taken out of the image and whether the
source wants it are for the surroundings to say. Times are in nanoseconds. The
shapes that are drawn and the conversion to I420 are left out.
-/

inductive FakeVideoCapturerConfig.Kind where
  | safari
  | sandstorm
  | y4mFile
  | external
  deriving DecidableEq, Repr

/-- The members of `FakeVideoCapturerConfig`; `type` is its `kind`. -/
structure FakeVideoCapturerConfig where
  width : Int
  height : Int
  fps : Int
  kind : FakeVideoCapturerConfig.Kind := .safari
  deriving DecidableEq, Repr

namespace FakeVideoCapturer

/-- What is in a picture: the texts of it, its pixels row by row, the content of
`y4m_buffer_`, or what `render` draws at a time. -/
inductive Picture where
  | safari (texts : List (List Char))
  | sandstorm (rows : List (List (BitVec 32)))
  | y4m (buffer : List UInt8)
  | external (now : Nat)
  deriving DecidableEq, Repr

/-- A pass of the loop: `captured` is what `OnCapturedFrame` has answered, if it
was called. -/
structure Pass where
  now : Nat
  picture : Picture
  captured : Option Bool
  deriving DecidableEq, Repr

inductive Fault where
  | divisionByZero
  deriving DecidableEq, Repr

end FakeVideoCapturer

open FakeVideoCapturer (Pass) in
structure FakeVideoCapturer where
  startedAt : Nat
  frame : BitVec 32 := 0
  random : Xorshift := {}
  y4mReader : Y4MReader := { file := ⟨[], 0⟩ }
  y4mBuffer : List UInt8 := []
  stopped : Bool := false
  /-- The thread has not returned. -/
  running : Bool := true
  /-- The earliest time at which the sleep of the last pass ends. -/
  wake : Int
  /-- The clock when it was last read. -/
  clock : Nat
  passes : List Pass := []

namespace FakeVideoCapturer

/-! ## UpdateImage -/

/-- `0xff000000 | random_.Get()` -/
def pixel (random : Xorshift) : BitVec 32 × Xorshift := (0xff000000 ||| random.get.1, random.get.2)

/-- The loops over the rows and the columns of a random picture. -/
def sandstorm (width height : Nat) : Xorshift → List (List (BitVec 32)) × Xorshift :=
  Generator.draw (Generator.draw pixel width) height

/-- `duration_cast<std::chrono::milliseconds>(now - started_at_)` -/
def elapsedMs (s : FakeVideoCapturer) (now : Nat) : Nat := (now - s.startedAt) / 1000000

/-- `timestamp_us` -/
def timestampUs (s : FakeVideoCapturer) (now : Nat) : Nat := (now - s.startedAt) / 1000

def updateImage (cfg : FakeVideoCapturerConfig) (now : Nat) (s : FakeVideoCapturer) :
    Picture × FakeVideoCapturer :=
  match cfg.kind with
  | .safari =>
    (.safari (FakeVideoTexts.drawTexts cfg.width cfg.height cfg.fps (s.elapsedMs now) s.frame), s)
  | .sandstorm =>
    let drawn := sandstorm cfg.width.toNat cfg.height.toNat s.random
    (.sandstorm drawn.1, { s with random := drawn.2 })
  | .y4mFile | .external => (.external now, s)

/-! ## The thread -/

/-- The end of a pass, from `OnCapturedFrame` on. -/
def deliver (cfg : FakeVideoCapturerConfig) (now : Nat) (picture : Picture) (captured : Bool)
    (s : FakeVideoCapturer) : Except Fault FakeVideoCapturer :=
  let s : FakeVideoCapturer := { s with passes := s.passes ++ [⟨now, picture, some captured⟩] }
  if captured then
    if cfg.fps = 0 then .error .divisionByZero
    else .ok { s with
      wake := now + ((1000 : Int).tdiv cfg.fps - 2) * 1000000
      frame := s.frame + 1 }
  else .ok { s with wake := now + 1000000 }

/-- A pass with a picture that is drawn. `taken` says whether `get_data` succeeds. -/
def drawnPass (cfg : FakeVideoCapturerConfig) (now : Nat) (taken captured : Bool) (s : FakeVideoCapturer) :
    Except Fault FakeVideoCapturer :=
  let (picture, s) := s.updateImage cfg now
  if taken then s.deliver cfg now picture captured
  else .ok { s with
    wake := now + 16 * 1000000
    passes := s.passes ++ [⟨now, picture, none⟩] }

/-- A pass with a picture of the file. What is read goes to the front of the buffer. -/
def filePass (cfg : FakeVideoCapturerConfig) (now : Nat) (captured : Bool) (s : FakeVideoCapturer) :
    Except Fault FakeVideoCapturer :=
  match s.y4mReader.getFrame (s.elapsedMs now) with
  | none => .error .divisionByZero
  | some (o, r) =>
    let s := { s with y4mReader := r, y4mBuffer := o.data ++ s.y4mBuffer.drop o.data.length }
    if o.code ≠ 0 then .ok { s with running := false }
    else s.deliver cfg now (.y4m s.y4mBuffer) captured

/-- The loop is left before a pass when `stopped_` is set. -/
def pass (cfg : FakeVideoCapturerConfig) (now : Nat) (taken captured : Bool) (s : FakeVideoCapturer) :
    Except Fault FakeVideoCapturer :=
  let s := { s with clock := now }
  if s.stopped then .ok { s with running := false }
  else match cfg.kind with
    | .y4mFile => s.filePass cfg now captured
    | .safari | .sandstorm | .external => s.drawnPass cfg now taken captured

/-- `StartCapture`, and the thread up to its loop. `fontLoaded` says whether
`create_from_data` succeeds, and `content` is that of the file `y4m_path`. -/
def startCapture (cfg : FakeVideoCapturerConfig) (content : List UInt8) (fontLoaded : Bool) (now : Nat) :
    FakeVideoCapturer :=
  let s : FakeVideoCapturer := { startedAt := now, wake := now, clock := now }
  if fontLoaded = false then { s with running := false }
  else match cfg.kind with
    | .y4mFile =>
      let opened := Y4MReader.open content
      { s with y4mReader := opened.2, running := opened.1 == 0 }
    | .safari | .sandstorm | .external => s

inductive Event where
  | pass (now : Nat) (taken captured : Bool)
  /-- `StopCapture` sets `stopped_`. -/
  | stop

def step (cfg : FakeVideoCapturerConfig) (s : FakeVideoCapturer) : Event → Except Fault FakeVideoCapturer
  | .pass now taken captured => s.pass cfg now taken captured
  | .stop => .ok { s with stopped := true }

/-- A pass begins when the sleep of the last one is over, by a clock that does
not go back. -/
def Enabled (s : FakeVideoCapturer) : Event → Prop
  | .pass now _ _ => s.running = true ∧ s.wake ≤ now ∧ s.clock ≤ now
  | .stop => True

instance (s : FakeVideoCapturer) : DecidablePred s.Enabled
  | .pass now _ _ => inferInstanceAs (Decidable (s.running = true ∧ s.wake ≤ now ∧ s.clock ≤ now))
  | .stop => .isTrue trivial

def machine (cfg : FakeVideoCapturerConfig) : Machine FakeVideoCapturer Event Fault where
  enabled := Enabled
  step := step cfg

instance (cfg : FakeVideoCapturerConfig) (s : FakeVideoCapturer) (e : Event) :
    Decidable ((machine cfg).enabled s e) :=
  inferInstanceAs (Decidable (s.Enabled e))

/-! ## What a pass does -/

/-- A picture is made: it is drawn, or it is read from the file. -/
inductive Makes (cfg : FakeVideoCapturerConfig) (now : Nat) (s : FakeVideoCapturer) :
    Picture → FakeVideoCapturer → Prop where
  | drawn (hkind : cfg.kind ≠ .y4mFile) :
    Makes cfg now s (s.updateImage cfg now).1 (s.updateImage cfg now).2
  | read (o : Y4MReader.Outcome) (r : Y4MReader) (hkind : cfg.kind = .y4mFile)
    (hread : s.y4mReader.getFrame (s.elapsedMs now) = some (o, r)) (hcode : o.code = 0) :
    Makes cfg now s (.y4m (o.data ++ s.y4mBuffer.drop o.data.length))
      { s with y4mReader := r, y4mBuffer := o.data ++ s.y4mBuffer.drop o.data.length }

/-- Only what pictures are made of differs. -/
theorem Makes.same {cfg : FakeVideoCapturerConfig} {now : Nat} {s u : FakeVideoCapturer} {picture : Picture}
    (h : Makes cfg now s picture u) :
    u = { s with random := u.random, y4mReader := u.y4mReader, y4mBuffer := u.y4mBuffer } := by
  cases h with
  | drawn hkind =>
    rw [updateImage]
    cases cfg.kind <;> rfl
  | read o r hkind hread hcode => rfl

/-- What each event does. -/
inductive StepCase (cfg : FakeVideoCapturerConfig) (s : FakeVideoCapturer) : Event → FakeVideoCapturer → Prop where
  | stops : StepCase cfg s .stop { s with stopped := true }
  | leaves (now : Nat) (taken captured : Bool) (hstopped : s.stopped = true) :
    StepCase cfg s (.pass now taken captured) { s with clock := now, running := false }
  | fails (now : Nat) (taken captured : Bool) (o : Y4MReader.Outcome) (r : Y4MReader)
    (hkind : cfg.kind = .y4mFile) (hread : s.y4mReader.getFrame (s.elapsedMs now) = some (o, r))
    (hcode : o.code ≠ 0) :
    StepCase cfg s (.pass now taken captured)
      { s with
        clock := now
        y4mReader := r
        y4mBuffer := o.data ++ s.y4mBuffer.drop o.data.length
        running := false }
  | drops (now : Nat) (captured : Bool) (picture : Picture) (u : FakeVideoCapturer)
    (hmakes : Makes cfg now { s with clock := now } picture u) :
    StepCase cfg s (.pass now false captured)
      { u with wake := now + 16 * 1000000, passes := u.passes ++ [⟨now, picture, none⟩] }
  | refused (now : Nat) (taken : Bool) (picture : Picture) (u : FakeVideoCapturer)
    (hmakes : Makes cfg now { s with clock := now } picture u) :
    StepCase cfg s (.pass now taken false)
      { u with wake := now + 1000000, passes := u.passes ++ [⟨now, picture, some false⟩] }
  | captures (now : Nat) (taken : Bool) (picture : Picture) (u : FakeVideoCapturer) (hfps : cfg.fps ≠ 0)
    (hmakes : Makes cfg now { s with clock := now } picture u) :
    StepCase cfg s (.pass now taken true)
      { u with
        wake := now + ((1000 : Int).tdiv cfg.fps - 2) * 1000000
        frame := u.frame + 1
        passes := u.passes ++ [⟨now, picture, some true⟩] }

theorem deliver_cases {cfg : FakeVideoCapturerConfig} {now : Nat} {picture : Picture} {taken captured : Bool}
    {s u t : FakeVideoCapturer} (hmakes : Makes cfg now { s with clock := now } picture u)
    (h : u.deliver cfg now picture captured = .ok t) : StepCase cfg s (.pass now taken captured) t := by
  rw [deliver] at h
  cases captured with
  | false =>
    obtain rfl := Except.ok.inj h
    exact .refused now taken picture u hmakes
  | true =>
    rw [if_pos rfl] at h
    split at h
    next => cases h
    next hfps =>
      obtain rfl := Except.ok.inj h
      exact .captures now taken picture u hfps hmakes

theorem drawnPass_cases {cfg : FakeVideoCapturerConfig} {now : Nat} {taken captured : Bool}
    {s t : FakeVideoCapturer} (hkind : cfg.kind ≠ .y4mFile)
    (h : drawnPass cfg now taken captured { s with clock := now } = .ok t) :
    StepCase cfg s (.pass now taken captured) t := by
  rw [drawnPass] at h
  dsimp only at h
  cases taken with
  | false =>
    rw [if_neg Bool.false_ne_true] at h
    obtain rfl := Except.ok.inj h
    exact .drops now captured _ _ (.drawn hkind)
  | true =>
    rw [if_pos rfl] at h
    exact deliver_cases (.drawn hkind) h

theorem filePass_cases {cfg : FakeVideoCapturerConfig} {now : Nat} {taken captured : Bool}
    {s t : FakeVideoCapturer} (hkind : cfg.kind = .y4mFile)
    (h : filePass cfg now captured { s with clock := now } = .ok t) :
    StepCase cfg s (.pass now taken captured) t := by
  rw [filePass] at h
  split at h
  next => cases h
  next o r hread =>
    dsimp only at h
    split at h
    next hcode =>
      obtain rfl := Except.ok.inj h
      exact .fails now taken captured o r hkind hread hcode
    next hcode => exact deliver_cases (.read o r hkind hread (by simpa using hcode)) h

theorem step_cases {cfg : FakeVideoCapturerConfig} {s t : FakeVideoCapturer} {e : Event}
    (h : step cfg s e = .ok t) : StepCase cfg s e t := by
  cases e with
  | stop =>
    obtain rfl := Except.ok.inj h
    exact .stops
  | pass now taken captured =>
    rw [step, pass] at h
    dsimp only at h
    split at h
    next hstopped =>
      obtain rfl := Except.ok.inj h
      exact .leaves now taken captured hstopped
    next =>
      cases hkind : cfg.kind with
      | y4mFile => exact filePass_cases hkind (by simpa only [hkind] using h)
      | safari => exact drawnPass_cases (by simp [hkind]) (by simpa only [hkind] using h)
      | sandstorm => exact drawnPass_cases (by simp [hkind]) (by simpa only [hkind] using h)
      | external => exact drawnPass_cases (by simp [hkind]) (by simpa only [hkind] using h)

end FakeVideoCapturer
