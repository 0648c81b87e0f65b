import Zakuro.CData
import Zakuro.Loop

/-!
# StartAudioThread

The thread that feeds the `AudioDeviceBuffer`. At each wake-up it turns the time
since the last one into a number of samples. In the Safari and FakeAudio modes it
pushes as many frames of the fake audio into a buffer of its own, which it hands
over whenever 10 ms are full. In the External mode it has a buffer rendered for
every 10 ms.

The loop over the frames counts in an `int`, so it does not end where the number
of samples does not fit. A wake-up so late that the number of samples cannot be
computed in an `int64_t` is undefined, and nothing follows it.
-/

/-- `FakeAudioData`. What makes it counts its samples in an `int`. -/
structure FakeAudioData where
  sampleRate : Int
  channels : Int
  data : List Int16
  rateFits : sampleRate < 2 ^ 31
  dataFits : data.length < 2 ^ 31

/-- `ZakuroAudioDeviceModuleConfig::Type`, where it has an audio thread. A render
function leaves something else in the buffer at each of its calls. -/
inductive AudioSource where
  | fakeAudio : FakeAudioData → AudioSource
  | external : (sampleRate channels : Int) → (render : Nat → List Int16) → AudioSource

/-- The members of the thread that outlive a wake-up, and what the
`AudioDeviceBuffer` has been handed. -/
structure AudioThread where
  index : Nat := 0
  buf : List Int16 := []
  delivered : List (List Int16) := []
  deriving DecidableEq, Repr

namespace AudioThread

open CData

inductive Fault where
  /-- `fake_audio_->data[index]` with an index that is not below the size. -/
  | outOfBounds
  | divisionByZero
  deriving DecidableEq, Repr

/-- `config_.sample_rate * config_.channels * 10 / 1000` -/
def bufSize (sampleRate channels : Int) : Int :=
  (toInt (toInt (sampleRate * channels) * 10)).tdiv 1000

/-- The samples of a wake-up so many nanoseconds after the last one, where the product
of the rate and the milliseconds does not overflow. -/
def sampleCount (sampleRate : Int) (elapsed : Nat) : Option Int :=
  let product := sampleRate * (elapsed / 10 ^ 6 : Nat)
  if toInt64 product = product then some (product.tdiv 1000) else none

/-- What `SetRecordedBuffer` takes: `buf_size / channels` frames. -/
def recorded (size channels : Int) (buf : List Int16) : Except Fault (List Int16) :=
  if channels = 0 then .error .divisionByZero
  else .ok (buf.take (size.tdiv channels * channels).toNat)

section FakeAudio

variable (a : FakeAudioData)

def pushSample (s : AudioThread) : Except Fault AudioThread :=
  match a.data[s.index]? with
  | none => .error .outOfBounds
  | some x => .ok { s with buf := s.buf ++ [x], index := s.index + 1 }

/-- The loop over the channels. -/
def pushSamples : Nat → AudioThread → Except Fault AudioThread
  | 0, s => .ok s
  | n + 1, s =>
    match pushSample a s with
    | .ok t => pushSamples n t
    | .error f => .error f

/-- The buffer is handed over and emptied once it has its size. -/
def deliver (s : AudioThread) : Except Fault AudioThread :=
  let size := bufSize a.sampleRate a.channels
  if toSize size ≤ s.buf.length then
    (recorded size a.channels s.buf).map fun out =>
      { s with delivered := s.delivered ++ [out], buf := [] }
  else .ok s

def wrap (s : AudioThread) : AudioThread :=
  if a.data.length ≤ s.index then { s with index := 0 } else s

/-- One pass of the loop over the frames. -/
def frame (s : AudioThread) : Except Fault AudioThread := do
  let s ← pushSamples a a.channels.toNat s
  let s ← deliver a s
  return wrap a s

/-- The loop over the frames of a wake-up, over its counter and the thread. -/
def framePass (count : Int) (cur : Int × AudioThread) :
    (Int × AudioThread) ⊕ Except Fault AudioThread :=
  if cur.1 < count then
    match frame a cur.2 with
    | .ok t => .inl (toInt (cur.1 + 1), t)
    | .error f => .inr (.error f)
  else .inr (.ok cur.2)

end FakeAudio

/-- The loop of the External mode, over the samples that are left and the thread. -/
def renderPass (size channels : Int) (render : Nat → List Int16) (cur : Int × AudioThread) :
    (Int × AudioThread) ⊕ Except Fault AudioThread :=
  if size ≤ cur.1 then
    let buf := render cur.2.delivered.length
    match recorded size channels buf with
    | .ok out => .inl (cur.1 - size, { cur.2 with buf := buf, delivered := cur.2.delivered ++ [out] })
    | .error f => .inr (.error f)
  else .inr (.ok cur.2)

end AudioThread

namespace AudioSource

open AudioThread

/-- `buf_size`, which `reserve` has to accept. -/
def bufSize : AudioSource → Int
  | fakeAudio a => AudioThread.bufSize a.sampleRate a.channels
  | external sampleRate channels _ => AudioThread.bufSize sampleRate channels

/-- The work of a wake-up ends with the thread as it is then. -/
def Wakes (elapsed : Nat) (s t : AudioThread) : AudioSource → Prop
  | fakeAudio a => ∃ count, sampleCount a.sampleRate elapsed = some count ∧
    Loop.Ends (framePass a count) (0, s) (.ok t)
  | external sampleRate channels render => ∃ count, sampleCount sampleRate elapsed = some count ∧
    Loop.Ends (renderPass (AudioThread.bufSize sampleRate channels) channels render) (count, s) (.ok t)

/-- The thread behind some wake-ups, given by the nanoseconds between them. -/
inductive Runs (src : AudioSource) : List Nat → AudioThread → Prop where
  | start : 0 ≤ src.bufSize → Runs src [] {}
  | wake {ds : List Nat} {s t : AudioThread} (elapsed : Nat) :
    Runs src ds s → src.Wakes elapsed s t → Runs src (ds ++ [elapsed]) t

/-- The thread between two frames of a wake-up that counts so many of them. -/
inductive Amid (a : FakeAudioData) (count i : Int) (t : AudioThread) : Prop where
  | intro {ds : List Nat} {s : AudioThread} {elapsed : Nat} :
    Runs (fakeAudio a) ds s → sampleCount a.sampleRate elapsed = some count →
    Loop.Reach (framePass a count) (0, s) (i, t) → Amid a count i t

end AudioSource
