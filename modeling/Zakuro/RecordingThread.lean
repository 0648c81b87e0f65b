import Zakuro.Machine

/-!
# The recording thread

`ZakuroAudioDeviceModule` without an inner ADM, statement by statement. A call
puts its statements on the list of those that its caller has yet to execute, and
the next call begins when the list is empty. In between the statements come those
of the audio thread, whose iterations deliver as often as they like.
-/

/-- `ZakuroAudioDeviceModuleConfig::Type` -/
inductive AdmType where
  | adm
  | safari
  | fakeAudio
  | external
  deriving DecidableEq, Repr

namespace AudioDeviceModule

/-- What a caller executes at once. -/
inductive Statement where
  /-- `device_buffer_ = std::make_unique<..>(env_)` -/
  | makeBuffer
  /-- `device_buffer_.reset()` -/
  | resetBuffer
  | initialized (value : Bool)
  | recording (value : Bool)
  | microphoneInitialized (value : Bool)
  | recordingInitialized (value : Bool)
  | setRecordingSampleRate
  | setRecordingChannels
  /-- `if (audio_thread_)`, with what is to be done then -/
  | ifThread
  | threadStopped (value : Bool)
  | join
  /-- `audio_thread_.reset()` -/
  | resetThread
  /-- `audio_thread_.reset(new std::thread(..))` -/
  | newThread
  deriving DecidableEq, Repr

/-- Where the audio thread is. -/
inductive Place where
  /-- before the test of `while (!audio_thread_stopped_)` -/
  | loop
  /-- in an iteration, where it may deliver next -/
  | body
  /-- between `SetRecordedBuffer` and `DeliverRecordedData` -/
  | recorded
  | returned
  /-- after `join`, no longer a thread -/
  | joined
  deriving DecidableEq, Repr

/-- The calls, and the destruction. -/
inductive Call where
  | init
  | initRecording
  | startRecording
  | stopRecording
  | terminate
  | destroy
  deriving DecidableEq, Repr

/-- The statements of the audio thread. -/
inductive ThreadStep where
  | test
  | setRecordedBuffer
  | deliverRecordedData
  /-- the end of an iteration -/
  | again
  deriving DecidableEq, Repr

inductive Fault where
  /-- a member function is called on a null `device_buffer_` -/
  | released
  /-- a `std::thread` is destroyed that could be joined -/
  | joinable
  deriving DecidableEq, Repr

inductive Event where
  | call (c : Call)
  /-- the next statement of the call that is going on -/
  | statement
  | thread (t : ThreadStep)
  deriving DecidableEq, Repr

end AudioDeviceModule

open AudioDeviceModule in
structure AudioDeviceModule where
  type : AdmType
  /-- `device_buffer_` is not null. -/
  deviceBuffer : Bool := false
  audioThread : Option Place := none
  audioThreadStopped : Bool := false
  initialized : Bool := false
  isRecording : Bool := false
  microphoneInitialized : Bool := false
  recordingInitialized : Bool := false
  todo : List Statement := []
  destroyed : Bool := false
  deriving DecidableEq, Repr

namespace AudioDeviceModule

/-! ## The calls -/

/-- The types for which `StartAudioThread` does not return at once. -/
def threaded : AdmType → Bool
  | .adm => false
  | .safari | .fakeAudio | .external => true

def stopAudioThread : List Statement := [.ifThread]

/-- The block of `StopAudioThread`. -/
def stopping : List Statement :=
  [.threadStopped true, .join, .resetThread, .threadStopped false]

def startAudioThread (type : AdmType) : List Statement :=
  if threaded type then stopAudioThread ++ [.newThread] else []

def terminate : List Statement :=
  [.initialized false, .recording false, .microphoneInitialized false, .recordingInitialized false,
    .resetBuffer] ++ stopAudioThread

def Call.statements (type : AdmType) : Call → List Statement
  | .init => [.makeBuffer, .initialized true]
  | .initRecording =>
    .recordingInitialized true ::
      if threaded type then [.setRecordingSampleRate, .setRecordingChannels] else []
  | .startRecording => startAudioThread type ++ [.recording true]
  | .stopRecording => stopAudioThread ++ [.recording false]
  | .terminate => AudioDeviceModule.terminate
  | .destroy => AudioDeviceModule.terminate

/-! ## Statements -/

/-- A call of the `AudioDeviceBuffer`. -/
def onBuffer (m : AudioDeviceModule) : Except Fault AudioDeviceModule :=
  if m.deviceBuffer then .ok m else .error .released

/-- `audio_thread_.reset(..)` destroys the thread that is there. -/
def replaceThread (m : AudioDeviceModule) (thread : Option Place) : Except Fault AudioDeviceModule :=
  match m.audioThread with
  | none | some .joined => .ok { m with audioThread := thread }
  | some _ => .error .joinable

/-- The caller executes a statement that it has taken from its list. -/
def execute (m : AudioDeviceModule) : Statement → Except Fault AudioDeviceModule
  | .makeBuffer => .ok { m with deviceBuffer := true }
  | .resetBuffer => .ok { m with deviceBuffer := false }
  | .initialized value => .ok { m with initialized := value }
  | .recording value => .ok { m with isRecording := value }
  | .microphoneInitialized value => .ok { m with microphoneInitialized := value }
  | .recordingInitialized value => .ok { m with recordingInitialized := value }
  | .setRecordingSampleRate | .setRecordingChannels => m.onBuffer
  | .ifThread => .ok (if m.audioThread.isSome then { m with todo := stopping ++ m.todo } else m)
  | .threadStopped value => .ok { m with audioThreadStopped := value }
  | .join => .ok { m with audioThread := m.audioThread.map fun _ => .joined }
  | .resetThread => m.replaceThread none
  | .newThread => m.replaceThread (some .loop)

def threadStep (m : AudioDeviceModule) : ThreadStep → Except Fault AudioDeviceModule
  | .test => .ok { m with audioThread := some (if m.audioThreadStopped then .returned else .body) }
  | .setRecordedBuffer => m.onBuffer.map fun m => { m with audioThread := some .recorded }
  | .deliverRecordedData => m.onBuffer.map fun m => { m with audioThread := some .body }
  | .again => .ok { m with audioThread := some .loop }

def ThreadStep.place : ThreadStep → Place
  | .test => .loop
  | .setRecordedBuffer | .again => .body
  | .deliverRecordedData => .recorded

/-- `join` waits until the thread has returned. -/
def Ready (m : AudioDeviceModule) : Statement → Prop
  | .join => m.audioThread = some .returned
  | _ => True

def Enabled (m : AudioDeviceModule) : Event → Prop
  | .call _ => m.todo = [] ∧ m.destroyed = false
  | .statement =>
    match m.todo with
    | [] => False
    | st :: _ => m.Ready st
  | .thread t => m.audioThread = some t.place

def step (m : AudioDeviceModule) : Event → Except Fault AudioDeviceModule
  | .call c => .ok { m with todo := c.statements m.type, destroyed := c = .destroy }
  | .statement =>
    match m.todo with
    | [] => .ok m
    | st :: rest => { m with todo := rest }.execute st
  | .thread t => m.threadStep t

def machine : Machine AudioDeviceModule Event Fault where
  enabled := Enabled
  step := step

instance (m : AudioDeviceModule) : DecidablePred m.Ready
  | .join => inferInstanceAs (Decidable (m.audioThread = some .returned))
  | .makeBuffer | .resetBuffer | .initialized _ | .recording _ | .microphoneInitialized _
  | .recordingInitialized _ | .setRecordingSampleRate | .setRecordingChannels | .ifThread
  | .threadStopped _ | .resetThread | .newThread => .isTrue trivial

instance (m : AudioDeviceModule) (e : Event) : Decidable (machine.enabled m e) :=
  match e with
  | .call _ => inferInstanceAs (Decidable (m.todo = [] ∧ m.destroyed = false))
  | .thread t => inferInstanceAs (Decidable (m.audioThread = some t.place))
  | .statement =>
    match h : m.todo with
    | [] => .isFalse (by simp [machine, Enabled, h])
    | st :: _ => decidable_of_iff (m.Ready st) (by simp [machine, Enabled, h])

/-! ## What must not happen -/

/-- The audio thread has begun and not returned. -/
def Running (m : AudioDeviceModule) : Prop :=
  ∃ place, m.audioThread = some place ∧ place ≠ .returned ∧ place ≠ .joined

/-- A module that has just been made. -/
def create (type : AdmType) : AudioDeviceModule := { type := type }

/-- The calls that the order of the statements of `Terminate` allows for: it is
called without a recording thread, and recording starts with a buffer. -/
def Careful (m : AudioDeviceModule) : Event → Prop
  | .call .terminate | .call .destroy => m.audioThread = none
  | .call .startRecording => threaded m.type = true → m.deviceBuffer = true
  | _ => True

instance (m : AudioDeviceModule) : DecidablePred m.Careful
  | .call .terminate | .call .destroy => inferInstanceAs (Decidable (m.audioThread = none))
  | .call .startRecording => inferInstanceAs (Decidable (threaded m.type = true → m.deviceBuffer = true))
  | .call .init | .call .initRecording | .call .stopRecording | .statement | .thread _ => .isTrue trivial

/-- Between any two statements: whatever the thread still needs is there. -/
structure Buffered (m : AudioDeviceModule) : Prop where
  running : m.Running → m.deviceBuffer = true
  resetBuffer : .resetBuffer ∈ m.todo → m.audioThread = none ∧ .newThread ∉ m.todo
  newThread : .newThread ∈ m.todo → m.deviceBuffer = true

theorem create_buffered (type : AdmType) : Buffered (create type) := by
  refine ⟨?_, by simp [create], by simp [create]⟩
  rintro ⟨place, hplace, -⟩
  cases hplace

/-! ## The calls keep it -/

theorem resetBuffer_mem_statements {type : AdmType} {c : Call} (h : .resetBuffer ∈ c.statements type) :
    (c = .terminate ∨ c = .destroy) ∧ .newThread ∉ c.statements type := by
  cases c with
  | terminate => exact ⟨.inl rfl, by simp [Call.statements, terminate, stopAudioThread]⟩
  | destroy => exact ⟨.inr rfl, by simp [Call.statements, terminate, stopAudioThread]⟩
  | startRecording =>
    cases ht : threaded type <;> simp [Call.statements, startAudioThread, stopAudioThread, ht] at h
  | initRecording => cases ht : threaded type <;> simp [Call.statements, ht] at h
  | _ => simp [Call.statements, stopAudioThread] at h

theorem newThread_mem_statements {type : AdmType} {c : Call} (h : .newThread ∈ c.statements type) :
    c = .startRecording ∧ threaded type = true := by
  cases c with
  | startRecording =>
    cases ht : threaded type with
    | true => exact ⟨rfl, rfl⟩
    | false => simp [Call.statements, startAudioThread, ht] at h
  | initRecording => cases ht : threaded type <;> simp [Call.statements, ht] at h
  | _ => simp [Call.statements, terminate, stopAudioThread] at h

theorem Buffered.call {m : AudioDeviceModule} (h : Buffered m) {c : Call} (hc : m.Careful (.call c)) :
    Buffered { m with todo := c.statements m.type, destroyed := c = .destroy } := by
  refine ⟨h.running, fun hreset => ?_, fun hnew => ?_⟩
  · obtain ⟨rfl | rfl, hno⟩ := resetBuffer_mem_statements hreset
    · exact ⟨hc, hno⟩
    · exact ⟨hc, hno⟩
  · obtain ⟨rfl, ht⟩ := newThread_mem_statements hnew
    exact hc ht

/-- A step that leaves the buffer and the list alone and gets no thread going. -/
theorem Buffered.keep {m m' : AudioDeviceModule} (h : Buffered m) (htodo : m'.todo = m.todo)
    (hbuffer : m'.deviceBuffer = m.deviceBuffer) (hrunning : m'.Running → m.Running)
    (hnone : m.audioThread = none → m'.audioThread = none) : Buffered m' := by
  refine ⟨fun hr => hbuffer.trans (h.running (hrunning hr)), fun hreset => ?_, fun hnew => ?_⟩
  · rw [htodo] at hreset ⊢
    exact (h.resetBuffer hreset).imp hnone id
  · rw [htodo] at hnew
    exact hbuffer.trans (h.newThread hnew)

theorem Buffered.taken {m : AudioDeviceModule} (h : Buffered m) {st : Statement} {rest : List Statement}
    (htodo : m.todo = st :: rest) : Buffered { m with todo := rest } := by
  refine ⟨h.running, fun hreset => ?_, fun hnew => ?_⟩
  · obtain ⟨hnone, hno⟩ := h.resetBuffer (htodo ▸ List.mem_cons_of_mem st hreset)
    exact ⟨hnone, fun hnew => hno (htodo ▸ List.mem_cons_of_mem st hnew)⟩
  · exact h.newThread (htodo ▸ List.mem_cons_of_mem st hnew)

theorem replaceThread_eq {m m' : AudioDeviceModule} {thread : Option Place}
    (h : m.replaceThread thread = .ok m') : m' = { m with audioThread := thread } := by
  rw [replaceThread] at h
  split at h
  · exact (Except.ok.inj h).symm
  · exact (Except.ok.inj h).symm
  · cases h

theorem onBuffer_eq {m m' : AudioDeviceModule} (h : m.onBuffer = .ok m') : m' = m := by
  rw [onBuffer] at h
  split at h
  · exact (Except.ok.inj h).symm
  · cases h

theorem not_running_none {m : AudioDeviceModule} (h : m.audioThread = none) : ¬ m.Running := by
  rintro ⟨place, hplace, -⟩
  rw [h] at hplace
  cases hplace

/-- A statement of a call, taken from the list. -/
theorem Buffered.execute {m m' : AudioDeviceModule} (h : Buffered m) {st : Statement}
    (hreset : st = .resetBuffer → m.audioThread = none ∧ .newThread ∉ m.todo)
    (hnew : st = .newThread → m.deviceBuffer = true ∧ .resetBuffer ∉ m.todo)
    (hs : m.execute st = .ok m') : Buffered m' := by
  cases st with
  | makeBuffer =>
    obtain rfl := Except.ok.inj hs
    exact ⟨fun _ => rfl, h.resetBuffer, fun _ => rfl⟩
  | resetBuffer =>
    obtain ⟨hnone, hno⟩ := hreset rfl
    obtain rfl := Except.ok.inj hs
    exact ⟨fun hr => absurd hr (not_running_none hnone), h.resetBuffer, fun hmem => absurd hmem hno⟩
  | ifThread =>
    obtain rfl := Except.ok.inj hs
    split
    next hsome =>
      refine ⟨h.running, fun hmem => ?_, fun hmem => ?_⟩
      · have hmem : .resetBuffer ∈ m.todo := by simpa [stopping] using hmem
        rw [(h.resetBuffer hmem).1] at hsome
        cases hsome
      · exact h.newThread (by simpa [stopping] using hmem)
    next => exact h
  | join =>
    obtain rfl := Except.ok.inj hs
    refine h.keep rfl rfl ?_ fun hnone => congrArg (Option.map fun _ => Place.joined) hnone
    rintro ⟨place, hplace, -, hjoined⟩
    obtain ⟨_, -, rfl⟩ := Option.map_eq_some_iff.mp hplace
    exact absurd rfl hjoined
  | resetThread =>
    obtain rfl := replaceThread_eq hs
    exact h.keep rfl rfl (fun hr => absurd hr (not_running_none rfl)) fun _ => rfl
  | newThread =>
    obtain ⟨hbuffer, hno⟩ := hnew rfl
    obtain rfl := replaceThread_eq hs
    exact ⟨fun _ => hbuffer, fun hmem => absurd hmem hno, fun _ => hbuffer⟩
  | setRecordingSampleRate =>
    obtain rfl := onBuffer_eq hs
    exact h
  | setRecordingChannels =>
    obtain rfl := onBuffer_eq hs
    exact h
  | _ =>
    obtain rfl := Except.ok.inj hs
    exact h.keep rfl rfl id id

theorem running_of_place {m : AudioDeviceModule} {t : ThreadStep} (h : m.audioThread = some t.place) :
    m.Running := ⟨t.place, h, by cases t <;> decide, by cases t <;> decide⟩

/-- The thread is only ever one that was running. -/
theorem Buffered.threadStep {m m' : AudioDeviceModule} (h : Buffered m) {t : ThreadStep}
    (he : m.audioThread = some t.place) (hs : m.threadStep t = .ok m') : Buffered m' := by
  have hrunning := running_of_place he
  have hnone : m.audioThread ≠ none := by simp [he]
  have hkeep : ∀ place, Buffered { m with audioThread := some place } := fun place =>
    h.keep rfl rfl (fun _ => hrunning) fun hn => absurd hn hnone
  cases t with
  | test =>
    obtain rfl := Except.ok.inj hs
    exact hkeep _
  | again =>
    obtain rfl := Except.ok.inj hs
    exact hkeep _
  | setRecordedBuffer =>
    obtain ⟨m₁, hm₁, rfl⟩ := Machine.map_eq_ok hs
    obtain rfl := onBuffer_eq hm₁
    exact hkeep _
  | deliverRecordedData =>
    obtain ⟨m₁, hm₁, rfl⟩ := Machine.map_eq_ok hs
    obtain rfl := onBuffer_eq hm₁
    exact hkeep _

theorem step_buffered {m m' : AudioDeviceModule} {e : Event} (h : Buffered m) (he : m.Enabled e)
    (hc : m.Careful e) (hs : m.step e = .ok m') : Buffered m' := by
  cases e with
  | call c =>
    obtain rfl := Except.ok.inj hs
    exact h.call hc
  | thread t => exact h.threadStep he hs
  | statement =>
    cases htodo : m.todo with
    | nil =>
      rw [Enabled, htodo] at he
      exact he.elim
    | cons st rest =>
      rw [step, htodo] at hs
      refine (h.taken htodo).execute ?_ ?_ hs
      · rintro rfl
        obtain ⟨hnone, hno⟩ := h.resetBuffer (htodo ▸ List.mem_cons_self)
        exact ⟨hnone, fun hmem => hno (htodo ▸ List.mem_cons_of_mem _ hmem)⟩
      · rintro rfl
        refine ⟨h.newThread (htodo ▸ List.mem_cons_self), fun hmem => ?_⟩
        exact (h.resetBuffer (htodo ▸ List.mem_cons_of_mem _ hmem)).2 (htodo ▸ List.mem_cons_self)

theorem run_buffered {type : AdmType} {m : AudioDeviceModule} {es : List Event}
    (h : Machine.Run (machine.restrict Careful) (create type) es m) : Buffered m := by
  refine h.invariant (I := Buffered) ?_ (create_buffered type)
  rintro m e m' hm ⟨he, hc⟩ hs
  exact step_buffered hm he hc hs

/-- If it is never terminated while it records, a module has its buffer whenever
the thread runs, and the thread never calls a buffer that is gone. -/
theorem recording_thread_buffer {type : AdmType} {m : AudioDeviceModule} {es : List Event}
    (h : Machine.Run (machine.restrict Careful) (create type) es m) :
    (m.Running → m.deviceBuffer = true) ∧
      ∀ t, machine.enabled m (.thread t) → machine.step m (.thread t) ≠ .error .released := by
  have hm := run_buffered h
  refine ⟨hm.running, fun t he hs => ?_⟩
  have hbuffer : m.deviceBuffer = true := hm.running (running_of_place he)
  have hfault : m.threadStep t = .error .released := hs
  have honBuffer : m.onBuffer = .ok m := if_pos hbuffer
  cases t with
  | test => cases hfault
  | again => cases hfault
  | setRecordedBuffer =>
    rw [threadStep, honBuffer] at hfault
    cases hfault
  | deliverRecordedData =>
    rw [threadStep, honBuffer] at hfault
    cases hfault

/-- A recording that delivers, is stopped, and whose module is then terminated. -/
def stoppedEvents : List Event :=
  [.call .init, .statement, .statement, .call .initRecording, .statement, .statement, .statement,
    .call .startRecording, .statement, .statement, .statement, .thread .test, .thread .setRecordedBuffer,
    .call .stopRecording, .statement, .thread .deliverRecordedData, .statement, .thread .again,
    .thread .test, .statement, .statement, .statement, .statement, .call .terminate]

theorem recording_thread_buffer_stopped :
    ∃ m, Machine.Run (machine.restrict Careful) (create .external) stoppedEvents m ∧
      m.audioThread = none ∧ (m.Running → m.deviceBuffer = true) := by
  obtain ⟨m, hm, hnone⟩ := Machine.exec_exists (machine.restrict Careful) (create .external) stoppedEvents
    (fun m => m.audioThread = none) (by decide +kernel)
  exact ⟨m, hm, by simpa using hnone, (recording_thread_buffer hm).1⟩

/-- `Init` comes before `StartRecording`. -/
def InitFirst (es : List Event) : Prop :=
  ∀ fs gs, es = fs ++ .call .startRecording :: gs → .call .init ∈ fs

/-- `Terminate` releases the buffer before it stops the thread. -/
def terminatedEvents : List Event :=
  [.call .init, .statement, .statement, .call .startRecording, .statement, .statement, .statement,
    .thread .test, .call .terminate, .statement, .statement, .statement, .statement, .statement]

theorem recording_thread_terminated : ¬ ∀ (type : AdmType) (es : List Event) (m : AudioDeviceModule),
    InitFirst es → Machine.Run machine (create type) es m → m.Running → m.deviceBuffer = true := by
  intro h
  obtain ⟨m, hm, hstate⟩ := Machine.exec_exists machine (create .fakeAudio) terminatedEvents
    (fun m => m.audioThread = some .body ∧ m.deviceBuffer = false) (by decide +kernel)
  obtain ⟨hbody, hbuffer⟩ : m.audioThread = some .body ∧ m.deviceBuffer = false := by simpa using hstate
  have hfirst : InitFirst terminatedEvents := by
    intro fs gs hes
    cases fs with
    | nil => cases (List.cons.inj hes).1
    | cons f fs =>
      obtain ⟨rfl, -⟩ := List.cons.inj hes
      exact List.mem_cons_self
  have htrue := h _ _ m hfirst hm ⟨.body, hbody, by decide, by decide⟩
  rw [hbuffer] at htrue
  cases htrue

end AudioDeviceModule
