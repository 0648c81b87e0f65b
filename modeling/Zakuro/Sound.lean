import Zakuro.VoiceNumberReader
import Zakuro.ZakuroRun

/-!
# The sound of an instance

The event loop of an instance beside the thread that renders from its audio
buffer. `Zakuro::Run` adds a single buffer and gives its render function to all
clients, while `OP_PLAY_VOICE_NUMBER_CLIENT` plays into the buffer with the number
of the client. Only the client with the number 0 has one.
-/

namespace World

open ScenarioPlayer

variable {n : Nat}

/-- The buffer that the audio source of the instance renders. -/
def renderSlot : Nat := (GameAudioManager.addGameAudio []).2

theorem audios_external {cfg : ZakuroConfig} (hfake : cfg.fakeAudioCapture = false)
    (hdevice : cfg.noAudioDevice = false) :
    cfg.audios = some (GameAudioManager.addGameAudio []).1 := by
  simp [ZakuroConfig.audios, hfake, hdevice, GameAudioManager.addGameAudio]

/-! ## The event loop and the audio thread -/

/-- An event of the event loop, or a call of `Render` by the audio thread. -/
inductive SoundEvent (n : Nat) where
  | world (e : Event n)
  | render (size : Nat)

def source (w : World n) : Option GameAudio := w.gam.bind fun audios => audios[renderSlot]?

def render (w : World n) (size : Nat) : World n :=
  { w with gam := w.gam.map fun audios => audios.modify renderSlot fun audio => (GameAudio.render audio size).2 }

/-- What a call of `Render` gives. -/
def samples (w : World n) : SoundEvent n → List Int16
  | .world _ => []
  | .render size => w.source.elim [] fun audio => (GameAudio.render audio size).1

def sound (env : Env) : Machine (World n) (SoundEvent n) Fault where
  enabled w
    | .world e => (machine env).enabled w e
    | .render _ => w.source.isSome = true
  step w
    | .world e => step env w e
    | .render size => .ok (w.render size)

instance (env : Env) (w : World n) (e : SoundEvent n) : Decidable ((sound env).enabled w e) :=
  match e with
  | .world e => inferInstanceAs (Decidable ((machine env).enabled w e))
  | .render _ => inferInstanceAs (Decidable (w.source.isSome = true))

/-! ## Who plays -/

theorem onExit_gam (w : World n) (k : PlayerPath × Fin n) : (w.onExit k).gam = w.gam := by
  rw [onExit]
  split <;> rfl

theorem client_gam {env : Env} {i : Fin n} {e : VirtualClient.Event (PlayerPath × Fin n)}
    {w w' : World n} (h : w.client env i e = .ok w') : w'.gam = w.gam :=
  client_rel (fun w w' => w'.gam = w.gam) (fun h h' => h'.trans h) (fun _ _ => rfl) onExit_gam h

/-- Only one operation plays into a buffer. -/
theorem operate_gam {env : Env} {p : PlayerPath} {i : Fin n} {d : Draw} {op : Op} {w w' : World n}
    (h : w.operate env p i d op = .ok w') (hop : op ≠ .playVoiceNumberClient) : w'.gam = w.gam := by
  cases op with
  | playVoiceNumberClient => exact absurd rfl hop
  | sleep minTimeMs maxTimeMs =>
    rw [operate] at h
    split at h
    next => cases h
    next ms _ =>
      obtain rfl := Except.ok.inj h
      rfl
  | playSubScenario name data l =>
    obtain rfl := Except.ok.inj h
    rw [play_client]
    rfl
  | sendDataChannelMessage label minSize maxSize =>
    rw [operate, sendMessage] at h
    split at h
    next => cases h
    next data _ =>
      obtain ⟨v, hv, rfl⟩ := Machine.map_eq_ok h
      have hgam : v.gam = w.gam := client_gam hv
      exact hgam
  | disconnect => exact client_gam h
  | reconnect =>
    have hconnect : w.client env i .connect = .ok w' := h
    exact client_gam hconnect
  | exit => exact client_gam h

/-- The event executes `OP_PLAY_VOICE_NUMBER_CLIENT`. -/
def PlaysAudio (w : World n) : Event n → Prop
  | .onNext p i _ => (w.info p i).current = some .playVoiceNumberClient
  | _ => False

theorem step_gam {env : Env} {w w' : World n} {e : Event n} (h : step env w e = .ok w')
    (he : ¬ w.PlaysAudio e) : w'.gam = w.gam := by
  cases e with
  | onNext p i d =>
    obtain ⟨op, v, hop, hv, rfl⟩ := onNext_operates h
    have hne : op ≠ .playVoiceNumberClient := by
      rintro rfl
      exact he hop
    have hgam : v.gam = (w.begun p i op).gam := operate_gam hv hne
    split <;> exact hgam
  | play clientId data l =>
    obtain rfl := Except.ok.inj h
    rw [play]
    split <;> rfl
  | keyClose i => exact client_gam h
  | keyConnect i =>
    have hconnect : w.client env i .connect = .ok w' := h
    exact client_gam hconnect
  | client i e => exact client_gam h
  | _ =>
    obtain rfl := Except.ok.inj h
    rfl

theorem step_playsAudio {env : Env} {w w' : World n} {p : PlayerPath} {i : Fin n} {d : Draw}
    (h : step env w (.onNext p i d) = .ok w')
    (hop : (w.info p i).current = some .playVoiceNumberClient) :
    ∃ audios, w.gam = some audios ∧
      w'.gam = some (GameAudioManager.play audios i.val (env.voice (i.val + 1))) := by
  obtain ⟨op, v, hop', hv, rfl⟩ := onNext_operates h
  obtain rfl := Option.some.inj (hop'.symm.trans hop)
  rw [operate] at hv
  split at hv
  next => cases hv
  next audios hgam =>
    obtain rfl := Except.ok.inj hv
    exact ⟨audios, hgam, rfl⟩

/-! ## One source -/

/-- The instance has the buffer of its audio source and no other. -/
def OneSource (w : World n) : Prop := ∃ audio, w.gam = some [audio]

theorem foldl_play_gam (cfg : ZakuroConfig) (is : List (Fin n)) (w : World n) :
    (is.foldl (playClient cfg) w).gam = w.gam := by
  induction is generalizing w with
  | nil => rfl
  | cons i is ih =>
    rw [List.foldl_cons, ih, playClient, play_client]
    rfl

theorem run_oneSource {cfg : ZakuroConfig} (hfake : cfg.fakeAudioCapture = false)
    (hdevice : cfg.noAudioDevice = false) : OneSource (run n cfg) :=
  ⟨[], (foldl_play_gam cfg _ _).trans (audios_external hfake hdevice)⟩

/-- `Play` finds the buffer of the client 0, and no other. -/
theorem play_single (audio : GameAudio) (i : Nat) (buf : List Int16) :
    GameAudioManager.play [audio] i buf = if i = 0 then [buf] else [audio] := by
  rw [GameAudioManager.play]
  cases i with
  | zero => rfl
  | succ i =>
    have hbeyond : ((i + 1 : Nat) : Int) ≥ ([audio].length : Int) := by
      rw [List.length_singleton]
      omega
    rw [if_pos (.inr hbeyond), if_neg (Nat.succ_ne_zero i)]

theorem render_single {w : World n} {audio : GameAudio} (h : w.gam = some [audio]) (size : Nat) :
    (w.render size).gam = some [audio.drop size] := by
  have hleft : (GameAudio.render audio size).2 = audio.drop size :=
    congrArg Prod.snd (GameAudio.render_eq audio size)
  rw [render, h, ← hleft]
  rfl

theorem samples_single {w : World n} {audio : GameAudio} (h : w.gam = some [audio]) (size : Nat) :
    w.samples (.render size) = GameAudio.heard audio size := by
  have hrendered : (GameAudio.render audio size).1 = GameAudio.heard audio size :=
    congrArg Prod.fst (GameAudio.render_eq audio size)
  rw [samples, source, h, ← hrendered]
  rfl

/-- The buffer is played into by the first client, and rendered from. -/
theorem sound_single {env : Env} {w w' : World n} {e : SoundEvent n} {audio : GameAudio}
    (hgam : w.gam = some [audio]) (hs : (sound env).step w e = .ok w') :
    w'.gam = some [env.voice 1] ∨ ∃ k, w'.gam = some [audio.drop k] := by
  cases e with
  | render size =>
    obtain rfl := Except.ok.inj hs
    exact .inr ⟨size, render_single hgam size⟩
  | world e =>
    have hs : step env w e = .ok w' := hs
    by_cases he : w.PlaysAudio e
    · cases e with
      | onNext p i d =>
        obtain ⟨audios, hgam', hplayed⟩ := step_playsAudio hs he
        obtain rfl := Option.some.inj (hgam.symm.trans hgam')
        rw [play_single] at hplayed
        split at hplayed
        next hi =>
          rw [hi] at hplayed
          exact .inl hplayed
        next => exact .inr ⟨0, hplayed⟩
      | _ => exact he.elim
    · exact .inr ⟨0, (step_gam hs he).trans hgam⟩

theorem sound_oneSource {env : Env} {w w' : World n} {e : SoundEvent n} (h : OneSource w)
    (hs : (sound env).step w e = .ok w') : OneSource w' := by
  obtain ⟨audio, hgam⟩ := h
  rcases sound_single hgam hs with hgam' | ⟨k, hgam'⟩
  · exact ⟨_, hgam'⟩
  · exact ⟨_, hgam'⟩

theorem runs_oneSource {env : Env} {cfg : ZakuroConfig} (hfake : cfg.fakeAudioCapture = false)
    (hdevice : cfg.noAudioDevice = false) {w : World n} {es : List (SoundEvent n)}
    (h : Machine.Run (sound env) (run n cfg) es w) : OneSource w :=
  h.invariant (I := OneSource) (fun _ _ _ hI _ hs => sound_oneSource hI hs) (run_oneSource hfake hdevice)

/-! ## The recordings -/

open VoiceNumberReader (resourceFiles spoken Recorded)

/-- The clips of an instance are what `Read` gives for the numbers. -/
def Voiced (content : VoiceResource → Buffer) (env : Env) : Prop :=
  ∀ number, ∃ fuel, ∀ fuel', fuel ≤ fuel' →
    VoiceNumberReader.read content fuel' number = some (.ok (env.voice number))

theorem Voiced.voice {content : VoiceResource → Buffer} {files : VoiceResource → WavReader.WavFile}
    {env : Env} (hvoiced : Voiced content env) (h : ∀ r ∈ resourceFiles, Recorded content files r)
    {number : Nat} (hnumber : number < 100) :
    env.voice number = (spoken number).flatMap fun r => (files r).samples := by
  obtain ⟨fuel, hread⟩ := hvoiced number
  obtain ⟨passes, hspoken⟩ := VoiceNumberReader.read_spoken h hnumber
  have hboth := (hread (max fuel passes) (le_max_left _ _)).symm.trans
    (hspoken (max fuel passes) (le_max_right _ _))
  exact Except.ok.inj (Option.some.inj hboth)

/-- With the recordings of the program, the audio source renders the recording of the
number one, from wherever the last `Render` has stopped, and nothing else ever. -/
theorem runs_spoken {content : VoiceResource → Buffer} {files : VoiceResource → WavReader.WavFile}
    {env : Env} (hvoiced : Voiced content env) (hfiles : ∀ r ∈ resourceFiles, Recorded content files r)
    {cfg : ZakuroConfig} (hfake : cfg.fakeAudioCapture = false) (hdevice : cfg.noAudioDevice = false)
    {w : World n} {es : List (SoundEvent n)} (h : Machine.Run (sound env) (run n cfg) es w) :
    ∃ k, w.gam = some [(files ⟨1, 1⟩).samples.drop k] := by
  have hone : env.voice 1 = (files ⟨1, 1⟩).samples :=
    (hvoiced.voice hfiles (by decide : 1 < 100)).trans (List.append_nil _)
  refine h.invariant (I := fun w => ∃ k, w.gam = some [(files ⟨1, 1⟩).samples.drop k]) ?_ ?_
  · rintro w e w' ⟨k, hgam⟩ - hs
    rcases sound_single hgam hs with hgam' | ⟨m, hgam'⟩
    · exact ⟨0, hone ▸ hgam'⟩
    · rw [List.drop_drop] at hgam'
      exact ⟨_, hgam'⟩
  · have hgam : (run n cfg).gam = some [[]] := (foldl_play_gam cfg _ _).trans (audios_external hfake hdevice)
    refine ⟨(files ⟨1, 1⟩).samples.length, ?_⟩
    rw [List.drop_length]
    exact hgam

/-! ## The clip -/

/-- Nothing plays any more. -/
def Unaccompanied (w : World n) : SoundEvent n → Prop
  | .world e => ¬ w.PlaysAudio e
  | .render _ => True

/-- Until something else plays, what is rendered is the clip and then silence. -/
theorem rendered_clip {env : Env} {clip : List Int16} {w w' : World n} {es : List (SoundEvent n)}
    (hgam : w.gam = some [clip])
    (h : Machine.Run ((sound env).restrict Unaccompanied) w es w') :
    (sound env).outputs samples w es = GameAudio.heard clip ((sound env).outputs samples w es).length := by
  suffices H : w'.gam = some [clip.drop ((sound env).outputs samples w es).length] ∧
      (sound env).outputs samples w es =
        GameAudio.heard clip ((sound env).outputs samples w es).length from H.2
  rw [← Machine.outputs_restrict (sound env) Unaccompanied]
  refine h.outputs_invariant (I := fun out v => v.gam = some [clip.drop out.length] ∧
    out = GameAudio.heard clip out.length) ?_ ⟨hgam, by simp [GameAudio.heard]⟩
  rintro out v e v' ⟨hv, hout⟩ ⟨-, hc⟩ hs
  cases e with
  | world e =>
    rw [samples, List.append_nil]
    exact ⟨(step_gam hs hc).trans hv, hout⟩
  | render size =>
    obtain rfl := Except.ok.inj hs
    have hsamples := samples_single hv size
    have hlen : (out ++ v.samples (.render size)).length = out.length + size := by
      rw [hsamples, List.length_append, GameAudio.heard_length]
    rw [hlen]
    constructor
    · rw [render_single hv, List.drop_drop]
    · rw [GameAudio.heard_add, hsamples, ← hout]

/-- `Play` for the client changes nothing, whatever is to be played. -/
def Ignored (w : World n) (i : Fin n) : Prop :=
  ∀ audios, w.gam = some audios → ∀ buf, GameAudioManager.play audios i.val buf = audios

/-- The client's clip is what the audio source renders from now on. -/
structure Heard (env : Env) (w w' : World n) (i : Fin n) : Prop where
  accepted : ¬ w.Ignored i
  samples : ∀ es w'', Machine.Run ((sound env).restrict Unaccompanied) w' es w'' →
    (sound env).outputs World.samples w' es =
      GameAudio.heard (env.voice (i.val + 1)) ((sound env).outputs World.samples w' es).length

/-- In every run of an instance with one audio source, a voice number is heard
exactly if it is that of the first client. The others are ignored. -/
theorem voice_number_heard_iff {env : Env} {cfg : ZakuroConfig} (hfake : cfg.fakeAudioCapture = false)
    (hdevice : cfg.noAudioDevice = false) {w w' : World n} {es : List (SoundEvent n)}
    (h : Machine.Run (sound env) (run n cfg) es w) {p : PlayerPath} {i : Fin n} {d : Draw}
    (hop : (w.info p i).current = some .playVoiceNumberClient)
    (hs : (sound env).step w (.world (.onNext p i d)) = .ok w') : Heard env w w' i ↔ i.val = 0 := by
  obtain ⟨audio, hgam⟩ := runs_oneSource hfake hdevice h
  obtain ⟨audios, hgam', hplayed⟩ := step_playsAudio hs hop
  obtain rfl := Option.some.inj (hgam.symm.trans hgam')
  rw [play_single] at hplayed
  constructor
  · rintro ⟨haccepted, -⟩
    by_contra hi
    refine haccepted fun audios' hgam'' buf => ?_
    obtain rfl := Option.some.inj (hgam.symm.trans hgam'')
    rw [play_single, if_neg hi]
  · intro hi
    rw [if_pos hi] at hplayed
    refine ⟨fun hignored => ?_, fun fs w'' hrun => rendered_clip hplayed hrun⟩
    have hlonger := hignored [audio] hgam (0 :: audio)
    rw [play_single, if_pos hi] at hlonger
    simp at hlonger

/-- Every number up to 99 has a clip of one sample. -/
def numberEnv : Env where
  vcConfig := {}
  pool := ⟨[0], Nat.one_pos⟩
  voice number := if 0 ≤ number ∧ number < 100 then [Int16.ofInt number] else []

def numberConfig : ZakuroConfig where
  fakeAudioCapture := false
  noAudioDevice := false
  scenario := .reconnect
  duration := ⟨true, 0⟩
  repeatInterval := ⟨true, 0⟩
  firstWaitMs := fun _ => 0
  channels := []

/-- Until the client is about to play its number. -/
def numberEvents (i : Fin n) : List (SoundEvent n) :=
  [.world (.onNext [] i zeroDraw), .world (.sleepExpired [] i), .world (.sleepReady [] i), .render 160,
    .world (.onNext [] i zeroDraw), .world (.onNext [] i zeroDraw), .world (.sleepExpired [] i),
    .world (.sleepReady [] i)]

def aboutToPlay (i : Fin n) (w : World n) : Bool :=
  match (w.info [] i).current with
  | some .playVoiceNumberClient => true
  | _ => false

theorem current_of_aboutToPlay {i : Fin n} {w : World n} (h : aboutToPlay i w = true) :
    (w.info [] i).current = some .playVoiceNumberClient := by
  rw [aboutToPlay] at h
  split at h
  next heq => exact heq
  next => cases h

theorem numberEvents_run (i : Fin 2) : ∃ w w' : World 2,
    Machine.Run (sound numberEnv) (run 2 numberConfig) (numberEvents i) w ∧
      (w.info [] i).current = some .playVoiceNumberClient ∧
      (sound numberEnv).step w (.world (.onNext [] i zeroDraw)) = .ok w' := by
  have hexec : ∀ i : Fin 2, ((sound numberEnv).exec (run 2 numberConfig) (numberEvents i)).any (fun w =>
      ((sound numberEnv).exec w [.world (.onNext [] i zeroDraw)]).any fun _ => aboutToPlay i w) = true := by
    decide +kernel
  obtain ⟨w, w', hw, hw', hplay⟩ := Machine.exec_exists_then (sound numberEnv) (run 2 numberConfig)
    (numberEvents i) [.world (.onNext [] i zeroDraw)] (fun w _ => aboutToPlay i w) (hexec i)
  cases hw' with
  | cons _ hs hnil =>
    cases hnil
    exact ⟨w, _, hw, current_of_aboutToPlay hplay, hs⟩

theorem voice_number_heard_first : ∃ w w' : World 2,
    Machine.Run (sound numberEnv) (run 2 numberConfig) (numberEvents 0) w ∧ Heard numberEnv w w' 0 := by
  obtain ⟨w, w', hw, hop, hs⟩ := numberEvents_run 0
  exact ⟨w, w', hw, (voice_number_heard_iff rfl rfl hw hop hs).mpr rfl⟩

/-- The number 2 of the second client is played into no buffer. -/
theorem voice_number_ignored : ¬ ∀ (n : Nat) (env : Env) (cfg : ZakuroConfig), cfg.fakeAudioCapture = false →
    cfg.noAudioDevice = false → ∀ (w w' : World n) (es : List (SoundEvent n)) (p : PlayerPath) (i : Fin n)
    (d : Draw), Machine.Run (sound env) (run n cfg) es w →
      (w.info p i).current = some .playVoiceNumberClient → env.voice (i.val + 1) ≠ [] →
      (sound env).step w (.world (.onNext p i d)) = .ok w' → Heard env w w' i := by
  intro h
  obtain ⟨w, w', hw, hop, hs⟩ := numberEvents_run 1
  have hheard := h 2 numberEnv numberConfig rfl rfl w w' _ [] 1 zeroDraw hw hop (by decide) hs
  obtain ⟨audio, hgam⟩ := runs_oneSource rfl rfl hw
  refine hheard.accepted fun audios hgam' buf => ?_
  obtain rfl := Option.some.inj (hgam.symm.trans hgam')
  rw [play_single]
  rfl

end World
