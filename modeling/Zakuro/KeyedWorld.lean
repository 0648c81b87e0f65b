import Zakuro.ClientSessions
import Zakuro.Sound
import Zakuro.KeyStrokes

/-!
# Keyed worlds

An instance as `Zakuro::Run` leaves it to its threads: the event loop, the audio
thread, and the trigger, which posts to the event loop what `s`, `S`, `q` and `Q`
are for, and plays into the audio buffers itself. Handlers that are posted run in
any order.
-/

open History (Each)

namespace KeyCommand

variable {n : Nat}

/-- What the event loop runs for a command. -/
def event : KeyCommand n → World.Event n
  | .pauseAll => .pauseAll
  | .resumeAll => .resumeAll
  | .close m => .keyClose m
  | .connect m => .keyConnect m

/-- The command that an event of an instance comes from. -/
def ofEvent : World.Event n → Option (KeyCommand n)
  | .pauseAll => some .pauseAll
  | .resumeAll => some .resumeAll
  | .keyClose m => some (.close m)
  | .keyConnect m => some (.connect m)
  | .play _ _ _ | .onNext _ _ _ | .sleepExpired _ _ | .sleepReady _ _ | .sleepAborted _ _ | .client _ _ =>
    none

@[simp] theorem ofEvent_event (c : KeyCommand n) : ofEvent c.event = some c := by
  cases c <;> rfl

end KeyCommand

structure KeyedWorld (n : Nat) where
  world : World n
  /-- `fake_audio_key_trigger`: there is a trigger. -/
  keyed : Bool
  /-- The event loop runs, and the trigger has been made. -/
  made : Bool := false
  trigger : FakeAudioKeyTrigger n := {}
  /-- What is posted and has not run. -/
  posted : List (KeyCommand n) := []
  /-- What was posted and has run. -/
  handled : List (KeyCommand n) := []

namespace KeyedWorld

open ScenarioPlayer
open World (SoundEvent)

variable {n : Nat}

inductive Event (n : Nat) where
  /-- `trigger.reset(new FakeAudioKeyTrigger(..))`, if there is to be one, and `ioc.run()`. -/
  | make
  | pushKey (c : UInt8)
  /-- The thread of the trigger wakes up. -/
  | pass (now : Int)
  /-- `Run` leaves its block, so that there is no `io_context` and no client any more, and
  the trigger is to go. No pass comes between the two. -/
  | reset
  /-- The event loop runs what was posted. -/
  | handler (command : KeyCommand n)
  | sound (e : SoundEvent n)

/-- The event loop gets a command from the trigger only. -/
def FromLoop : SoundEvent n → Prop
  | .world e => KeyCommand.ofEvent e = none
  | .render _ => True

instance : DecidablePred (FromLoop (n := n))
  | .world e => inferInstanceAs (Decidable (KeyCommand.ofEvent e = none))
  | .render _ => .isTrue trivial

def Enabled (env : Env) (s : KeyedWorld n) : Event n → Prop
  | .make => s.made = false
  | .pushKey _ => s.keyed = true ∧ s.made = true
  | .pass _ => s.keyed = true ∧ s.made = true ∧ s.trigger.running = true
  | .reset => s.made = true
  | .handler command =>
    s.made = true ∧ s.trigger.stopped = false ∧ s.world.stopped = false ∧ command ∈ s.posted
  | .sound e =>
    s.made = true ∧ s.trigger.stopped = false ∧ FromLoop e ∧ (World.sound env).enabled s.world e

instance (env : Env) (s : KeyedWorld n) : DecidablePred (Enabled env s)
  | .make => inferInstanceAs (Decidable (_ = false))
  | .reset => inferInstanceAs (Decidable (_ = true))
  | .pushKey _ => inferInstanceAs (Decidable (_ ∧ _))
  | .pass _ => inferInstanceAs (Decidable (_ ∧ _ ∧ _))
  | .handler _ => inferInstanceAs (Decidable (_ ∧ _ ∧ _ ∧ _))
  | .sound _ => inferInstanceAs (Decidable (_ ∧ _ ∧ _ ∧ _))

def pushKey (c : UInt8) (s : KeyedWorld n) : KeyedWorld n :=
  { s with trigger := { s.trigger with key := s.trigger.key.pushKey c } }

/-- `gam_->Play(m, voice_reader_.Read(m + 1))` -/
def play (env : Env) (m : Nat) (s : KeyedWorld n) : Except Fault (KeyedWorld n) :=
  match s.world.gam with
  | none => .error .noAudio
  | some audios =>
    .ok { s with world := { s.world with gam := some (GameAudioManager.play audios m (env.voice (m + 1))) } }

def act (env : Env) (s : KeyedWorld n) : KeyAction n → Except Fault (KeyedWorld n)
  | .post command => .ok { s with posted := s.posted ++ [command] }
  | .play m => s.play env m

def pass (env : Env) (now : Int) (s : KeyedWorld n) : Except Fault (KeyedWorld n) :=
  let passed := s.trigger.pass now
  passed.1.foldlM (act env) { s with trigger := passed.2 }

def step (env : Env) (s : KeyedWorld n) : Event n → Except Fault (KeyedWorld n)
  | .make => .ok { s with made := true }
  | .pushKey c => .ok (s.pushKey c)
  | .pass now => s.pass env now
  | .reset => .ok { s with trigger := { s.trigger with stopped := true } }
  | .handler command =>
    (World.step env s.world command.event).map fun w =>
      { s with world := w, posted := s.posted.erase command, handled := s.handled ++ [command] }
  | .sound e => ((World.sound env).step s.world e).map fun w => { s with world := w }

def machine (env : Env) : Machine (KeyedWorld n) (Event n) Fault where
  enabled := Enabled env
  step := step env

instance (env : Env) (s : KeyedWorld n) (e : Event n) : Decidable ((machine env).enabled s e) :=
  inferInstanceAs (Decidable (Enabled env s e))

/-- The instance before its event loop runs. -/
def start (n : Nat) (cfg : ZakuroConfig) : KeyedWorld n where
  world := World.run n cfg
  keyed := !cfg.fakeAudioCapture

/-! ## The trigger -/

/-- An event as the trigger has it. -/
def triggerEvents : Event n → List FakeAudioKeyTrigger.Event
  | .pushKey c => [.pushKey c]
  | .pass now => [.pass now]
  | .reset => [.reset]
  | .make | .handler _ | .sound _ => []

theorem act_same {env : Env} {s t : KeyedWorld n} {a : KeyAction n} (h : s.act env a = .ok t) :
    t = { s with world := t.world, posted := t.posted } := by
  cases a with
  | post command =>
    obtain rfl := Except.ok.inj h
    rfl
  | play m =>
    rw [act, play] at h
    split at h
    next => cases h
    next =>
      obtain rfl := Except.ok.inj h
      rfl

/-- What a list of actions does, if what one does is a preorder. -/
theorem acts_rel {env : Env} (R : KeyedWorld n → KeyedWorld n → Prop) (refl : ∀ s, R s s)
    (trans : ∀ {s t u}, R s t → R t u → R s u) (step : ∀ {s t a}, s.act env a = .ok t → R s t)
    {s t : KeyedWorld n} {actions : List (KeyAction n)} (h : actions.foldlM (act env) s = .ok t) : R s t := by
  induction actions generalizing s with
  | nil =>
    obtain rfl := Except.ok.inj h
    exact refl s
  | cons a actions ih =>
    rw [List.foldlM_cons] at h
    cases hu : s.act env a with
    | error => rw [hu] at h; cases h
    | ok u =>
      rw [hu] at h
      exact trans (step hu) (ih h)

theorem acts_same {env : Env} {s t : KeyedWorld n} {actions : List (KeyAction n)}
    (h : actions.foldlM (act env) s = .ok t) : t = { s with world := t.world, posted := t.posted } := by
  refine acts_rel (fun s t => t = { s with world := t.world, posted := t.posted }) (fun _ => rfl) ?_
    act_same h
  intro s t u ht hu
  rw [hu, ht]

theorem act_posted {env : Env} {s t : KeyedWorld n} {a : KeyAction n} (h : s.act env a = .ok t) :
    t.posted = s.posted ++ a.command.toList := by
  cases a with
  | post command =>
    obtain rfl := Except.ok.inj h
    rfl
  | play m =>
    rw [act, play] at h
    split at h
    next => cases h
    next =>
      obtain rfl := Except.ok.inj h
      exact (List.append_nil _).symm

theorem acts_posted {env : Env} {s t : KeyedWorld n} {actions : List (KeyAction n)}
    (h : actions.foldlM (act env) s = .ok t) :
    t.posted = s.posted ++ actions.filterMap KeyAction.command := by
  induction actions generalizing s with
  | nil =>
    obtain rfl := Except.ok.inj h
    rw [List.filterMap_nil, List.append_nil]
  | cons a actions ih =>
    rw [List.foldlM_cons] at h
    cases hu : s.act env a with
    | error => rw [hu] at h; cases h
    | ok u =>
      rw [hu] at h
      rw [ih h, act_posted hu, List.append_assoc]
      cases a <;> rfl

theorem pass_acts {env : Env} {s t : KeyedWorld n} {now : Int} (h : step env s (.pass now) = .ok t) :
    (s.trigger.pass now).1.foldlM (act env) { s with trigger := (s.trigger.pass now).2 } = .ok t := h

/-- Every step of an instance is a run of its trigger. -/
theorem projects_trigger (env : Env) :
    (machine env).ProjectsTo (FakeAudioKeyTrigger.machine n) (fun s : KeyedWorld n => s.trigger)
      (fun _ => triggerEvents) := by
  rintro s e t he hs
  cases e with
  | pass now =>
    have hpass := pass_acts hs
    rw [acts_same hpass]
    exact .single he.2.2 rfl
  | handler command =>
    obtain ⟨w, -, rfl⟩ := Machine.map_eq_ok hs
    exact .nil _
  | sound e =>
    obtain ⟨w, -, rfl⟩ := Machine.map_eq_ok hs
    exact .nil _
  | make =>
    obtain rfl := Except.ok.inj hs
    exact .nil _
  | _ =>
    obtain rfl := Except.ok.inj hs
    exact .single trivial rfl

/-! ## Commands -/

/-- What was posted has run, or has not; nothing is lost and nothing runs twice. -/
def Accounted (s : KeyedWorld n) : Prop := (s.handled ++ s.posted).Perm s.trigger.issued

theorem Accounted.step {env : Env} {s t : KeyedWorld n} {e : Event n} (h : Accounted s) (he : Enabled env s e)
    (hs : step env s e = .ok t) : Accounted t := by
  cases e with
  | pass now =>
    have hpass := pass_acts hs
    have hposted := acts_posted hpass
    have hissued : (s.trigger.pass now).2.issued =
        s.trigger.issued ++ (s.trigger.pass now).1.filterMap KeyAction.command := KeyStrokes.issued_pass rfl
    rw [acts_same hpass]
    rw [Accounted] at h ⊢
    dsimp only at hposted ⊢
    rw [hposted, hissued, ← List.append_assoc]
    exact h.append_right _
  | handler command =>
    obtain ⟨w, -, rfl⟩ := Machine.map_eq_ok hs
    have hmoved := (List.perm_cons_erase he.2.2.2).symm
    refine List.Perm.trans ?_ h
    dsimp only
    rw [List.append_assoc, List.singleton_append]
    exact hmoved.append_left s.handled
  | sound e =>
    obtain ⟨w, -, rfl⟩ := Machine.map_eq_ok hs
    exact h
  | _ =>
    obtain rfl := Except.ok.inj hs
    exact h

/-! ## The instance without its sound -/

end KeyedWorld

namespace World

open ScenarioPlayer

variable {n : Nat}

/-- The instance with nothing in its audio buffers. -/
def silence (w : World n) : World n := { w with gam := w.gam.map fun _ => [] }

theorem silence_onExit (w : World n) (k : PlayerPath × Fin n) :
    w.silence.onExit k = (w.onExit k).silence := by
  rw [onExit, onExit, apply_ite silence]
  rfl

theorem silence_foldl_onExit (ks : List (PlayerPath × Fin n)) (w : World n) :
    ks.foldl onExit w.silence = (ks.foldl onExit w).silence := by
  induction ks generalizing w with
  | nil => rfl
  | cons k ks ih => rw [List.foldl_cons, List.foldl_cons, silence_onExit, ih]

theorem silence_client {env : Env} {i : Fin n} {e : VirtualClient.Event (PlayerPath × Fin n)} {w w' : World n}
    (h : w.client env i e = .ok w') : w.silence.client env i e = .ok w'.silence := by
  rw [client] at h ⊢
  have hvcs : w.silence.vcs = w.vcs := rfl
  rw [hvcs]
  split at h
  next vc hvc =>
    obtain rfl := Except.ok.inj h
    rw [react, react, ← silence_foldl_onExit]
    rfl
  next => cases h

theorem silence_operate {env : Env} {p : PlayerPath} {i : Fin n} {d : Draw} {op : Op} {w w' : World n}
    (h : w.operate env p i d op = .ok w') : w.silence.operate env p i d op = .ok w'.silence := by
  cases op with
  | sleep minTimeMs maxTimeMs =>
    rw [operate] at h ⊢
    split at h
    next => cases h
    next ms _ =>
      obtain rfl := Except.ok.inj h
      rfl
  | playSubScenario name data l =>
    obtain rfl := Except.ok.inj h
    rw [operate, play_client, play_client]
    rfl
  | playVoiceNumberClient =>
    rw [operate] at h ⊢
    split at h
    next => cases h
    next audios hgam =>
      obtain rfl := Except.ok.inj h
      rw [silence, hgam]
      rfl
  | sendDataChannelMessage label minSize maxSize =>
    rw [operate, sendMessage] at h ⊢
    split at h
    next => cases h
    next message hmessage =>
      obtain ⟨v, hv, rfl⟩ := Machine.map_eq_ok h
      have hsilent : w.silence.message env p i d label = some message := hmessage
      rw [hsilent]
      dsimp only
      rw [silence_client hv]
      rfl
  | disconnect => exact silence_client h
  | reconnect =>
    have hconnect : w.client env i .connect = .ok w' := h
    exact silence_client hconnect
  | exit => exact silence_client h

theorem onNext_of_operates {env : Env} {p : PlayerPath} {i : Fin n} {d : Draw} {op : Op} {w v : World n}
    (hop : (w.info p i).current = some op) (hv : (w.begun p i op).operate env p i d op = .ok v) :
    w.onNext env p i d = .ok (if op.isSleep then v else v.modifyInfo p i ClientInfo.next) := by
  have htaken := info_modifyInfo w p p i i ClientInfo.takePosted
  rw [if_pos ⟨rfl, rfl⟩] at htaken
  have hcurrent : (w.info p i).takePosted.current = some op := hop
  rw [onNext]
  dsimp only
  rw [htaken, hcurrent]
  exact congrArg (Except.map fun v => if op.isSleep then v else v.modifyInfo p i ClientInfo.next) hv

/-- What an event does but for the sound does not depend on the sound. -/
theorem silence_step {env : Env} {w w' : World n} {e : Event n} (h : step env w e = .ok w') :
    step env w.silence e = .ok w'.silence := by
  cases e with
  | onNext p i d =>
    obtain ⟨op, v, hop, hv, rfl⟩ := onNext_operates h
    have hsilent := silence_operate hv
    have hinfo : (w.silence.info p i).current = some op := hop
    rw [step, onNext_of_operates hinfo hsilent]
    split <;> rfl
  | keyClose i => exact silence_client h
  | keyConnect i =>
    have hconnect : w.client env i .connect = .ok w' := h
    exact silence_client hconnect
  | client i e => exact silence_client h
  | play clientId data l =>
    obtain rfl := Except.ok.inj h
    rw [step, play, play]
    split <;> rfl
  | _ =>
    obtain rfl := Except.ok.inj h
    rfl

end World

namespace World

open ScenarioPlayer

variable {n : Nat}

theorem silence_foldl_play (cfg : ZakuroConfig) (is : List (Fin n)) (w : World n) :
    (is.foldl (playClient cfg) w).silence =
      is.foldl (playClient { cfg with noAudioDevice := true }) w.silence := by
  induction is generalizing w with
  | nil => rfl
  | cons i is ih =>
    rw [List.foldl_cons, List.foldl_cons, ih, playClient, playClient, play_client, play_client]
    rfl

/-- Without its sound, an instance is one without an audio device. -/
theorem silence_run (cfg : ZakuroConfig) :
    (run n cfg).silence = run n { cfg with noAudioDevice := true } := by
  rw [run, silence_foldl_play]
  congr 1
  rw [start, silence, start]
  congr 1
  simp only [ZakuroConfig.audios]
  split
  · rfl
  · split <;> rfl

theorem queued_silence {env : Env} {w : World n} {e : Event n} (h : Queued env w e) :
    Queued env w.silence e := by
  cases e <;> exact h

end World

namespace KeyedWorld

open ScenarioPlayer
open World (SoundEvent)

variable {n : Nat}

/-- An event as the event loop has it. -/
def loopEvents : Event n → List (World.Event n)
  | .handler command => [command.event]
  | .sound (.world e) => [e]
  | .sound (.render _) | .make | .pushKey _ | .pass _ | .reset => []

theorem act_silence {env : Env} {s t : KeyedWorld n} {a : KeyAction n} (h : s.act env a = .ok t) :
    t.world.silence = s.world.silence := by
  cases a with
  | post command =>
    obtain rfl := Except.ok.inj h
    rfl
  | play m =>
    rw [act, play] at h
    split at h
    next => cases h
    next audios hgam =>
      obtain rfl := Except.ok.inj h
      rw [World.silence, World.silence, hgam]
      rfl

theorem render_silence (w : World n) (size : Nat) : (w.render size).silence = w.silence := by
  rw [World.silence, World.silence, World.render, Option.map_map]
  rfl

/-- Every step of an instance with its keys and its sound is, but for the sound,
a step of its event loop. -/
theorem projects (env : Env) : (machine env).ProjectsTo (World.machine env)
    (fun s : KeyedWorld n => s.world.silence) (fun _ => loopEvents) := by
  rintro s e t he hs
  cases e with
  | pass now =>
    have hpass := pass_acts hs
    have hkept := acts_rel (fun s t => t.world.silence = s.world.silence) (fun _ => rfl)
      (fun h h' => h'.trans h) act_silence hpass
    exact Machine.Run.same hkept
  | handler command =>
    obtain ⟨w, hw, rfl⟩ := Machine.map_eq_ok hs
    refine .single ⟨he.2.2.1, ?_⟩ (World.silence_step hw)
    cases command <;> trivial
  | sound e =>
    obtain ⟨w, hw, rfl⟩ := Machine.map_eq_ok hs
    cases e with
    | world e => exact .single ⟨he.2.2.2.1, World.queued_silence he.2.2.2.2⟩ (World.silence_step hw)
    | render size =>
      obtain rfl := Except.ok.inj hw
      exact Machine.Run.same (render_silence s.world size)
  | _ =>
    obtain rfl := Except.ok.inj hs
    exact .nil _

/-- The commands that the event loop has run are those that it took from the trigger. -/
theorem handled_step {env : Env} {s t : KeyedWorld n} {e : Event n} (he : Enabled env s e)
    (hs : step env s e = .ok t) : t.handled = s.handled ++ (loopEvents e).filterMap KeyCommand.ofEvent := by
  cases e with
  | pass now =>
    have hpass := pass_acts hs
    rw [acts_same hpass]
    simp [loopEvents]
  | handler command =>
    obtain ⟨w, hw, rfl⟩ := Machine.map_eq_ok hs
    simp [loopEvents]
  | sound e =>
    obtain ⟨w, hw, rfl⟩ := Machine.map_eq_ok hs
    cases e with
    | world e =>
      have hnone : KeyCommand.ofEvent e = none := he.2.2.1
      simp [loopEvents, hnone]
    | render size => simp [loopEvents]
  | pushKey c =>
    obtain rfl := Except.ok.inj hs
    simp [loopEvents, pushKey]
  | _ =>
    obtain rfl := Except.ok.inj hs
    simp [loopEvents]

/-- What has been taken or waits, only a key adds to. -/
theorem received_step {env : Env} {s t : KeyedWorld n} {e : Event n} (hs : step env s e = .ok t)
    (he : ∀ c, e ≠ .pushKey c) : t.trigger.received = s.trigger.received := by
  cases e with
  | pass now =>
    have hpass := pass_acts hs
    rw [acts_same hpass]
    exact KeyStrokes.received_pass rfl
  | pushKey c => exact absurd rfl (he c)
  | handler command =>
    obtain ⟨w, hw, rfl⟩ := Machine.map_eq_ok hs
    rfl
  | sound e =>
    obtain ⟨w, hw, rfl⟩ := Machine.map_eq_ok hs
    rfl
  | _ =>
    obtain rfl := Except.ok.inj hs
    rfl

/-- What the code never changes back. -/
theorem made_step {env : Env} {s t : KeyedWorld n} {e : Event n} (hs : step env s e = .ok t) :
    t.keyed = s.keyed ∧ (s.made = true → t.made = true) := by
  cases e with
  | pass now =>
    have hpass := pass_acts hs
    rw [acts_same hpass]
    exact ⟨rfl, id⟩
  | handler command =>
    obtain ⟨w, hw, rfl⟩ := Machine.map_eq_ok hs
    exact ⟨rfl, id⟩
  | sound e =>
    obtain ⟨w, hw, rfl⟩ := Machine.map_eq_ok hs
    exact ⟨rfl, id⟩
  | make =>
    obtain rfl := Except.ok.inj hs
    exact ⟨rfl, fun _ => rfl⟩
  | _ =>
    obtain rfl := Except.ok.inj hs
    exact ⟨rfl, id⟩

/-- Nothing but that the trigger is made happens before it is. -/
theorem made_of_step {env : Env} {s t : KeyedWorld n} {e : Event n} (he : Enabled env s e)
    (hs : step env s e = .ok t) : t.made = true := by
  cases e with
  | make =>
    obtain rfl := Except.ok.inj hs
    rfl
  | reset => exact (made_step hs).2 he
  | pushKey c => exact (made_step hs).2 he.2
  | pass now => exact (made_step hs).2 he.2.1
  | handler command => exact (made_step hs).2 he.1
  | sound e => exact (made_step hs).2 he.1

/-- What an instance keeps of its keys: the law for each of them, and the account
of what was posted for them. -/
theorem runs_accounted {env : Env} {cfg : ZakuroConfig} {es : List (Event n)} {s : KeyedWorld n}
    (h : Machine.Run (machine env) (start n cfg) es s) :
    Each KeyStrokes.KeyLaw s.trigger.passes ∧ Accounted s := by
  constructor
  · exact (KeyStrokes.runs_inv (h.project (projects_trigger env))).lawful
  · exact h.invariant (I := Accounted) (fun _ _ _ hI he hs => hI.step he hs) (List.Perm.refl _)

/-- Seen without its sound, an instance with keys goes through a run of its event
loop, in which the commands are those that it took from the trigger. -/
theorem runs_silent {env : Env} {cfg : ZakuroConfig} {es : List (Event n)} {s : KeyedWorld n}
    (h : Machine.Run (machine env) (start n cfg) es s) :
    (World.machine env).Run (World.run n { cfg with noAudioDevice := true }) (es.flatMap loopEvents)
      s.world.silence ∧ (es.flatMap loopEvents).filterMap KeyCommand.ofEvent = s.handled := by
  constructor
  · have hrun := h.project (projects env)
    rw [h.outputs_eq_flatMap] at hrun
    have hstart : (start n cfg).world.silence = World.run n { cfg with noAudioDevice := true } :=
      World.silence_run cfg
    rwa [hstart] at hrun
  · refine h.history (I := fun es s => (es.flatMap loopEvents).filterMap KeyCommand.ofEvent = s.handled) ?_
      rfl
    intro es s e t hI he hs
    rw [handled_step he hs, ← hI]
    simp

end KeyedWorld
