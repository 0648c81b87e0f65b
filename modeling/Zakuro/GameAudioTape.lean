import Zakuro.KeyedWorld
import Zakuro.Playback

/-!
# The sound of an instance

Whatever its clients and its keys play and whenever the audio thread renders, what
an instance with an audio source puts out is a tape on which each number of its
first client, or of the first key, begins where it was played, and is cut off by
the next. Nothing else is on it.
-/

namespace World

open ScenarioPlayer
open Playback (Cue)

variable {n : Nat}

/-- What an event is to the audio source. -/
def cue (env : Env) (w : World n) : SoundEvent n → List (Cue Int16)
  | .render size => [.render size]
  | .world (.onNext p i _) =>
    match (w.info p i).current with
    | some .playVoiceNumberClient => if i.val = 0 then [.play (env.voice 1)] else []
    | _ => []
  | .world _ => []

theorem cue_of_silent {env : Env} {w : World n} {e : Event n} (h : ¬ w.PlaysAudio e) :
    w.cue env (.world e) = [] := by
  cases e with
  | onNext p i d =>
    rw [cue]
    split
    next hop => exact absurd hop h
    next => rfl
  | _ => rfl

theorem cue_of_plays {env : Env} {w : World n} {p : PlayerPath} {i : Fin n} {d : Draw}
    (h : (w.info p i).current = some .playVoiceNumberClient) :
    w.cue env (.world (.onNext p i d)) = if i.val = 0 then [.play (env.voice 1)] else [] := by
  rw [cue, h]

/-- One event does to the buffer, and puts out, what its cue says. -/
theorem sound_step {env : Env} {w w' : World n} {e : SoundEvent n} {buffer : GameAudio}
    (hgam : w.gam = some [buffer]) (hs : (sound env).step w e = .ok w') : ∃ buffer', w'.gam = some [buffer'] ∧
      ∀ cues, Playback.tape 0 buffer (w.cue env e ++ cues) = w.samples e ++ Playback.tape 0 buffer' cues := by
  cases e with
  | render size =>
    obtain rfl := Except.ok.inj hs
    refine ⟨buffer.drop size, render_single hgam size, fun cues => ?_⟩
    rw [samples_single hgam]
    rfl
  | world e =>
    have hs : step env w e = .ok w' := hs
    by_cases he : w.PlaysAudio e
    · cases e with
      | onNext p i d =>
        obtain ⟨audios, hgam', hplayed⟩ := step_playsAudio hs he
        obtain rfl := Option.some.inj (hgam.symm.trans hgam')
        rw [play_single] at hplayed
        rw [cue_of_plays he]
        by_cases hi : i.val = 0
        · rw [if_pos hi, hi] at hplayed
          rw [if_pos hi]
          exact ⟨env.voice 1, hplayed, fun cues => rfl⟩
        · rw [if_neg hi] at hplayed
          rw [if_neg hi]
          exact ⟨buffer, hplayed, fun cues => rfl⟩
      | _ => exact he.elim
    · rw [cue_of_silent he]
      exact ⟨buffer, (step_gam hs he).trans hgam, fun cues => rfl⟩

theorem run_gam {cfg : ZakuroConfig} (hfake : cfg.fakeAudioCapture = false)
    (hdevice : cfg.noAudioDevice = false) :
    (run n cfg).gam = some [[]] :=
  (foldl_play_gam cfg _ _).trans (audios_external hfake hdevice)

end World

namespace KeyedWorld

open ScenarioPlayer
open Playback (Cue)
open World (SoundEvent)

variable {n : Nat}

/-- What an action of the trigger is to the audio source. -/
def actionCue (env : Env) : KeyAction n → List (Cue Int16)
  | .play m => if m = 0 then [.play (env.voice 1)] else []
  | .post _ => []

def cue (env : Env) (s : KeyedWorld n) : Event n → List (Cue Int16)
  | .sound e => s.world.cue env e
  | .pass now => (s.trigger.pass now).1.flatMap (actionCue env)
  | .make | .pushKey _ | .reset | .handler _ => []

/-- What is rendered. -/
def samples (s : KeyedWorld n) : Event n → List Int16
  | .sound e => s.world.samples e
  | .pass _ | .make | .pushKey _ | .reset | .handler _ => []

theorem act_tape {env : Env} {s t : KeyedWorld n} {a : KeyAction n} {buffer : GameAudio}
    (hgam : s.world.gam = some [buffer]) (hs : s.act env a = .ok t) :
    ∃ buffer', t.world.gam = some [buffer'] ∧
      ∀ cues, Playback.tape 0 buffer (actionCue env a ++ cues) = Playback.tape 0 buffer' cues := by
  cases a with
  | post command =>
    obtain rfl := Except.ok.inj hs
    exact ⟨buffer, hgam, fun cues => rfl⟩
  | play m =>
    rw [act, play, hgam] at hs
    obtain rfl := Except.ok.inj hs
    rw [actionCue, World.play_single]
    cases m with
    | zero => exact ⟨env.voice 1, rfl, fun cues => rfl⟩
    | succ m => exact ⟨buffer, rfl, fun cues => rfl⟩

theorem acts_tape {env : Env} {s t : KeyedWorld n} {actions : List (KeyAction n)} {buffer : GameAudio}
    (hgam : s.world.gam = some [buffer]) (hs : actions.foldlM (act env) s = .ok t) :
    ∃ buffer', t.world.gam = some [buffer'] ∧
      ∀ cues, Playback.tape 0 buffer (actions.flatMap (actionCue env) ++ cues) =
        Playback.tape 0 buffer' cues := by
  induction actions generalizing s buffer with
  | nil =>
    obtain rfl := Except.ok.inj hs
    exact ⟨buffer, hgam, fun cues => rfl⟩
  | cons a actions ih =>
    rw [List.foldlM_cons] at hs
    cases hu : s.act env a with
    | error => rw [hu] at hs; cases hs
    | ok u =>
      rw [hu] at hs
      obtain ⟨buffer', hgam', htape⟩ := act_tape hgam hu
      obtain ⟨buffer'', hgam'', htape'⟩ := ih hgam' hs
      refine ⟨buffer'', hgam'', fun cues => ?_⟩
      rw [List.flatMap_cons, List.append_assoc, htape, htape']

theorem step_tape {env : Env} {s t : KeyedWorld n} {e : Event n} {buffer : GameAudio}
    (hgam : s.world.gam = some [buffer]) (hs : step env s e = .ok t) :
    ∃ buffer', t.world.gam = some [buffer'] ∧
      ∀ cues, Playback.tape 0 buffer (s.cue env e ++ cues) = s.samples e ++ Playback.tape 0 buffer' cues := by
  cases e with
  | sound e =>
    obtain ⟨w, hw, rfl⟩ := Machine.map_eq_ok hs
    exact World.sound_step hgam hw
  | pass now => exact acts_tape (s := { s with trigger := (s.trigger.pass now).2 }) hgam hs
  | handler command =>
    obtain ⟨w, hw, rfl⟩ := Machine.map_eq_ok hs
    have hsilent : ¬ s.world.PlaysAudio command.event := by
      cases command <;> exact id
    exact ⟨buffer, (World.step_gam hw hsilent).trans hgam, fun cues => rfl⟩
  | _ =>
    obtain rfl := Except.ok.inj hs
    exact ⟨buffer, hgam, fun cues => rfl⟩

/-- In every run of an instance with an audio source, each sample that is rendered
is the one of the last number that the first client or a key has played before it,
as far behind its beginning as the number was played before the sample, and
silence behind the end of the number. -/
theorem sound_law {env : Env} {cfg : ZakuroConfig} (hfake : cfg.fakeAudioCapture = false)
    (hdevice : cfg.noAudioDevice = false) {s : KeyedWorld n} {es : List (Event n)}
    (h : Machine.Run (machine env) (start n cfg) es s) {t : Nat}
    (ht : t < ((machine env).outputs samples (start n cfg) es).length) :
    ((machine env).outputs samples (start n cfg) es)[t]? = some (Playback.sampleAt 0 (0, [])
      (Playback.plays 0 ((machine env).outputs (cue env) (start n cfg) es)) t) := by
  have htape : (machine env).outputs samples (start n cfg) es =
      Playback.tape 0 [] ((machine env).outputs (cue env) (start n cfg) es) :=
    Playback.outputs_eq_tape 0 (fun s e t buffer hgam hs => step_tape hgam hs) h (World.run_gam hfake hdevice)
  rw [htape] at ht ⊢
  rw [Playback.tape_getElem? 0 0 [] _ ht, Nat.zero_add]

/-- The first client plays its number, and then a key does. -/
def playedEvents (i : Fin n) : List (Event n) :=
  .make :: (World.numberEvents i).map .sound ++
    [.sound (.world (.onNext [] i World.zeroDraw)), .sound (.render 2), .pushKey (ascii '1'), .pass 1,
      .sound (.render 1)]

theorem sound_law_number : ∃ s : KeyedWorld 2,
    Machine.Run (machine World.numberEnv) (start 2 World.numberConfig) (playedEvents 0) s ∧
      ((machine World.numberEnv).outputs samples (start 2 World.numberConfig) (playedEvents 0))[162]? =
        some (Playback.sampleAt 0 (0, []) (Playback.plays 0
          ((machine World.numberEnv).outputs (cue World.numberEnv) (start 2 World.numberConfig)
            (playedEvents 0))) 162) := by
  obtain ⟨s, hs, -⟩ := Machine.exec_exists (machine World.numberEnv) (start 2 World.numberConfig)
    (playedEvents 0) (fun _ => true) (by decide +kernel)
  exact ⟨s, hs, sound_law rfl rfl hs (by decide +kernel)⟩

end KeyedWorld
