import Zakuro.ScenarioTree
import Zakuro.ScenarioPause

/-!
# What a pause leaves running

`PauseAll` reaches the clients of the main player only, and of these only the
sleep timers. A posted `OnNext` of the main player still executes its operation,
and a sub-scenario that has been started goes on for ever. A pause is complete
exactly when it meets neither.
-/

namespace ClientInfo

/-- A paused client whose posted `OnNext`, if there is one, finds a sleep. -/
structure Hushed (c : ClientInfo) : Prop where
  paused : c.paused = true
  asleep : 0 < c.posted → c.Asleep

theorem Hushed.control_iff {c : ClientInfo} : Hushed c.control ↔ Hushed c :=
  ⟨fun h => ⟨h.paused, h.asleep⟩, fun h => ⟨h.paused, h.asleep⟩⟩

theorem Hushed.step {c : ClientInfo} (h : Hushed c) {e : Event} (he : c.Enabled e)
    (hplay : ∀ data l, e ≠ .play data l) (hresume : e ≠ .resume) : Hushed (c.step e) := by
  cases e with
  | play data l => exact absurd rfl (hplay data l)
  | resume => exact absurd rfl hresume
  | onNext ms =>
    obtain ⟨op, hop, hsleep⟩ := h.asleep he.1
    have hstep : c.step (.onNext ms) = c.takePosted.sleep ms := onNext_of_asleep hop hsleep ms
    rw [hstep]
    exact ⟨h.paused, fun _ => ⟨op, hop, hsleep⟩⟩
  | sleepReady =>
    have hstep : c.step .sleepReady = { c with timer := c.timer.takeReady } :=
      next_of_paused (c := { c with timer := c.timer.takeReady }) h.paused
    rw [hstep]
    exact ⟨h.paused, h.asleep⟩
  | pause => exact ⟨rfl, h.asleep⟩
  | sleepExpired => exact ⟨h.paused, h.asleep⟩
  | sleepAborted => exact ⟨h.paused, h.asleep⟩

end ClientInfo

namespace World

open ScenarioPlayer ClientInfo

variable {n : Nat}

/-- Neither `Play` nor `ResumeAll` is called. -/
def Unresumed : Event n → Prop
  | .play _ _ _ | .resumeAll => False
  | _ => True

instance : DecidablePred (Unresumed (n := n))
  | .play _ _ _ | .resumeAll => .isFalse id
  | .pauseAll | .onNext _ _ _ | .sleepExpired _ _ | .sleepReady _ _ | .sleepAborted _ _ | .keyClose _
  | .keyConnect _ | .client _ _ => .isTrue trivial

/-! ## A complete pause -/

/-- Nothing but sleeps will be executed. -/
structure AllHushed (w : World n) : Prop where
  main : ∀ i, Hushed (w.info [] i)
  sub : ∀ p i, p ≠ [] → (w.info p i).pending = 0

/-- A posted `OnNext` finds a sleep. -/
theorem AllHushed.finds_sleep {w : World n} (h : AllHushed w) {p : PlayerPath} {i : Fin n} {op : Op}
    (hposted : 0 < (w.info p i).posted) (hop : (w.info p i).current = some op) : op.isSleep = true := by
  by_cases hp : p = []
  · subst hp
    obtain ⟨op', hop', hsleep⟩ := (h.main i).asleep hposted
    rw [← Option.some.inj (hop'.symm.trans hop)]
    exact hsleep
  · exact absurd (h.sub p i hp) (pending_of_posted hposted)

theorem AllHushed.step {env : Env} {w w' : World n} {e : Event n} (h : AllHushed w)
    (he : Queued env w e) (hc : Unresumed e) (hs : step env w e = .ok w') : AllHushed w' := by
  constructor
  · intro i
    have hmain := Hushed.control_iff.mpr (h.main i)
    rw [← Hushed.control_iff, step_control hs [] i]
    cases hv : w.view [] i e with
    | none => exact hmain
    | some v =>
      refine hmain.step (view_enabled he hs hv) ?_ ?_
      · rintro data l rfl
        rw [view_root_play hv] at hc
        exact hc
      · rintro rfl
        rw [view_resume hv] at hc
        exact hc
  · intro p i hp
    refine sub_pending_step hp (h.sub p i hp) he hs ?_
    rintro q d name data l rfl hop
    exact absurd (h.finds_sleep he.1 hop) Bool.false_ne_true

/-! ## What goes on under a pause -/

/-- `OnNext` is about to execute an operation that is not a sleep. -/
def Executes (env : Env) (w : World n) (p : PlayerPath) (i : Fin n) : Prop :=
  ∃ d op, (machine env).enabled w (.onNext p i d) ∧ (w.info p i).current = some op ∧
    op.isSleep = false

/-- Sooner or later, in some run, an operation that is not a sleep is executed. -/
def WillExecute (env : Env) (w : World n) (p : PlayerPath) (i : Fin n) : Prop :=
  ∃ es w', Machine.Run ((machine env).restrict fun _ => Unresumed) w es w' ∧ Executes env w' p i

theorem WillExecute.before {env : Env} {w v : World n} {p : PlayerPath} {i : Fin n} {e : Event n}
    (he : (machine env).enabled w e) (hc : Unresumed e) (hs : step env w e = .ok v)
    (h : WillExecute env v p i) : WillExecute env w p i := by
  obtain ⟨es, w', hrun, hexec⟩ := h
  exact ⟨e :: es, w', .cons ⟨he, hc⟩ hs hrun, hexec⟩

theorem exists_fits (pool : BinaryPool) (op : Op) (rand : Nat) : ∃ d : Draw, d.rand = rand ∧ d.Fits pool op := by
  cases op with
  | sendDataChannelMessage label minSize maxSize =>
    exact ⟨⟨rand, CData.toInt (minSize - 48), 0, 0, ⟨[], "", false, false⟩⟩, rfl,
      fun hle => ⟨Int.le_refl _, hle⟩, pool.nonempty⟩
  | _ => exact ⟨⟨rand, 0, 0, 0, ⟨[], "", false, false⟩⟩, rfl, trivial⟩

theorem exists_drawable (env : Env) {w : World n} {p : PlayerPath} {i : Fin n} {op : Op}
    (h : (w.info p i).current = some op) (rand : Nat) : ∃ d : Draw, d.rand = rand ∧ Drawable env w p i d := by
  obtain ⟨d, hrand, hfits⟩ := exists_fits env.pool op rand
  exact ⟨d, hrand, by rw [Drawable, h]; exact hfits⟩

theorem executes_of_posted (env : Env) {w : World n} {p : PlayerPath} {i : Fin n} {op : Op}
    (hrun : w.stopped = false) (hposted : 0 < (w.info p i).posted)
    (hop : (w.info p i).current = some op) (hawake : op.isSleep = false) : Executes env w p i := by
  obtain ⟨d, -, hd⟩ := exists_drawable env hop 0
  exact ⟨d, op, ⟨hrun, hposted, hd⟩, hop, hawake⟩

/-- An `OnNext` that finds a sleep does nothing else. -/
theorem onNext_sleep (env : Env) {w : World n} {p : PlayerPath} {i : Fin n} {d : Draw} {lo hi ms : Int}
    (hop : (w.info p i).current = some (.sleep lo hi)) (hms : Op.sleepMs d.rand lo hi = some ms) :
    ∃ v, step env w (.onNext p i d) = .ok v ∧ v.stopped = w.stopped ∧
      v.info p i = (w.info p i).step (.onNext ms) := by
  have htaken := info_modifyInfo w p p i i ClientInfo.takePosted
  rw [if_pos ⟨rfl, rfl⟩] at htaken
  have hop' : (w.info p i).takePosted.current = some (.sleep lo hi) := hop
  let u : World n :=
    { w.modifyInfo p i ClientInfo.takePosted with
      executed := w.executed ++ [⟨p, i, (w.info p i).opIndex, .sleep lo hi⟩] }
  have hu : u.info p i = (w.info p i).takePosted := htaken
  refine ⟨u.modifyInfo p i (ClientInfo.sleep ms), ?_, rfl, ?_⟩
  · change w.onNext env p i d = _
    rw [onNext]
    dsimp only
    rw [htaken, hop']
    simp only [operate, hms, Op.isSleep, if_true]
    rfl
  · rw [info_modifyInfo, if_pos ⟨rfl, rfl⟩, hu]
    exact (onNext_of_asleep hop rfl ms).symm

section Sub

variable {env : Env} {w : World n} {p : PlayerPath} {i : Fin n} {data : List Op}

theorem SubClient.opIndex_cases {c : ClientInfo} (h : SubClient data c) :
    c.opIndex = 0 ∨ c.opIndex = 1 := by
  have hindex := h.inProgram.opIndex
  rw [h.program.length] at hindex
  omega

theorem SubClient.asleep {c : ClientInfo} (h : SubClient data c) (hi : c.opIndex = 0) :
    ∃ lo hi, c.current = some (.sleep lo hi) ∧ ∀ rand, (Op.sleepMs rand lo hi).isSome = true := by
  obtain ⟨lo, hi', op, rfl, hms, -⟩ := h.program
  refine ⟨lo, hi', ?_, hms⟩
  rw [current, h.inProgram.data, hi]
  rfl

theorem SubClient.awake {c : ClientInfo} (h : SubClient data c) (hi : c.opIndex = 1) :
    ∃ op, c.current = some op ∧ op.isSleep = false := by
  obtain ⟨lo, hi', op, rfl, -, hawake, -⟩ := h.program
  refine ⟨op, ?_, hawake⟩
  rw [current, h.inProgram.data, hi]
  rfl

/-- The other operation of a sub-scenario comes next. -/
theorem SubClient.next_opIndex {c : ClientInfo} (h : SubClient data c) :
    c.next.opIndex = 1 - c.opIndex := by
  have hlen := h.program.length
  have hindex := h.inProgram.opIndex
  rw [next, if_neg (by simp [h.running]), h.inProgram.data, hlen]
  split
  next =>
    simp only [doNext, h.inProgram.loopOpIndex]
    omega
  next =>
    simp only [doNext]
    omega

theorem willExecute_awake (hrun : w.stopped = false) (h : SubClient data (w.info p i))
    (hi : (w.info p i).opIndex = 1) (hposted : 0 < (w.info p i).posted) : WillExecute env w p i := by
  obtain ⟨op, hop, hawake⟩ := h.awake hi
  exact ⟨[], w, .nil w, executes_of_posted env hrun hposted hop hawake⟩

variable (env) in
/-- The handler of an expired sleep moves on. -/
theorem sleepReady_moves (hrun : w.stopped = false) (h : SubClient data (w.info p i))
    (hready : 0 < (w.info p i).timer.ready) :
    ∃ v, (machine env).enabled w (.sleepReady p i) ∧ step env w (.sleepReady p i) = .ok v ∧
      v.stopped = false ∧ SubClient data (v.info p i) ∧
      (v.info p i).opIndex = 1 - (w.info p i).opIndex ∧ 0 < (v.info p i).posted := by
  have hinfo := info_modifyInfo w p p i i fun c => ClientInfo.next { c with timer := c.timer.takeReady }
  rw [if_pos ⟨rfl, rfl⟩] at hinfo
  have hsub : SubClient data { w.info p i with timer := (w.info p i).timer.takeReady } :=
    ⟨h.program, ⟨h.inProgram.data, h.inProgram.loopOpIndex, h.inProgram.opIndex⟩, h.running⟩
  refine ⟨_, ⟨hrun, hready⟩, rfl, hrun, ?_, ?_, ?_⟩
  · rw [hinfo]
    exact h.step (e := .sleepReady) (by simp) (by simp)
  · rw [hinfo]
    exact hsub.next_opIndex
  · rw [hinfo, (next_of_running hsub.running).1]
    exact Nat.succ_pos _

variable (env) in
theorem sleepExpired_moves (hrun : w.stopped = false) (h : SubClient data (w.info p i))
    (hwaiting : 0 < (w.info p i).timer.waiting) :
    ∃ v, (machine env).enabled w (.sleepExpired p i) ∧ step env w (.sleepExpired p i) = .ok v ∧
      v.stopped = false ∧ SubClient data (v.info p i) ∧
      (v.info p i).opIndex = (w.info p i).opIndex ∧ 0 < (v.info p i).timer.ready := by
  have hinfo := info_modifyInfo w p p i i fun c => { c with timer := c.timer.expire }
  rw [if_pos ⟨rfl, rfl⟩] at hinfo
  refine ⟨_, ⟨hrun, hwaiting⟩, rfl, hrun, ?_, ?_, ?_⟩
  · rw [hinfo]
    exact h.step (e := .sleepExpired) (by simp) (by simp)
  · rw [hinfo]
  · rw [hinfo, SteadyTimer.expire_ready]
    omega

/-- A started sub-scenario always has another operation to come: first behind
its sleep, and from its operation on by way of the sleep. -/
theorem willExecute_ready_first (hrun : w.stopped = false) (h : SubClient data (w.info p i))
    (hi : (w.info p i).opIndex = 0) (hready : 0 < (w.info p i).timer.ready) : WillExecute env w p i := by
  obtain ⟨v, he, hs, hrun', h', hi', hposted⟩ := sleepReady_moves env hrun h hready
  rw [hi] at hi'
  exact (willExecute_awake hrun' h' hi' hposted).before he trivial hs

theorem willExecute_posted_first (hrun : w.stopped = false) (h : SubClient data (w.info p i))
    (hi : (w.info p i).opIndex = 0) (hposted : 0 < (w.info p i).posted) : WillExecute env w p i := by
  obtain ⟨lo, hi', hop, hms⟩ := h.asleep hi
  obtain ⟨d, hrand, hd⟩ := exists_drawable env hop 0
  obtain ⟨ms, hms⟩ := Option.isSome_iff_exists.mp (hms d.rand)
  obtain ⟨v, hs, hstopped, hinfo⟩ := onNext_sleep env hop hms
  have he : (machine env).enabled w (.onNext p i d) := ⟨hrun, hposted, hd⟩
  have h' : SubClient data (v.info p i) := hinfo ▸ h.step (by simp) (by simp)
  have hstep : (w.info p i).step (.onNext ms) = (w.info p i).takePosted.sleep ms :=
    onNext_of_asleep hop rfl ms
  rw [hstep] at hinfo
  have hwaiting : 0 < (v.info p i).timer.waiting := by
    rw [hinfo]
    exact Nat.succ_pos _
  obtain ⟨u, he', hs', hrun', h', hi', hready⟩ :=
    sleepExpired_moves env (hstopped.trans hrun) h' hwaiting
  have hfirst : (u.info p i).opIndex = 0 := by
    rw [hi', hinfo]
    exact hi
  exact ((willExecute_ready_first hrun' h' hfirst hready).before he' trivial hs').before he trivial hs

theorem willExecute_ready (hrun : w.stopped = false) (h : SubClient data (w.info p i))
    (hready : 0 < (w.info p i).timer.ready) : WillExecute env w p i := by
  rcases h.opIndex_cases with hi | hi
  · exact willExecute_ready_first hrun h hi hready
  · obtain ⟨v, he, hs, hrun', h', hi', hposted⟩ := sleepReady_moves env hrun h hready
    rw [hi] at hi'
    exact (willExecute_posted_first hrun' h' hi' hposted).before he trivial hs

theorem willExecute_waiting (hrun : w.stopped = false) (h : SubClient data (w.info p i))
    (hwaiting : 0 < (w.info p i).timer.waiting) : WillExecute env w p i := by
  obtain ⟨v, he, hs, hrun', h', -, hready⟩ := sleepExpired_moves env hrun h hwaiting
  exact (willExecute_ready hrun' h' hready).before he trivial hs

theorem willExecute_posted (hrun : w.stopped = false) (h : SubClient data (w.info p i))
    (hposted : 0 < (w.info p i).posted) : WillExecute env w p i := by
  rcases h.opIndex_cases with hi | hi
  · exact willExecute_posted_first hrun h hi hposted
  · exact willExecute_awake hrun h hi hposted

/-- A sub-scenario with a handler under way has another operation to come. -/
theorem willExecute_sub (hrun : w.stopped = false) (h : SubClient data (w.info p i))
    (hpending : (w.info p i).pending ≠ 0) : WillExecute env w p i := by
  have hcases : 0 < (w.info p i).posted ∨ 0 < (w.info p i).timer.waiting ∨
      0 < (w.info p i).timer.ready := by
    rw [ClientInfo.pending] at hpending
    omega
  rcases hcases with hposted | hwaiting | hready
  · exact willExecute_posted hrun h hposted
  · exact willExecute_waiting hrun h hwaiting
  · exact willExecute_ready hrun h hready

end Sub

/-! ## When a pause is complete -/

theorem pauseAll_info (w : World n) (p : PlayerPath) (i : Fin n) :
    w.pauseAll.info p i = if p = [] then (w.info p i).pause else w.info p i :=
  info_modifyAll w p i ClientInfo.pause

theorem pauseAll_willExecute {cfg : ZakuroConfig} (env : Env) {w : World n} (h : Tree cfg w)
    (hrun : w.stopped = false) {p : PlayerPath} {i : Fin n}
    (hp : p = [] ∧ 0 < (w.info p i).posted ∧ ¬ (w.info p i).Asleep ∨
      p ≠ [] ∧ (w.info p i).pending ≠ 0) : WillExecute env w.pauseAll p i := by
  have hinfo := pauseAll_info w p i
  rcases hp with ⟨rfl, hposted, hawake⟩ | ⟨hp, hpending⟩
  · rw [if_pos rfl] at hinfo
    obtain ⟨op, hop, -⟩ := h.main_current i
    have hsleep : op.isSleep = false := by
      rw [← Bool.not_eq_true]
      exact fun hs => hawake ⟨op, hop, hs⟩
    refine ⟨[], _, .nil _, executes_of_posted env hrun ?_ ?_ hsleep⟩
    · rw [hinfo]
      exact hposted
    · rw [hinfo]
      exact hop
  · rw [if_neg hp] at hinfo
    rcases h.sub p i hp with h0 | ⟨data, hsub⟩
    · exact absurd h0 hpending
    · exact willExecute_sub hrun (hinfo ▸ hsub) (hinfo ▸ hpending)

/-- After `PauseAll` no operation but sleeps is executed until the next call of
`ResumeAll` or `Play` exactly when no `OnNext` of the main player is posted for
another operation, and no sub-scenario has a handler under way. -/
theorem pauseAll_silent_iff (env : Env) (cfg : ZakuroConfig) {w : World n} {es : List (Event n)}
    (h : Machine.Run ((machine env).restrict fun _ => Unplayed) (run n cfg) es w)
    (hrun : w.stopped = false) :
    (∀ es' w', Machine.Run ((machine env).restrict fun _ => Unresumed) w.pauseAll es' w' →
      ∀ p i d op, (machine env).enabled w' (.onNext p i d) → (w'.info p i).current = some op →
        op.isSleep = true) ↔
    (∀ i, 0 < (w.info [] i).posted → (w.info [] i).Asleep) ∧
      ∀ p i, p ≠ [] → (w.info p i).pending = 0 := by
  have htree := runs_tree h
  constructor
  · intro hsilent
    have hnever : ∀ p i, ¬ WillExecute env w.pauseAll p i := by
      rintro p i ⟨es', w', hrun', d, op, he, hop, hawake⟩
      simp [hsilent es' w' hrun' p i d op he hop] at hawake
    constructor
    · intro i hposted
      by_contra hawake
      exact hnever [] i (pauseAll_willExecute env htree hrun (.inl ⟨rfl, hposted, hawake⟩))
    · intro p i hp
      by_contra hpending
      exact hnever p i (pauseAll_willExecute env htree hrun (.inr ⟨hp, hpending⟩))
  · rintro ⟨hmain, hsub⟩ es' w' hrun' p i d op he hop
    have hhushed : AllHushed w.pauseAll := by
      constructor
      · intro i
        rw [pauseAll_info, if_pos rfl]
        exact ⟨rfl, hmain i⟩
      · intro p i hp
        rw [pauseAll_info, if_neg hp]
        exact hsub p i hp
    have hend : AllHushed w' := by
      refine hrun'.invariant (I := AllHushed) ?_ hhushed
      rintro v e v' hv ⟨⟨-, hq⟩, hc⟩ hs
      exact hv.step hq hc hs
    exact hend.finds_sleep he.2.1 hop

/-- One client that speaks in the background. -/
def voiceConfig : ZakuroConfig where
  fakeAudioCapture := false
  noAudioDevice := false
  scenario := .standard
  duration := ⟨true, 0⟩
  repeatInterval := ⟨true, 0⟩
  firstWaitMs := fun _ => 0
  channels := []

def voicePath : PlayerPath := ["scenario-voice-number-client"]

/-- Where the programs play no sub-scenario, none has a handler. -/
theorem runs_no_sub {env : Env} {cfg : ZakuroConfig} {w : World n} {es : List (Event n)}
    (hprogram : ∀ i, ∀ op ∈ cfg.program i, ∀ name data l, op ≠ .playSubScenario name data l)
    (h : Machine.Run ((machine env).restrict fun _ => Unplayed) (run n cfg) es w) :
    ∀ p i, p ≠ [] → (w.info p i).pending = 0 := by
  have hnone : Tree cfg w ∧ ∀ p i, p ≠ [] → (w.info p i).pending = 0 := by
    refine h.invariant (I := fun w => Tree cfg w ∧ ∀ p i, p ≠ [] → (w.info p i).pending = 0) ?_
      ⟨run_tree cfg, fun p i hp => ?_⟩
    · rintro v e v' ⟨htree, hv⟩ ⟨⟨-, he⟩, hc⟩ hs
      refine ⟨step_tree htree he hc hs, fun p i hp => sub_pending_step hp (hv p i hp) he hs ?_⟩
      rintro q d name data l rfl hop
      by_cases hq : q = []
      · subst hq
        obtain ⟨op, hop', hmem⟩ := htree.main_current i
        obtain rfl := Option.some.inj (hop'.symm.trans hop)
        exact hprogram i.val _ hmem name data l rfl
      · exact pending_of_posted he.1 (hv q i hq)
    · rw [run_info, if_neg hp]
      rfl
  exact hnone.2

/-- Two clients that stay connected, and send and say nothing. -/
def idleConfig : ZakuroConfig where
  fakeAudioCapture := true
  noAudioDevice := true
  scenario := .standard
  duration := ⟨true, 0⟩
  repeatInterval := ⟨true, 0⟩
  firstWaitMs := fun i => 1000 * i
  channels := []

/-- One client is connected, with its loop before it, and the other one waits. -/
def idleEvents (i j : Fin n) : List (Event n) :=
  [.onNext [] j zeroDraw, .onNext [] i zeroDraw, .sleepExpired [] i, .sleepReady [] i, .onNext [] i zeroDraw]

theorem pauseAll_silent_idle : ∃ w : World 2,
    Machine.Run ((machine quietEnv).restrict fun _ => Unplayed) (run 2 idleConfig) (idleEvents 0 1) w ∧
      w.stopped = false ∧
      ∀ es' w', Machine.Run ((machine quietEnv).restrict fun _ => Unresumed) w.pauseAll es' w' →
        ∀ p i d op, (machine quietEnv).enabled w' (.onNext p i d) → (w'.info p i).current = some op →
          op.isSleep = true := by
  obtain ⟨w, hw, hp⟩ := Machine.exec_exists ((machine quietEnv).restrict fun _ => Unplayed) (run 2 idleConfig)
    (idleEvents 0 1) (fun w => !w.stopped && decide (∀ i, 0 < (w.info [] i).posted → (w.info [] i).Asleep))
    (by decide +kernel)
  simp only [Bool.and_eq_true, Bool.not_eq_true', decide_eq_true_eq] at hp
  refine ⟨w, hw, hp.1, (pauseAll_silent_iff quietEnv idleConfig hw hp.1).mpr ⟨hp.2, runs_no_sub ?_ hw⟩⟩
  intro i op hop
  have hprogram : idleConfig.program i = [.sleep (1000 * i) (1000 * i), .reconnect, .sleep 10000 10000] := rfl
  rw [hprogram] at hop
  simp only [List.mem_cons, List.not_mem_nil, or_false] at hop
  rcases hop with rfl | rfl | rfl <;> simp

/-- Until the client waits in the main scenario and in the sub-scenario. -/
def voiceEvents (i : Fin n) : List (Event n) :=
  [.onNext [] i zeroDraw, .sleepExpired [] i, .sleepReady [] i, .onNext [] i zeroDraw,
    .onNext [] i zeroDraw, .onNext voicePath i zeroDraw, .onNext [] i zeroDraw]

def afterPause (i : Fin n) : List (Event n) :=
  [.sleepExpired voicePath i, .sleepAborted [] i, .sleepReady voicePath i, .onNext voicePath i zeroDraw]

theorem pauseAll_not_silent : ∃ w w' : World 1,
    Machine.Run ((machine quietEnv).restrict fun _ => Unplayed) (run 1 voiceConfig) (voiceEvents 0) w ∧
      w.stopped = false ∧
      Machine.Run ((machine quietEnv).restrict fun _ => Unresumed) w.pauseAll (afterPause 0) w' ∧
      (awake (w.opsOf voicePath 0)).length = 0 ∧ (awake (w'.opsOf voicePath 0)).length = 1 := by
  obtain ⟨w, hw, hp⟩ := Machine.exec_exists ((machine quietEnv).restrict fun _ => Unplayed)
    (run 1 voiceConfig) (voiceEvents 0) (fun w => !w.stopped && (awake (w.opsOf voicePath 0)).length == 0 &&
      (((machine quietEnv).restrict fun _ => Unresumed).exec w.pauseAll (afterPause 0)).any
        fun w' => (awake (w'.opsOf voicePath 0)).length == 1) (by decide +kernel)
  simp only [Bool.and_eq_true, Bool.not_eq_true', beq_iff_eq] at hp
  obtain ⟨w', hw', hp'⟩ := Machine.exec_exists _ _ _ _ hp.2
  exact ⟨w, w', hw, hp.1.1, hw', hp.1.2, by simpa using hp'⟩

end World
