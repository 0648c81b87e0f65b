import Zakuro.ExitCallback
import Zakuro.ScenarioSilence

/-!
# The end of an instance

A program with a duration and without a repeat interval ends in `OP_EXIT`, but
the player goes on behind it like behind any other operation: to the loop of the
program. Only the event loop can keep the client from starting over, and it does
when the callback of this very `OP_EXIT` is the last one and runs at once.
-/

namespace VirtualClient

variable {κ : Type}

/-- `Close` calls the function that it is given before it returns. -/
def AnswersAtOnce (s : VirtualClient κ) : Prop :=
  s.closing = true ∧ s.onClose ≠ none ∨ s.closing = false ∧ s.signaling = none

instance (s : VirtualClient κ) : Decidable (AnswersAtOnce s) := by
  unfold AnswersAtOnce
  infer_instance

/-- `Close` with a function calls it at once, or calls none. -/
theorem close_answered {s t : VirtualClient κ} {f : κ} (h : close (some f) s = .ok t) :
    (AnswersAtOnce s ∧ answered t.log = answered s.log ++ [f]) ∨
      (¬ AnswersAtOnce s ∧ answered t.log = answered s.log) := by
  obtain ⟨hc, ho, rfl⟩ | ⟨m, hc, hm, rfl⟩ | ⟨g, message, hg, hnow, rfl⟩ := close_cases h
  · refine .inr ⟨?_, rfl⟩
    rintro (⟨-, hne⟩ | ⟨hopen, -⟩)
    · exact hne ho
    · simp [hc] at hopen
  · refine .inr ⟨?_, by simp⟩
    rintro (⟨hclosing, -⟩ | ⟨-, hnone⟩)
    · simp [hc] at hclosing
    · simp [hm] at hnone
  · obtain rfl : f = g := Option.some.inj hg
    exact .inl ⟨hnow, by simp⟩

end VirtualClient

/-! ## The program -/

theorem List.getElem?_last_of_notMem {α : Type} {pre : List α} {x y z : α} {k : Nat}
    (hpre : z ∉ pre) (hx : x ≠ z) (hy : y ≠ z) (h : (pre ++ [x, y, z])[k]? = some z) :
    k + 1 = (pre ++ [x, y, z]).length := by
  rcases Nat.lt_or_ge k pre.length with hk | hk
  · rw [List.getElem?_append_left hk] at h
    exact absurd (List.mem_of_getElem? h) hpre
  · rw [List.getElem?_append_right hk] at h
    rw [List.length_append]
    match hj : k - pre.length, h with
    | 0, h => exact absurd (Option.some.inj h) hx
    | 1, h => exact absurd (Option.some.inj h) hy
    | 2, _ =>
      simp only [List.length_cons, List.length_nil]
      omega

theorem List.eq_nil_of_append_singleton {α : Type} {xs ops ops' : List α} {x z : α} (hxs : z ∉ xs)
    (h : xs ++ [x] = ops ++ z :: ops') : ops' = [] := by
  rcases List.eq_nil_or_concat ops' with hnil | ⟨ys, y, rfl⟩
  · exact hnil
  · rw [List.concat_eq_append, ← List.cons_append, ← List.append_assoc] at h
    have hpre := (List.append_inj' h rfl).1
    exact absurd (hpre ▸ List.mem_append_right ops (List.mem_cons_self)) hxs

namespace ZakuroConfig

/-- The clients are to leave after some time, once and for all. -/
def Leaving (cfg : ZakuroConfig) : Prop :=
  cfg.duration.isZero = false ∧ cfg.repeatInterval.isZero = true

theorem opening_exit (cfg : ZakuroConfig) : .exit ∉ cfg.opening := by
  simp only [opening, dcsData, List.cons_append, List.mem_cons, reduceCtorEq, false_or,
    List.mem_append, List.mem_map, not_or]
  refine ⟨by simp, ?_⟩
  split
  · simp
  · simp [voiceScenario]

/-- `OP_EXIT` comes last, and the loop begins with the sleep for the duration. -/
theorem Leaving.program_exit {cfg : ZakuroConfig} (h : cfg.Leaving) {i k : Nat}
    (hk : (cfg.program i)[k]? = some .exit) : k + 1 = (cfg.program i).length ∧
      (cfg.program i)[cfg.loopIndex]? = some (.sleep cfg.duration.ms cfg.duration.ms) := by
  obtain ⟨hduration, hrepeat⟩ := h
  by_cases hreconnect : cfg.Reconnecting
  · rw [program, data_reconnecting hreconnect] at hk
    have hmem := List.mem_of_getElem? hk
    simp [reconnectScenario] at hmem
  · have hadd : cfg.addReconnectScenario =
        [.sleep cfg.duration.ms cfg.duration.ms, .disconnect, .exit] := by
      rw [addReconnectScenario, if_neg (by simp [hduration]), if_pos hrepeat]
      rfl
    rw [program, data_standard hreconnect, hadd, ← List.cons_append] at hk
    rw [program, loopIndex, data_standard hreconnect, hadd, ← List.cons_append]
    have hpre : Op.exit ∉ Op.sleep (cfg.firstWaitMs i) (cfg.firstWaitMs i) :: cfg.opening := by
      simpa using cfg.opening_exit
    refine ⟨List.getElem?_last_of_notMem hpre (by simp) (by simp) hk, ?_⟩
    rw [List.getElem?_append_right (by simp), List.length_cons, Nat.sub_self]
    rfl

end ZakuroConfig

namespace World

open ScenarioPlayer ClientInfo
open VirtualClient (answered AnswersAtOnce)

variable {n : Nat}

/-! ## The step of OP_EXIT -/

def AtExit (c : ClientInfo) : Prop := c.current = some .exit

instance (c : ClientInfo) : Decidable (AtExit c) :=
  match h : c.current with
  | some .exit => .isTrue h
  | none | some (.sleep _ _) | some (.playSubScenario _ _ _) | some .playVoiceNumberClient
  | some (.sendDataChannelMessage _ _ _) | some .disconnect | some .reconnect =>
    .isFalse (by simp [AtExit, h])

/-- The callback of the `OP_EXIT` runs at once, and all others have run. -/
def ExitCompletes (w : World n) (i : Fin n) : Prop :=
  AnswersAtOnce (w.vcs i) ∧ ∀ j, j ≠ i → (w.info [] j).exit = true

instance (w : World n) (i : Fin n) : Decidable (ExitCompletes w i) := by
  unfold ExitCompletes
  infer_instance

/-- What `OP_EXIT` does to the `exit` flags. -/
theorem exit_flags {env : Env} {w w' : World n} {i : Fin n} {d : Draw} (h : ExitState w)
    (hexit : AtExit (w.info [] i)) (hs : step env w (.onNext [] i d) = .ok w') :
    (∀ j, j ≠ i → (w'.info [] j).exit = (w.info [] j).exit) ∧
      ((w'.info [] i).exit = true ↔ (w.info [] i).exit = true ∨ AnswersAtOnce (w.vcs i)) := by
  obtain ⟨op, u, v, hop, hbefore, hv, hbehind⟩ := onNext_calm hs
  obtain rfl : op = .exit := Option.some.inj (hop.symm.trans hexit)
  have hu : ExitState u := hbefore.exitState h
  have hclient : u.client env i (.close (some ([], i))) = .ok v := hv
  rw [client] at hclient
  split at hclient
  next vc hvc =>
    obtain rfl : u.react i vc = v := by simpa using hclient
    obtain ⟨hreact, hlog, hother⟩ := react_exitState hu (VirtualClient.step_log _ hvc) fun k hk => by
      refine (VirtualClient.step_knows _ hvc hk).elim (hu.named i k) fun heq => ?_
      injection heq with heq
      exact (Option.some.inj heq).symm
    refine ⟨fun j hj => ?_, ?_⟩
    · rw [hbehind.exit, hother j hj, hbefore.exit]
    · rw [hbehind.exit, hreact.exited, hlog, h.exited, ← hbefore.vcs]
      rcases VirtualClient.close_answered hvc with ⟨hnow, hanswered⟩ | ⟨hlater, hanswered⟩
      · simp [hanswered, hnow]
      · simp [hanswered, hlater]
  next => simp at hclient

/-- `OP_EXIT` stops the event loop exactly when it completes. -/
theorem exit_stopped_iff {env : Env} {w w' : World n} {i : Fin n} {d : Draw} (h : ExitState w)
    (h' : ExitState w') (hrun : w.stopped = false) (hexit : AtExit (w.info [] i))
    (hs : step env w (.onNext [] i d) = .ok w') : w'.stopped = true ↔ ExitCompletes w i := by
  obtain ⟨hother, hown⟩ := exit_flags h hexit hs
  have hstops : w'.stopped = true ↔ ∀ j, (w'.info [] j).exit = true := h'.stops
  rw [hstops]
  constructor
  · intro hall
    have hothers : ∀ j, j ≠ i → (w.info [] j).exit = true := fun j hj => hother j hj ▸ hall j
    refine ⟨(hown.mp (hall i)).resolve_left fun hi => ?_, hothers⟩
    have hstop : w.stopped = true := h.stops.mpr fun j =>
      if hj : j = i then hj ▸ hi else hothers j hj
    simp [hrun] at hstop
  · rintro ⟨hnow, hothers⟩ j
    by_cases hj : j = i
    · subst hj
      exact hown.mpr (.inr hnow)
    · rw [hother j hj]
      exact hothers j hj

theorem run_of_stopped {env : Env} {C : World n → Event n → Prop} {w w' : World n} {es : List (Event n)}
    (hstop : w.stopped = true) (h : Machine.Run ((machine env).restrict C) w es w') : w' = w := by
  cases h with
  | nil => rfl
  | cons he _ _ =>
    have hrun : w.stopped = false := he.1.1
    simp [hstop] at hrun

/-! ## Behind OP_EXIT -/

/-- A client of the main player is never paused when nobody pauses it. -/
theorem runs_running {env : Env} {cfg : ZakuroConfig} {w : World n} {es : List (Event n)}
    (h : Machine.Run ((machine env).restrict fun _ => Unattended) (run n cfg) es w) (i : Fin n) :
    (w.info [] i).paused = false := by
  refine run_slot (I := fun s => s.info.paused = false) (C := fun _ e => e ≠ .pause) [] i
    (fun s e hs _ he => paused_step hs he) ?_ h (run_following cfg i).running
  rintro v e u hc hu rfl
  rw [view_pause hu] at hc
  exact hc

/-- The client is back in the loop of its program, and has an `OnNext` to come. -/
theorem exit_wraps {env : Env} {cfg : ZakuroConfig} (hcfg : cfg.Leaving) {w w' : World n} {i : Fin n}
    {d : Draw} (htree : Tree cfg w) (hpaused : (w.info [] i).paused = false)
    (hexit : AtExit (w.info [] i)) (hs : step env w (.onNext [] i d) = .ok w') :
    0 < (w'.info [] i).posted ∧
      (w'.info [] i).current = some (.sleep cfg.duration.ms cfg.duration.ms) := by
  have hmain := htree.main i
  have hindex : (cfg.program i.val)[(w.info [] i).opIndex]? = some .exit := by
    rw [← hmain.data]
    exact hexit
  obtain ⟨hend, hloop⟩ := hcfg.program_exit hindex
  have hlast : (w.info [] i).opIndex + 1 = (w.info [] i).data.length := hmain.data ▸ hend
  have hcontrol : (w'.info [] i).control =
      doNext { (w.info [] i).control.takePosted with opIndex := (w.info [] i).loopOpIndex } := by
    rw [step_control hs [] i, view, if_pos ⟨rfl, rfl⟩, viewed, ClientInfo.step,
      ClientInfo.onNext_of_awake (c := (w.info [] i).control) hexit rfl]
    exact next_of_end (c := (w.info [] i).control.takePosted) hpaused hlast
  constructor
  · have hposted : (w'.info [] i).posted = (w.info [] i).posted - 1 + 1 :=
      congrArg ClientInfo.posted hcontrol
    omega
  · have hdata : (w'.info [] i).control.data = (w.info [] i).control.data := by
      rw [hcontrol]
      rfl
    have hopIndex : (w'.info [] i).control.opIndex = (w.info [] i).loopOpIndex :=
      congrArg ClientInfo.opIndex hcontrol
    have hprogram : (w.info [] i).control.data = cfg.program i.val := hmain.data
    rw [← control_current, current, hdata, hopIndex, hprogram, hmain.loopOpIndex]
    exact hloop

/-- A posted `OnNext` that finds a sleep can run. -/
theorem sleep_runs (env : Env) {w : World n} {i : Fin n} {ms : Int} (hrun : w.stopped = false)
    (hposted : 0 < (w.info [] i).posted) (hop : (w.info [] i).current = some (.sleep ms ms)) :
    ∃ es w', Machine.Run ((machine env).restrict fun _ => Unattended) w es w' ∧
      w'.opsOf [] i = w.opsOf [] i ++ [.sleep ms ms] := by
  obtain ⟨d, -, hd⟩ := exists_drawable env hop 0
  obtain ⟨waited, hwaited⟩ := Op.sleepMs_fixed d.rand ms
  obtain ⟨v, hs, -, -⟩ := onNext_sleep env hop hwaited
  refine ⟨[.onNext [] i d], v, .single ⟨⟨hrun, hposted, hd⟩, trivial⟩ hs, ?_⟩
  obtain ⟨op, hop', hexec⟩ := onNext_executed hs
  obtain rfl := Option.some.inj (hop.symm.trans hop')
  rw [opsOf_append hexec, if_pos ⟨rfl, rfl⟩]

/-- Nothing more is executed for the client exactly when its `OP_EXIT` completes. -/
theorem exit_last_iff {env : Env} (hn : 0 < n) {cfg : ZakuroConfig} (hcfg : cfg.Leaving) {w w' : World n}
    {es : List (Event n)}
    (h : Machine.Run ((machine env).restrict fun _ => Unattended) (run n cfg) es w) {i : Fin n} {d : Draw}
    (he : (machine env).enabled w (.onNext [] i d)) (hexit : AtExit (w.info [] i))
    (hs : step env w (.onNext [] i d) = .ok w') :
    (∀ es' w'', Machine.Run ((machine env).restrict fun _ => Unattended) w' es' w'' →
      w''.opsOf [] i = w'.opsOf [] i) ↔ ExitCompletes w i := by
  obtain ⟨htree, hstate⟩ := runs_exitState hn h
  have hunattended : Unattended (Event.onNext [] i d) := trivial
  have hstate' : ExitState w' := step_exitState hstate htree he.2 hunattended hs
  have hstopped := exit_stopped_iff hstate hstate' he.1 hexit hs
  rw [← hstopped]
  constructor
  · intro hlast
    by_contra hrun
    rw [Bool.not_eq_true] at hrun
    obtain ⟨hposted, hop⟩ := exit_wraps hcfg htree (runs_running h i) hexit hs
    obtain ⟨es', w'', hrun', hops⟩ := sleep_runs env hrun hposted hop
    have hsame := hlast es' w'' hrun'
    rw [hops] at hsame
    simp at hsame
  · intro hstop es' w'' hrun'
    rw [run_of_stopped hstop hrun']

/-! ## Whole runs -/

/-- Nobody attends to the instance, and each `OP_EXIT` that runs completes. -/
def Completing (w : World n) : Event n → Prop
  | .onNext p i _ => p = [] → AtExit (w.info p i) → ExitCompletes w i
  | e => Unattended e

instance (w : World n) : DecidablePred (Completing w)
  | .onNext p i _ => inferInstanceAs (Decidable (p = [] → AtExit (w.info p i) → ExitCompletes w i))
  | .play _ _ _ | .pauseAll | .resumeAll | .keyClose _ | .keyConnect _ => .isFalse id
  | .sleepExpired _ _ | .sleepReady _ _ | .sleepAborted _ _ | .client _ _ => .isTrue trivial

theorem Completing.unattended {w : World n} {e : Event n} (h : Completing w e) : Unattended e := by
  cases e with
  | onNext p i d => trivial
  | _ => exact h

/-- As long as the event loop runs, no client has executed an exit, and none has
executed anything behind one. -/
structure Ended (w : World n) : Prop where
  running : w.stopped = false → ∀ i, .exit ∉ w.opsOf [] i
  last : ∀ i ops ops', w.opsOf [] i = ops ++ .exit :: ops' → ops' = []

theorem Ended.of_same {w w' : World n} (h : Ended w) (hstopped : w.stopped = false)
    (hops : ∀ i, w'.opsOf [] i = w.opsOf [] i) : Ended w' := by
  constructor
  · intro _ i
    rw [hops]
    exact h.running hstopped i
  · intro i ops ops' heq
    exact h.last i ops ops' ((hops i).symm.trans heq)

theorem step_ended {env : Env} {w w' : World n} {e : Event n} (h : Ended w) (hstate : ExitState w)
    (hstate' : ExitState w') (hrun : w.stopped = false) (hc : Completing w e)
    (hs : step env w e = .ok w') : Ended w' := by
  rcases step_executed hs with ⟨p, i, d, op, rfl, hop, hexec⟩ | ⟨-, hexec⟩
  · by_cases hp : p = []
    · subst hp
      have hnone := h.running hrun
      have hops := opsOf_append hexec []
      have hsplit : ∀ j ops ops', w'.opsOf [] j = ops ++ .exit :: ops' → ops' = [] := by
        intro j ops ops' heq
        rw [hops] at heq
        split at heq
        · exact List.eq_nil_of_append_singleton (hnone j) heq
        · rw [List.append_nil] at heq
          exact h.last j ops ops' heq
      refine ⟨fun hrun' j hmem => ?_, hsplit⟩
      rw [hops, List.mem_append] at hmem
      rcases hmem with hmem | hmem
      · exact hnone j hmem
      · split at hmem
        · obtain rfl : Op.exit = op := by simpa using hmem
          have hstop := (exit_stopped_iff hstate hstate' hrun hop hs).mpr (hc rfl hop)
          simp [hrun'] at hstop
        · simp at hmem
    · refine h.of_same hrun fun j => ?_
      rw [opsOf_append hexec, if_neg (fun hx => hp hx.1), List.append_nil]
  · refine h.of_same hrun fun j => ?_
    rw [opsOf, opsOf, hexec]

theorem run_ended (cfg : ZakuroConfig) : Ended (run n cfg) := by
  have hexecuted : (run n cfg).executed = [] :=
    (foldl_play_same cfg (List.finRange n) (start (fun _ => .init) cfg.audios)).2.2
  have hnil : ∀ i, (run n cfg).opsOf [] i = [] := by
    intro i
    rw [opsOf, hexecuted]
    rfl
  constructor
  · intro _ i
    rw [hnil]
    exact List.not_mem_nil
  · intro i ops ops' heq
    rw [hnil] at heq
    simp at heq

theorem runs_ended {env : Env} (hn : 0 < n) {cfg : ZakuroConfig} {w : World n} {es : List (Event n)}
    (h : Machine.Run ((machine env).restrict Completing) (run n cfg) es w) : Ended w := by
  have hstart : Tree cfg (run n cfg) ∧ ExitState (run n cfg) ∧ Ended (run n cfg) :=
    ⟨run_tree cfg, run_exitState hn cfg, run_ended cfg⟩
  refine (h.invariant (I := fun w => Tree cfg w ∧ ExitState w ∧ Ended w) ?_ hstart).2.2
  rintro v e v' ⟨htree, hstate, hended⟩ ⟨⟨hrun, he⟩, hc⟩ hs
  have hstate' := step_exitState hstate htree he hc.unattended hs
  exact ⟨step_tree htree he hc.unattended.unplayed hs, hstate', step_ended hended hstate hstate' hrun hc hs⟩

/-- In an instance that leaves and that nobody attends to, the event loop is
stopped exactly when the callbacks of all clients have run, an `OP_EXIT` is the
last operation of its client exactly when it completes, and so it is in every
run in which each of them does. -/
theorem exit_terminal_iff (env : Env) (hn : 0 < n) (cfg : ZakuroConfig) (hcfg : cfg.Leaving) :
    (∀ es w, Machine.Run ((machine env).restrict fun _ => Unattended) (run n cfg) es w →
      (w.stopped = true ↔ ∀ j, ([], j) ∈ answered (w.vcs j).log) ∧
      ∀ i d w', (machine env).enabled w (.onNext [] i d) → AtExit (w.info [] i) →
        step env w (.onNext [] i d) = .ok w' →
        ((∀ es' w'', Machine.Run ((machine env).restrict fun _ => Unattended) w' es' w'' →
          w''.opsOf [] i = w'.opsOf [] i) ↔ ExitCompletes w i)) ∧
    ∀ es w, Machine.Run ((machine env).restrict Completing) (run n cfg) es w →
      ∀ i ops ops', w.opsOf [] i = ops ++ .exit :: ops' → ops' = [] := by
  constructor
  · intro es w h
    obtain ⟨-, hstate⟩ := runs_exitState hn h
    have hstops : w.stopped = true ↔ ∀ j, (w.info [] j).exit = true := hstate.stops
    refine ⟨?_, fun i d w' he hexit hs => exit_last_iff hn hcfg h he hexit hs⟩
    rw [hstops]
    exact forall_congr' hstate.exited
  · intro es w h
    exact (runs_ended hn h).last

/-- Half a second for each client, and a whole one between two of them. -/
def leavingConfig : ZakuroConfig where
  fakeAudioCapture := true
  noAudioDevice := false
  scenario := .standard
  duration := ⟨false, 500⟩
  repeatInterval := ⟨true, 0⟩
  firstWaitMs := fun i => 1000 * i
  channels := []

def sleeps (i : Fin n) : List (Event n) := [.onNext [] i zeroDraw, .sleepExpired [] i, .sleepReady [] i]

/-- The client leaves, and its session ends before `OP_EXIT` runs. -/
def leavingEvents (i : Fin n) : List (Event n) :=
  sleeps i ++ [.onNext [] i zeroDraw] ++ sleeps i ++
    [.onNext [] i zeroDraw, .client i (.disconnected 0 "closed"), .onNext [] i zeroDraw]

theorem exit_terminal_single : ∃ w : World 1,
    Machine.Run ((machine quietEnv).restrict Completing) (run 1 leavingConfig) (leavingEvents 0) w ∧
      w.stopped = true ∧ ([], 0) ∈ answered (w.vcs 0).log ∧
      ∀ ops ops', w.opsOf [] 0 = ops ++ .exit :: ops' → ops' = [] := by
  obtain ⟨w, hw, hstopped⟩ := Machine.exec_exists ((machine quietEnv).restrict Completing)
    (run 1 leavingConfig) (leavingEvents 0) (fun w => w.stopped) (by decide +kernel)
  obtain ⟨hall, hlast⟩ := exit_terminal_iff quietEnv (Nat.zero_lt_one) leavingConfig ⟨rfl, rfl⟩
  have hunattended := hw.weaken fun _ _ hc => Completing.unattended hc
  exact ⟨w, hw, hstopped, (hall _ w hunattended).1.mp hstopped 0, hlast _ w hw 0⟩

/-- Until `OP_EXIT` of a client; the others have not begun. -/
def untilExit (i : Fin n) : List (Event n) :=
  sleeps i ++ [.onNext [] i zeroDraw] ++ sleeps i ++ [.onNext [] i zeroDraw]

/-- The session of the client ends, and the client starts over. -/
def behindExit (i : Fin n) : List (Event n) := .client i (.disconnected 0 "closed") :: sleeps i

def throws {α φ : Type} : Except φ α → Option φ
  | .error f => some f
  | .ok _ => none

/-- The client sleeps again and disconnects again, from a session that it has not. -/
theorem exit_not_terminal : ∃ u w w' : World 2,
    Machine.Run ((machine quietEnv).restrict fun _ => Unattended) (run 2 leavingConfig) (untilExit 0) u ∧
      AtExit (u.info [] 0) ∧
      Machine.Run ((machine quietEnv).restrict fun _ => Unattended) u [.onNext [] 0 zeroDraw] w ∧
      Machine.Run ((machine quietEnv).restrict fun _ => Unattended) w (behindExit 0) w' ∧
      (w'.opsOf [] 0).length = (w.opsOf [] 0).length + 1 ∧
      (machine quietEnv).enabled w' (.onNext [] 0 zeroDraw) ∧
      throws (step quietEnv w' (.onNext [] 0 zeroDraw)) = some (.client .badFunctionCall) := by
  obtain ⟨u, hu, hp⟩ := Machine.exec_exists ((machine quietEnv).restrict fun _ => Unattended)
    (run 2 leavingConfig) (untilExit 0) (fun u => decide (AtExit (u.info [] 0)) &&
      (((machine quietEnv).restrict fun _ => Unattended).exec u [.onNext [] 0 zeroDraw]).any fun w =>
        (((machine quietEnv).restrict fun _ => Unattended).exec w (behindExit 0)).any fun w' =>
          decide ((w'.opsOf [] 0).length = (w.opsOf [] 0).length + 1 ∧
            (machine quietEnv).enabled w' (.onNext [] 0 zeroDraw) ∧
            throws (step quietEnv w' (.onNext [] 0 zeroDraw)) = some (.client .badFunctionCall)))
    (by decide +kernel)
  simp only [Bool.and_eq_true, decide_eq_true_eq] at hp
  obtain ⟨w, w', hw, hw', hend⟩ := Machine.exec_exists_then _ _ _ _ _ hp.2
  exact ⟨u, w, w', hu, hp.1, hw, hw', by simpa using hend⟩

end World
