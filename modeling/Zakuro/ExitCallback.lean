import Zakuro.VirtualClientCallback
import Zakuro.ScenarioTree

/-!
# The callbacks of OP_EXIT

In an instance that nobody attends to, the function that a client has been
given by its `OP_EXIT` is the only one it can call. A client's `exit` flag tells
whether it has, and the event loop is stopped when all of them have.
-/

namespace VirtualClient

variable {κ : Type}

/-- A function that the client keeps or has called. -/
def Knows (s : VirtualClient κ) (k : κ) : Prop := s.onClose = some k ∨ k ∈ answered s.log

theorem connect_log (s : VirtualClient κ) : s.log <+: (connect s).log := by
  unfold connect
  split
  · exact List.prefix_rfl
  · split <;> exact List.prefix_append _ _

theorem finishClosing_log (s : VirtualClient κ) : s.log <+: (finishClosing s).log := by
  unfold finishClosing
  split
  · split
    · exact connect_log { s with closing := false, needReconnect := false }
    · exact List.prefix_rfl
  · exact List.prefix_rfl

theorem retry_log (s : VirtualClient κ) : s.log <+: (retry s).log := by
  obtain ⟨_, hr⟩ | ⟨_, hr⟩ := retry_eq s
  · have hlog : (retry s).log = s.log := by rw [hr]
    exact hlog ▸ List.prefix_rfl
  · rw [hr]
    exact connect_log { s with needReconnect := false }

theorem finishClosing_answered (s : VirtualClient κ) :
    (finishClosing s).onClose = s.onClose ∧ answered (finishClosing s).log = answered s.log := by
  unfold finishClosing
  split
  · split
    · exact ⟨connect_onClose _, connect_answered _⟩
    · exact ⟨rfl, rfl⟩
  · exact ⟨rfl, rfl⟩

/-- `OnDisconnect` calls the function that is kept, and no other. -/
theorem onDisconnect_answers (cfg : VirtualClientConfig) (message : String) (s : VirtualClient κ) :
    s.log <+: (onDisconnect cfg message s).log ∧ (onDisconnect cfg message s).onClose = s.onClose ∧
      answered (onDisconnect cfg message s).log = answered s.log ++ s.onClose.toList := by
  let s₁ : VirtualClient κ := { s with signaling := none, retryTimer := s.retryTimer.cancel }
  let s₂ := if s₁.closing then finishClosing s₁ else armRetry cfg s₁
  have hs₂ : s.log <+: s₂.log ∧ s₂.onClose = s.onClose ∧ answered s₂.log = answered s.log := by
    by_cases hc : s₁.closing = true
    · have hfinish := finishClosing_answered s₁
      simp only [s₂, if_pos hc]
      exact ⟨finishClosing_log s₁, hfinish.1, hfinish.2⟩
    · simp only [s₂, if_neg hc, armRetry_log, armRetry_onClose]
      exact ⟨List.prefix_rfl, rfl, rfl⟩
  obtain ⟨hlog, honClose, hanswered⟩ := hs₂
  rw [← honClose]
  cases ho : s₂.onClose with
  | none =>
    have hend : onDisconnect cfg message s = s₂ := by
      simp only [s₂, s₁] at ho ⊢
      simp only [onDisconnect, ho]
    rw [hend]
    exact ⟨hlog, ho, by simpa using hanswered⟩
  | some f =>
    have hend : onDisconnect cfg message s =
        { s₂ with log := s₂.log ++ [.onClose f message], inOnClose := true } := by
      simp only [s₂, s₁] at ho ⊢
      simp only [onDisconnect, ho]
    rw [hend]
    exact ⟨hlog.trans (List.prefix_append _ _), ho, by simp [hanswered]⟩

theorem step_log (cfg : VirtualClientConfig) {s t : VirtualClient κ} {e : Event κ}
    (h : step cfg s e = .ok t) : s.log <+: t.log := by
  cases e with
  | connect =>
    obtain rfl := Except.ok.inj h
    exact connect_log s
  | close cb =>
    obtain ⟨_, _, rfl⟩ | ⟨n, _, _, rfl⟩ | ⟨f, message, _, _, rfl⟩ := close_cases h
    · exact List.prefix_rfl
    · exact List.prefix_append _ _
    · exact List.prefix_append _ _
  | sendMessage label data =>
    obtain rfl := Except.ok.inj h
    unfold sendMessage
    split
    · exact List.prefix_rfl
    · split
      · exact List.prefix_rfl
      · exact List.prefix_append _ _
  | disconnected n message =>
    obtain rfl := Except.ok.inj h
    have hlog := (onDisconnect_answers cfg message { s with log := s.log ++ [.disconnected n] }).1
    exact (List.prefix_append _ _).trans hlog
  | notify json =>
    obtain rfl | rfl := onNotify_eq h
    · exact List.prefix_rfl
    · exact List.prefix_rfl
  | retryReady =>
    obtain rfl := Except.ok.inj h
    exact retry_log { s with retryTimer := s.retryTimer.takeReady }
  | _ =>
    obtain rfl := Except.ok.inj h
    exact List.prefix_rfl

/-- A client learns of a function from `Close` only. -/
theorem step_knows (cfg : VirtualClientConfig) {s t : VirtualClient κ} {e : Event κ}
    (h : step cfg s e = .ok t) {k : κ} (hk : Knows t k) : Knows s k ∨ e = .close (some k) := by
  by_cases hclose : ∃ cb, e = .close cb
  · obtain ⟨cb, rfl⟩ := hclose
    obtain ⟨_, _, rfl⟩ | ⟨n, _, _, rfl⟩ | ⟨f, message, rfl, _, rfl⟩ := close_cases h
    · exact hk.elim (fun ho => .inr (congrArg Event.close ho)) fun ha => .inl (.inr ha)
    · exact hk.elim (fun ho => .inr (congrArg Event.close ho)) fun ha => .inl (.inr (by simpa using ha))
    · rcases hk with ho | ha
      · exact .inl (.inl ho)
      · simp only [answered_append, answered_onClose, answered_nil, List.mem_append,
          List.mem_singleton] at ha
        exact ha.elim (fun ha => .inl (.inr ha)) fun hf => .inr (by rw [hf])
  · by_cases hreport : ∃ n message, e = .disconnected n message
    · obtain ⟨n, message, rfl⟩ := hreport
      obtain rfl := Except.ok.inj h
      obtain ⟨-, honClose, hanswered⟩ :=
        onDisconnect_answers cfg message { s with log := s.log ++ [.disconnected n] }
      rcases hk with ho | ha
      · exact .inl (.inl (honClose.symm.trans ho))
      · rw [hanswered] at ha
        simp only [answered_append, answered_disconnected, answered_nil, List.append_nil,
          List.mem_append, Option.mem_toList] at ha
        exact .inl ha.symm
    · by_cases hreturn : e = .onCloseReturned
      · subst hreturn
        obtain rfl := Except.ok.inj h
        exact hk.elim (fun ho => by simp [onCloseReturned] at ho) fun ha => .inl (.inr ha)
      · obtain ⟨honClose, -, hanswered⟩ := step_onClose cfg h (fun cb heq => hclose ⟨cb, heq⟩)
          (fun n message heq => hreport ⟨n, message, heq⟩) hreturn
        rw [Knows, honClose, hanswered] at hk
        exact .inl hk

end VirtualClient

namespace World

open ScenarioPlayer ClientInfo
open VirtualClient (Knows answered)

variable {n : Nat}

/-! ## Running the callbacks -/

theorem onExit_exit (w : World n) (k : PlayerPath × Fin n) (q : PlayerPath) (j : Fin n) :
    ((w.onExit k).info q j).exit = true ↔ (w.info q j).exit = true ∨ (q, j) = k := by
  have hmodify : ((w.modifyInfo k.1 k.2 fun c => { c with exit := true }).info q j).exit = true ↔
      (w.info q j).exit = true ∨ (q, j) = k := by
    rw [info_modifyInfo, Prod.ext_iff]
    split
    next h => simp [h]
    next h => simp [h]
  rw [onExit]
  split
  · exact hmodify
  · exact hmodify

theorem onExit_stopped (w : World n) (k : PlayerPath × Fin n) :
    (w.onExit k).stopped = true ↔
      w.stopped = true ∨ ∀ j, ((w.onExit k).info k.1 j).exit = true := by
  rw [onExit]
  split
  next h => simp [info] at h ⊢; exact .inr h
  next h =>
    refine ⟨.inl, fun hor => hor.elim id fun hall => absurd hall h⟩

/-- The event loop has been stopped if all clients of the main player have exited,
and only then. -/
def StopsWhenExited (w : World n) : Prop := w.stopped = true ↔ ∀ j, (w.info [] j).exit = true

theorem StopsWhenExited.onExit {w : World n} (h : StopsWhenExited w) {k : PlayerPath × Fin n} (hk : k.1 = []) :
    StopsWhenExited (w.onExit k) := by
  rw [StopsWhenExited, onExit_stopped, hk]
  refine ⟨fun hor => hor.elim (fun hs j => ?_) id, .inr⟩
  rw [onExit_exit]
  exact .inl (h.mp hs j)

theorem foldl_onExit (ks : List (PlayerPath × Fin n)) (hks : ∀ k ∈ ks, k.1 = []) (w : World n) :
    (StopsWhenExited w → StopsWhenExited (ks.foldl onExit w)) ∧ (ks.foldl onExit w).vcs = w.vcs ∧
      ∀ j, ((ks.foldl onExit w).info [] j).exit = true ↔ (w.info [] j).exit = true ∨ ([], j) ∈ ks := by
  induction ks generalizing w with
  | nil => exact ⟨id, rfl, by simp⟩
  | cons k ks ih =>
    obtain ⟨hk, hks⟩ := List.forall_mem_cons.mp hks
    obtain ⟨hstops, hvcs, hexit⟩ := ih hks (w.onExit k)
    rw [List.foldl_cons]
    refine ⟨fun h => hstops (h.onExit hk), hvcs.trans (onExit_vcs w k), fun j => ?_⟩
    rw [hexit, onExit_exit, List.mem_cons, or_assoc]

theorem calledSince_eq {old more : List (VirtualClient.Entry (PlayerPath × Fin n))} :
    calledSince old (old ++ more) = answered more := by
  rw [calledSince, List.drop_left, answered]
  congr 1
  funext x
  cases x <;> rfl

/-! ## The invariant -/

/-- The callbacks of an instance whose players are those of `run`. -/
structure ExitState (w : World n) : Prop where
  named : ∀ i k, Knows (w.vcs i) k → k = ([], i)
  exited : ∀ j, (w.info [] j).exit = true ↔ ([], j) ∈ answered (w.vcs j).log
  stops : StopsWhenExited w

/-- Nothing that the callbacks are about differs. -/
structure Calm (w w' : World n) : Prop where
  vcs : w'.vcs = w.vcs
  stopped : w'.stopped = w.stopped
  exit : ∀ j, (w'.info [] j).exit = (w.info [] j).exit

theorem Calm.exitState {w w' : World n} (h : Calm w w') (hw : ExitState w) : ExitState w' := by
  refine ⟨fun i k hk => hw.named i k (h.vcs ▸ hk), fun j => ?_, ?_⟩
  · rw [h.exit, h.vcs]
    exact hw.exited j
  · rw [StopsWhenExited, h.stopped]
    simp only [h.exit]
    exact hw.stops

theorem calm_modifyInfo (w : World n) (p : PlayerPath) (i : Fin n) {f : ClientInfo → ClientInfo}
    (hf : p = [] → ∀ c, (f c).exit = c.exit) : Calm w (w.modifyInfo p i f) := by
  refine ⟨rfl, rfl, fun j => ?_⟩
  rw [info_modifyInfo]
  split
  next h => exact hf h.1.symm _
  next => rfl

theorem next_exit (c : ClientInfo) : c.next.exit = c.exit := by
  rw [next]
  split
  · rfl
  · split <;> rfl

/-- A client may go over to another state if it learns of no function but its own. -/
theorem react_exitState {w : World n} (h : ExitState w) {i : Fin n} {vc : VirtualClient (PlayerPath × Fin n)}
    (hlog : (w.vcs i).log <+: vc.log) (hnamed : ∀ k, Knows vc k → k = ([], i)) :
    ExitState (w.react i vc) ∧ ((w.react i vc).vcs i).log = vc.log ∧
      ∀ j, j ≠ i → (((w.react i vc).info [] j).exit = (w.info [] j).exit) := by
  obtain ⟨more, hmore⟩ := hlog
  let u : World n :=
    { w with vcs := Function.update w.vcs i (if vc.inOnClose then vc.onCloseReturned else vc) }
  have hks : ∀ k ∈ answered more, k = ([], i) := fun k hk =>
    hnamed k (.inr (by rw [← hmore, VirtualClient.answered_append]; exact List.mem_append_right _ hk))
  have hreact : w.react i vc = (answered more).foldl onExit u := by
    rw [react, ← hmore, calledSince_eq]
  obtain ⟨hstops, hvcs, hexit⟩ := foldl_onExit (answered more) (fun k hk => by rw [hks k hk]) u
  have hi : (u.vcs i).log = vc.log := by
    simp only [u, Function.update_self]
    split <;> rfl
  have hknows : ∀ k, Knows (u.vcs i) k → Knows vc k := by
    intro k
    simp only [u, Function.update_self]
    split
    · rintro (ho | ha)
      · simp [VirtualClient.onCloseReturned] at ho
      · exact .inr ha
    · exact id
  have hother : ∀ j, j ≠ i → u.vcs j = w.vcs j := fun j hj => by simp [u, hj]
  have hexit' : ∀ j, j ≠ i →
      (((w.react i vc).info [] j).exit = true ↔ (w.info [] j).exit = true) := by
    intro j hj
    rw [hreact, hexit]
    refine ⟨fun hor => hor.elim id fun hmem => ?_, .inl⟩
    exact absurd (congrArg Prod.snd (hks _ hmem)) hj
  refine ⟨⟨fun j k hk => ?_, fun j => ?_, ?_⟩, ?_, fun j hj => ?_⟩
  · rw [hreact, hvcs] at hk
    by_cases hj : j = i
    · subst hj
      exact hnamed k (hknows k hk)
    · rw [hother j hj] at hk
      exact h.named j k hk
  · by_cases hj : j = i
    · subst hj
      rw [hreact, hexit, hvcs, hi, ← hmore, VirtualClient.answered_append, List.mem_append]
      exact or_congr (h.exited j) Iff.rfl
    · rw [hexit' j hj, hreact, hvcs, hother j hj]
      exact h.exited j
  · rw [hreact]
    exact hstops h.stops
  · rw [hreact, hvcs, hi]
  · rw [Bool.eq_iff_iff]
    exact hexit' j hj

theorem client_exitState {env : Env} {w w' : World n} {i : Fin n}
    {e : VirtualClient.Event (PlayerPath × Fin n)} (h : ExitState w) (hs : w.client env i e = .ok w')
    (he : ∀ k, e = .close (some k) → k = ([], i)) : ExitState w' := by
  rw [client] at hs
  split at hs
  next vc hvc =>
    obtain rfl : w.react i vc = w' := by simpa using hs
    refine (react_exitState h (VirtualClient.step_log _ hvc) fun k hk => ?_).1
    exact (VirtualClient.step_knows _ hvc hk).elim (h.named i k) (he k)
  next => simp at hs

theorem sendMessage_exitState {env : Env} {p : PlayerPath} {i : Fin n} {d : Draw} {label : String}
    {w w' : World n} (h : ExitState w) (hs : w.sendMessage env p i d label = .ok w') : ExitState w' := by
  rw [sendMessage] at hs
  split at hs
  next => simp at hs
  next data _ =>
    obtain ⟨v, hv, rfl⟩ := Machine.map_eq_ok hs
    have hcalm : Calm v { v with
        players := Function.update v.players p
          { v.players p with
            dcCounter := Function.update (v.players p).dcCounter label
              ((w.players p).dcCounter label + 1) } } := by
      refine ⟨rfl, rfl, fun j => ?_⟩
      by_cases hp : [] = p
      · subst hp
        simp [info]
      · simp [info, hp]
    exact hcalm.exitState (client_exitState h hv (by simp))

theorem operate_exitState {env : Env} {p : PlayerPath} {i : Fin n} {d : Draw} {op : Op} {w w' : World n}
    (h : ExitState w) (hexit : op = .exit → p = []) (hs : w.operate env p i d op = .ok w') :
    ExitState w' := by
  cases op with
  | sleep minTimeMs maxTimeMs =>
    rw [operate] at hs
    split at hs
    next => simp at hs
    next ms _ =>
      obtain rfl := Except.ok.inj hs
      have hcalm : Calm w (w.modifyInfo p i (ClientInfo.sleep ms)) := calm_modifyInfo w p i fun _ _ => rfl
      exact hcalm.exitState h
  | playSubScenario name data loopOpIndex =>
    obtain rfl : w.play (name :: p) i.val data loopOpIndex = w' := by simpa [operate] using hs
    rw [play_client]
    exact (calm_modifyInfo w _ i fun hnil => absurd hnil (List.cons_ne_nil name p)).exitState h
  | playVoiceNumberClient =>
    rw [operate] at hs
    split at hs
    next => simp at hs
    next audios _ =>
      obtain rfl := Except.ok.inj hs
      have hcalm : Calm w { w with gam := some (GameAudioManager.play audios i.val (env.voice (i.val + 1))) } :=
        ⟨rfl, rfl, fun _ => rfl⟩
      exact hcalm.exitState h
  | sendDataChannelMessage label minSize maxSize => exact sendMessage_exitState h hs
  | disconnect => exact client_exitState h hs (by simp)
  | reconnect =>
    have hconnect : w.client env i .connect = .ok w' := hs
    exact client_exitState h hconnect (by simp)
  | exit =>
    obtain rfl := hexit rfl
    refine client_exitState h hs fun k hk => ?_
    injection hk with hk
    exact (Option.some.inj hk).symm

/-- Around its operation `OnNext` does nothing that the callbacks are about. -/
theorem onNext_calm {env : Env} {p : PlayerPath} {i : Fin n} {d : Draw} {w w' : World n}
    (h : w.onNext env p i d = .ok w') : ∃ op, ∃ u v : World n, (w.info p i).current = some op ∧
      Calm w u ∧ u.operate env p i d op = .ok v ∧ Calm v w' := by
  obtain ⟨op, u, v, hop, hu, -, ⟨hvcs, hstopped⟩, hv, rfl⟩ := onNext_cases h
  refine ⟨op, u, v, hop, ⟨hvcs, hstopped, fun j => ?_⟩, hv, ?_⟩
  · rw [hu]
    split <;> rfl
  · split
    · exact ⟨rfl, rfl, fun _ => rfl⟩
    · exact calm_modifyInfo v p i fun _ c => next_exit c

theorem onNext_exitState {env : Env} {p : PlayerPath} {i : Fin n} {d : Draw} {w w' : World n}
    (h : ExitState w) (hexit : (w.info p i).current = some .exit → p = [])
    (hs : w.onNext env p i d = .ok w') : ExitState w' := by
  obtain ⟨op, u, v, hop, hbefore, hv, hbehind⟩ := onNext_calm hs
  apply hbehind.exitState
  exact operate_exitState (hbefore.exitState h) (fun heq => hexit (heq ▸ hop)) hv

/-- Nobody plays, pauses or resumes, and no key is pressed. -/
def Unattended : Event n → Prop
  | .play _ _ _ | .pauseAll | .resumeAll | .keyClose _ | .keyConnect _ => False
  | _ => True

instance : DecidablePred (Unattended (n := n))
  | .play _ _ _ | .pauseAll | .resumeAll | .keyClose _ | .keyConnect _ => .isFalse id
  | .onNext _ _ _ | .sleepExpired _ _ | .sleepReady _ _ | .sleepAborted _ _ | .client _ _ => .isTrue trivial

theorem Unattended.unplayed {e : Event n} (h : Unattended e) : Unplayed e := by
  cases e with
  | play clientId data l => exact h
  | _ => trivial

theorem step_exitState {cfg : ZakuroConfig} {env : Env} {w w' : World n} {e : Event n}
    (h : ExitState w) (htree : Tree cfg w) (he : Queued env w e) (hc : Unattended e)
    (hs : step env w e = .ok w') : ExitState w' := by
  cases e with
  | onNext p i d =>
    refine onNext_exitState h (fun hop => ?_) hs
    by_contra hp
    exact (htree.sub_current hp hop (pending_of_posted he.1)).1 rfl
  | sleepExpired p i =>
    obtain rfl := Except.ok.inj hs
    have hcalm : Calm w (w.modifyInfo p i fun c => { c with timer := c.timer.expire }) :=
      calm_modifyInfo w p i fun _ _ => rfl
    exact hcalm.exitState h
  | sleepReady p i =>
    obtain rfl := Except.ok.inj hs
    exact (calm_modifyInfo w p i fun _ c => next_exit { c with timer := c.timer.takeReady }).exitState h
  | sleepAborted p i =>
    obtain rfl := Except.ok.inj hs
    have hcalm : Calm w (w.modifyInfo p i fun c => { c with timer := c.timer.takeAborted }) :=
      calm_modifyInfo w p i fun _ _ => rfl
    exact hcalm.exitState h
  | client i ve =>
    refine client_exitState h hs ?_
    rintro k rfl
    exact absurd he.1 (by simp [External])
  | _ => exact absurd hc (by simp [Unattended])

theorem run_exitState (hn : 0 < n) (cfg : ZakuroConfig) : ExitState (run n cfg) := by
  obtain ⟨hvcs, hstopped, -⟩ :=
    foldl_play_same cfg (List.finRange n) (start (fun _ => .init) cfg.audios)
  have hvcs : (run n cfg).vcs = fun _ => .init := hvcs
  have hstopped : (run n cfg).stopped = false := hstopped
  have hexit : ∀ j, ((run n cfg).info [] j).exit = false := by
    intro j
    rw [run_info, if_pos rfl, ClientInfo.play]
    split <;> rfl
  refine ⟨fun i k hk => ?_, fun j => ?_, ?_⟩
  · rw [hvcs] at hk
    rcases hk with ho | ha
    · simp [VirtualClient.init] at ho
    · simp [VirtualClient.init] at ha
  · rw [hexit, hvcs]
    simp [VirtualClient.init]
  · rw [StopsWhenExited, hstopped]
    refine ⟨by simp, fun hall => ?_⟩
    simpa [hexit] using hall ⟨0, hn⟩

/-- What holds in every run of an instance that nobody attends to. -/
theorem runs_exitState (hn : 0 < n) {cfg : ZakuroConfig} {env : Env} {w : World n}
    {es : List (Event n)} (h : Machine.Run ((machine env).restrict fun _ => Unattended) (run n cfg) es w) :
    Tree cfg w ∧ ExitState w := by
  refine h.invariant (I := fun w => Tree cfg w ∧ ExitState w) ?_ ⟨run_tree cfg, run_exitState hn cfg⟩
  rintro v e v' ⟨htree, hexit⟩ ⟨⟨-, he⟩, hc⟩ hs
  exact ⟨step_tree htree he hc.unplayed hs, step_exitState hexit htree he hc hs⟩

end World
