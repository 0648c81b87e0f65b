import Zakuro.Machine
import Zakuro.ScenarioPlayer

/-!
# One client of one player

Whatever the event loop runs, each client of each player takes at most one step
of its own, and the view of an event says which. An invariant of the steps of a
single client is therefore an invariant of every run of the instance. The `exit`
flag is left out of the view: the callbacks of `OP_EXIT` set it from outside.
-/

namespace ClientInfo

/-- A client of a player together with the operations executed for it. -/
@[ext] structure Slot where
  info : ClientInfo
  executed : List Op

def Slot.step (s : Slot) (e : Event) : Slot where
  info := s.info.step e
  executed :=
    match e with
    | .onNext _ => s.executed ++ s.info.current.toList
    | _ => s.executed

@[simp] theorem control_current (c : ClientInfo) : c.control.current = c.current := rfl

theorem control_next (c : ClientInfo) : c.next.control = c.control.next := by
  rw [next, next]
  cases hp : c.paused with
  | true => simp [control, hp]
  | false =>
    by_cases hend : c.opIndex + 1 = c.data.length
    · simp [control, doNext, hp, hend]
    · simp [control, doNext, hp, hend]

theorem control_play (data : List Op) (loopOpIndex : Int) (c : ClientInfo) :
    (c.play data loopOpIndex).control = c.control.play data loopOpIndex := by
  rw [play, play]
  split <;> rfl

theorem control_onNext (ms : Int) (c : ClientInfo) : (c.onNext ms).control = c.control.onNext ms := by
  rw [onNext, onNext, control_current]
  split
  · rfl
  · rfl
  · exact control_next _

theorem control_step (c : ClientInfo) (e : Event) : (c.step e).control = c.control.step e := by
  cases e with
  | play data loopOpIndex => exact control_play data loopOpIndex c
  | onNext ms => exact control_onNext ms c
  | sleepReady => exact control_next _
  | _ => rfl

end ClientInfo

namespace World

open ScenarioPlayer

variable {n : Nat}

/-! ## What changes where -/

theorem info_setInfo (w : World n) (p q : PlayerPath) (i j : Fin n) (c : ClientInfo) :
    (w.setInfo p i c).info q j = if q = p ∧ j = i then c else w.info q j := by
  by_cases hp : q = p
  · subst hp
    by_cases hj : j = i
    · subst hj
      simp [info, setInfo]
    · simp [info, setInfo, hj]
  · simp [info, setInfo, hp]

theorem info_modifyInfo (w : World n) (p q : PlayerPath) (i j : Fin n) (f : ClientInfo → ClientInfo) :
    (w.modifyInfo p i f).info q j = if q = p ∧ j = i then f (w.info q j) else w.info q j := by
  rw [modifyInfo, info_setInfo]
  split
  next h => rw [h.1, h.2]
  next => rfl

theorem info_modifyAll (w : World n) (q : PlayerPath) (j : Fin n) (f : ClientInfo → ClientInfo) :
    (w.modifyAll f).info q j = if q = [] then f (w.info q j) else w.info q j := by
  by_cases hq : q = []
  · subst hq
    simp [info, modifyAll]
  · simp [info, modifyAll, hq]

theorem foldl_onExit_rel (R : World n → World n → Prop) (htrans : ∀ {u v w}, R u v → R v w → R u w)
    (hexit : ∀ w k, R w (w.onExit k)) (ks : List (PlayerPath × Fin n)) {v w : World n} (h : R v w) :
    R v (ks.foldl onExit w) := by
  induction ks generalizing w with
  | nil => exact h
  | cons k ks ih => exact ih (htrans h (hexit w k))

@[simp] theorem onExit_vcs (w : World n) (k : PlayerPath × Fin n) : (w.onExit k).vcs = w.vcs := by
  rw [onExit]
  split <;> rfl

theorem foldl_onExit_vcs (ks : List (PlayerPath × Fin n)) (w : World n) : (ks.foldl onExit w).vcs = w.vcs := by
  induction ks generalizing w with
  | nil => rfl
  | cons k ks ih => rw [List.foldl_cons, ih, onExit_vcs]

/-- What each function that a client calls leaves alone, and no client is part of,
is left alone by all that the client does. -/
theorem client_rel (R : World n → World n → Prop) (htrans : ∀ {u v w}, R u v → R v w → R u w)
    (hvcs : ∀ w vcs, R w { w with vcs := vcs }) (hexit : ∀ w k, R w (w.onExit k)) {env : Env} {i : Fin n}
    {e : VirtualClient.Event (PlayerPath × Fin n)} {w w' : World n} (h : w.client env i e = .ok w') :
    R w w' := by
  rw [client] at h
  split at h
  next vc _ =>
    obtain rfl : w.react i vc = w' := by simpa using h
    exact foldl_onExit_rel R htrans hexit _ (hvcs w _)
  next => simp at h

/-- Nothing but `exit` flags, clients, counters and buffers differs. -/
structure Frame (w w' : World n) : Prop where
  control : ∀ q j, (w'.info q j).control = (w.info q j).control
  executed : w'.executed = w.executed

theorem Frame.trans {u v w : World n} (h : Frame u v) (h' : Frame v w) : Frame u w :=
  ⟨fun q j => (h'.control q j).trans (h.control q j), h'.executed.trans h.executed⟩

theorem onExit_frame (w : World n) (k : PlayerPath × Fin n) : Frame w (w.onExit k) := by
  have hexit : Frame w (w.modifyInfo k.1 k.2 fun c => { c with exit := true }) := by
    refine ⟨fun q j => ?_, rfl⟩
    rw [info_modifyInfo]
    split <;> rfl
  rw [onExit]
  split
  · exact hexit.trans ⟨fun _ _ => rfl, rfl⟩
  · exact hexit

theorem client_frame {env : Env} {i : Fin n} {e : VirtualClient.Event (PlayerPath × Fin n)}
    {w w' : World n} (h : w.client env i e = .ok w') : Frame w w' :=
  client_rel Frame Frame.trans (fun _ _ => ⟨fun _ _ => rfl, rfl⟩) onExit_frame h

@[simp] theorem info_setCounter (w : World n) (p q : PlayerPath) (label : String) (counter : UInt64)
    (j : Fin n) : (w.setCounter p label counter).info q j = w.info q j := by
  by_cases hq : q = p
  · subst hq
    simp [setCounter, info]
  · simp [setCounter, info, hq]

theorem sendMessage_frame {env : Env} {p : PlayerPath} {i : Fin n} {d : Draw} {label : String}
    {w w' : World n} (h : w.sendMessage env p i d label = .ok w') : Frame w w' := by
  rw [sendMessage] at h
  split at h
  next => simp at h
  next message _ =>
    obtain ⟨v, hv, rfl⟩ := Machine.map_eq_ok h
    exact (client_frame hv).trans ⟨fun q j => by rw [info_setCounter], rfl⟩

theorem play_client (w : World n) (p : PlayerPath) (i : Fin n) (data : List Op) (loopOpIndex : Int) :
    w.play p i.val data loopOpIndex = w.modifyInfo p i (ClientInfo.play data loopOpIndex) := by
  rw [play, dif_pos (by omega)]
  congr

/-- Everything the `switch` of `OnNext` can do. -/
theorem operate_cases {env : Env} {p : PlayerPath} {i : Fin n} {d : Draw} {op : Op} {w w' : World n}
    (h : w.operate env p i d op = .ok w') :
    (∃ minTimeMs maxTimeMs ms, op = .sleep minTimeMs maxTimeMs ∧
      Op.sleepMs d.rand minTimeMs maxTimeMs = some ms ∧ w' = w.modifyInfo p i (ClientInfo.sleep ms)) ∨
    (∃ name data loopOpIndex, op = .playSubScenario name data loopOpIndex ∧
      w' = w.modifyInfo (name :: p) i (ClientInfo.play data loopOpIndex)) ∨
    (op.isSleep = false ∧ (∀ name data loopOpIndex, op ≠ .playSubScenario name data loopOpIndex) ∧
      Frame w w') := by
  cases op with
  | sleep minTimeMs maxTimeMs =>
    rw [operate] at h
    cases hms : Op.sleepMs d.rand minTimeMs maxTimeMs with
    | none => simp [hms] at h
    | some ms => exact .inl ⟨_, _, ms, rfl, hms, by simpa [hms] using h.symm⟩
  | playSubScenario name data loopOpIndex =>
    have hplay : w' = w.play (name :: p) i.val data loopOpIndex := by simpa [operate] using h.symm
    exact .inr (.inl ⟨name, data, loopOpIndex, rfl, hplay.trans (play_client ..)⟩)
  | playVoiceNumberClient =>
    rw [operate] at h
    split at h
    next => simp at h
    next audios _ =>
      cases h
      exact .inr (.inr ⟨rfl, by simp, fun _ _ => rfl, rfl⟩)
  | sendDataChannelMessage label minSize maxSize =>
    exact .inr (.inr ⟨rfl, by simp, sendMessage_frame h⟩)
  | disconnect => exact .inr (.inr ⟨rfl, by simp, client_frame h⟩)
  | reconnect =>
    have hconnect : w.client env i .connect = .ok w' := h
    exact .inr (.inr ⟨rfl, by simp, client_frame hconnect⟩)
  | exit => exact .inr (.inr ⟨rfl, by simp, client_frame h⟩)

theorem operate_executed {env : Env} {p : PlayerPath} {i : Fin n} {d : Draw} {op : Op} {w w' : World n}
    (h : w.operate env p i d op = .ok w') : w'.executed = w.executed := by
  rcases operate_cases h with ⟨_, _, _, _, _, rfl⟩ | ⟨_, _, _, _, rfl⟩ | ⟨_, _, hframe⟩
  · rfl
  · rfl
  · exact hframe.executed

/-- The instance in which the operation of an `OnNext` is executed. -/
def begun (w : World n) (p : PlayerPath) (i : Fin n) (op : Op) : World n :=
  { w.modifyInfo p i ClientInfo.takePosted with
    executed := w.executed ++ [⟨p, i, (w.info p i).opIndex, op⟩] }

theorem begun_message (env : Env) (w : World n) (p : PlayerPath) (i : Fin n) (op : Op) (d : Draw)
    (label : String) : (w.begun p i op).message env p i d label = w.message env p i d label := by
  have hcounter : ((w.begun p i op).players p).dcCounter = (w.players p).dcCounter := by
    simp [begun, modifyInfo, setInfo]
  rw [message, message, hcounter]
  rfl

/-- `OnNext` finds an operation, executes it, and goes on with `Next` unless it
sleeps. -/
theorem onNext_operates {env : Env} {p : PlayerPath} {i : Fin n} {d : Draw} {w w' : World n}
    (h : w.onNext env p i d = .ok w') : ∃ op, ∃ v : World n, (w.info p i).current = some op ∧
      (w.begun p i op).operate env p i d op = .ok v ∧
      w' = if op.isSleep then v else v.modifyInfo p i ClientInfo.next := by
  have htaken := info_modifyInfo w p p i i ClientInfo.takePosted
  rw [if_pos ⟨rfl, rfl⟩] at htaken
  rw [onNext] at h
  dsimp only at h
  rw [htaken] at h
  cases hop : (w.info p i).takePosted.current with
  | none => simp [hop] at h
  | some op =>
    rw [hop] at h
    obtain ⟨v, hv, hw'⟩ := Machine.map_eq_ok h
    exact ⟨op, v, hop, hv, hw'.symm⟩

theorem onNext_cases {env : Env} {p : PlayerPath} {i : Fin n} {d : Draw} {w w' : World n}
    (h : w.onNext env p i d = .ok w') : ∃ op, ∃ u v : World n, (w.info p i).current = some op ∧
      (∀ q j, u.info q j = if q = p ∧ j = i then (w.info q j).takePosted else w.info q j) ∧
      u.executed = w.executed ++ [⟨p, i, (w.info p i).opIndex, op⟩] ∧
      (u.vcs = w.vcs ∧ u.stopped = w.stopped) ∧ u.operate env p i d op = .ok v ∧
      w' = if op.isSleep then v else v.modifyInfo p i ClientInfo.next := by
  obtain ⟨op, v, hop, hv, hw'⟩ := onNext_operates h
  exact ⟨op, w.begun p i op, v, hop, fun q j => info_modifyInfo w p q i j _, rfl, ⟨rfl, rfl⟩, hv, hw'⟩

theorem onNext_executed {env : Env} {p : PlayerPath} {i : Fin n} {d : Draw} {w w' : World n}
    (h : w.onNext env p i d = .ok w') : ∃ op, (w.info p i).current = some op ∧
      w'.executed = w.executed ++ [⟨p, i, (w.info p i).opIndex, op⟩] := by
  obtain ⟨op, u, v, hop, -, hexec, -, hv, rfl⟩ := onNext_cases h
  refine ⟨op, hop, ?_⟩
  have hv' := (operate_executed hv).trans hexec
  split
  · exact hv'
  · exact hv'

/-! ## The view of an event -/

def sleepOf (d : Draw) : Option Op → Int
  | some (.sleep minTimeMs maxTimeMs) => (Op.sleepMs d.rand minTimeMs maxTimeMs).getD 0
  | _ => 0

/-- What an event is to one client of one player, if anything. -/
def view (w : World n) (p : PlayerPath) (i : Fin n) : Event n → Option ClientInfo.Event
  | .play clientId data loopOpIndex =>
    if p = [] ∧ clientId = i.val then some (.play data loopOpIndex) else none
  | .pauseAll => if p = [] then some .pause else none
  | .resumeAll => if p = [] then some .resume else none
  | .onNext q j d =>
    if p = q ∧ i = j then some (.onNext (sleepOf d (w.info q j).current))
    else match (w.info q j).current with
      | some (.playSubScenario name data loopOpIndex) =>
        if p = name :: q ∧ i = j then some (.play data loopOpIndex) else none
      | _ => none
  | .sleepExpired q j => if p = q ∧ i = j then some .sleepExpired else none
  | .sleepReady q j => if p = q ∧ i = j then some .sleepReady else none
  | .sleepAborted q j => if p = q ∧ i = j then some .sleepAborted else none
  | _ => none

def opsOf (w : World n) (p : PlayerPath) (i : Fin n) : List Op :=
  (w.executed.filter fun x => x.path = p ∧ x.client = i).map Execution.op

def slot (w : World n) (p : PlayerPath) (i : Fin n) : ClientInfo.Slot where
  info := (w.info p i).control
  executed := w.opsOf p i

/-- A client after what an event is to it. -/
def viewed (c : ClientInfo) : Option ClientInfo.Event → ClientInfo
  | none => c
  | some e => c.step e

def viewedSlot (s : ClientInfo.Slot) : Option ClientInfo.Event → ClientInfo.Slot
  | none => s
  | some e => s.step e

theorem viewedSlot_info (s : ClientInfo.Slot) (e : Option ClientInfo.Event) :
    (viewedSlot s e).info = viewed s.info e := by
  cases e <;> rfl

theorem control_modifyInfo (w : World n) (p q : PlayerPath) (i j : Fin n) (f : ClientInfo → ClientInfo)
    (e : ClientInfo.Event) (hf : ∀ c, f c = ClientInfo.step c e) :
    ((w.modifyInfo p i f).info q j).control =
      viewed (w.info q j).control (if q = p ∧ j = i then some e else none) := by
  rw [info_modifyInfo]
  split
  · rw [hf, ClientInfo.control_step]
    rfl
  · rfl

theorem onNext_control {env : Env} {p : PlayerPath} {i : Fin n} {d : Draw} {w w' : World n}
    (h : w.onNext env p i d = .ok w') (q : PlayerPath) (j : Fin n) :
    (w'.info q j).control = viewed (w.info q j).control (w.view q j (.onNext p i d)) := by
  obtain ⟨op, u, v, hop, hu, -, -, hv, rfl⟩ := onNext_cases h
  rw [view, hop]
  rcases operate_cases hv with ⟨lo, hi, ms, rfl, hms, rfl⟩ | ⟨name, data, l, rfl, rfl⟩ |
    ⟨hsleep, hsub, hframe⟩
  · rw [if_pos (by rfl), info_modifyInfo, hu]
    by_cases hq : q = p ∧ j = i
    · obtain ⟨rfl, rfl⟩ := hq
      simp only [and_self, if_true, viewed, ClientInfo.step, ClientInfo.onNext,
        ClientInfo.control_current, hop, sleepOf, hms, Option.getD_some]
      rfl
    · simp only [if_neg hq, viewed]
  · rw [if_neg (by simp [Op.isSleep]), info_modifyInfo, info_modifyInfo, hu]
    have hne : p ≠ name :: p := (List.cons_ne_self name p).symm
    by_cases hq : q = p ∧ j = i
    · obtain ⟨rfl, rfl⟩ := hq
      simp only [and_self, if_true, hne, false_and, if_false, viewed, ClientInfo.step,
        ClientInfo.onNext, ClientInfo.control_current, hop, sleepOf]
      exact ClientInfo.control_next _
    · rw [if_neg hq, if_neg hq, if_neg hq]
      by_cases hs : q = name :: p ∧ j = i
      · simp only [if_pos hs, viewed, ClientInfo.step]
        exact ClientInfo.control_play data l _
      · simp only [if_neg hs, viewed]
  · rw [if_neg (by simp [hsleep]), info_modifyInfo]
    by_cases hq : q = p ∧ j = i
    · obtain ⟨rfl, rfl⟩ := hq
      have hcontrol := hframe.control q j
      rw [hu, if_pos ⟨rfl, rfl⟩] at hcontrol
      rw [if_pos ⟨rfl, rfl⟩, if_pos ⟨rfl, rfl⟩, ClientInfo.control_next, hcontrol, viewed,
        ClientInfo.step, ClientInfo.onNext_of_awake (by simpa using hop) hsleep]
      rfl
    · rw [if_neg hq, if_neg hq, hframe.control, hu, if_neg hq]
      split
      next name data l heq => exact absurd (Option.some.inj heq) (hsub name data l)
      next => rfl

/-- Whatever happens, a client of a player takes the step that the view of the
event says. -/
theorem step_control {env : Env} {w w' : World n} {e : Event n} (h : step env w e = .ok w')
    (p : PlayerPath) (i : Fin n) :
    (w'.info p i).control = viewed (w.info p i).control (w.view p i e) := by
  cases e with
  | play clientId data loopOpIndex =>
    obtain rfl : w.play [] clientId data loopOpIndex = w' := by simpa [step] using h
    rw [play]
    split
    next hid =>
      have hiff : clientId = i.val ↔ i = ⟨clientId.toNat, by omega⟩ := by
        rw [Fin.ext_iff]
        change clientId = i.val ↔ i.val = clientId.toNat
        omega
      rw [control_modifyInfo w [] p _ i (ClientInfo.play data loopOpIndex) (.play data loopOpIndex)
        fun _ => rfl, view]
      simp only [hiff]
    next hid =>
      have hne : clientId ≠ i.val := by omega
      rw [view, if_neg (by simp [hne])]
      rfl
  | pauseAll =>
    obtain rfl : w.pauseAll = w' := by simpa [step] using h
    rw [pauseAll, info_modifyAll, view]
    split <;> rfl
  | resumeAll =>
    obtain rfl : w.resumeAll = w' := by simpa [step] using h
    rw [resumeAll, info_modifyAll, view]
    split <;> rfl
  | onNext q j d => exact onNext_control h p i
  | sleepExpired q j =>
    obtain rfl := Except.ok.inj h
    exact control_modifyInfo w _ _ _ _ _ .sleepExpired fun _ => rfl
  | sleepReady q j =>
    obtain rfl := Except.ok.inj h
    exact control_modifyInfo w _ _ _ _ _ .sleepReady fun _ => rfl
  | sleepAborted q j =>
    obtain rfl := Except.ok.inj h
    exact control_modifyInfo w _ _ _ _ _ .sleepAborted fun _ => rfl
  | keyClose j => exact (client_frame h).control p i
  | keyConnect j =>
    have hconnect : w.client env j .connect = .ok w' := h
    exact (client_frame hconnect).control p i
  | client j e => exact (client_frame h).control p i

theorem step_executed {env : Env} {w w' : World n} {e : Event n} (h : step env w e = .ok w') :
    (∃ p i d op, e = .onNext p i d ∧ (w.info p i).current = some op ∧
      w'.executed = w.executed ++ [⟨p, i, (w.info p i).opIndex, op⟩]) ∨
    ((∀ p i d, e ≠ .onNext p i d) ∧ w'.executed = w.executed) := by
  cases e with
  | onNext p i d =>
    obtain ⟨op, hop, hexec⟩ := onNext_executed h
    exact .inl ⟨p, i, d, op, rfl, hop, hexec⟩
  | play clientId data loopOpIndex =>
    obtain rfl : w.play [] clientId data loopOpIndex = w' := by simpa [step] using h
    refine .inr ⟨by simp, ?_⟩
    rw [play]
    split <;> rfl
  | keyConnect j =>
    have hconnect : w.client env j .connect = .ok w' := h
    exact .inr ⟨by simp, (client_frame hconnect).executed⟩
  | keyClose j => exact .inr ⟨by simp, (client_frame h).executed⟩
  | client j e => exact .inr ⟨by simp, (client_frame h).executed⟩
  | _ =>
    obtain rfl := Except.ok.inj h
    exact .inr ⟨by simp, rfl⟩

theorem opsOf_append {w w' : World n} {x : Execution n} (h : w'.executed = w.executed ++ [x])
    (p : PlayerPath) (i : Fin n) :
    w'.opsOf p i = w.opsOf p i ++ if x.path = p ∧ x.client = i then [x.op] else [] := by
  rw [opsOf, opsOf, h, List.filter_append, List.map_append]
  by_cases hx : x.path = p ∧ x.client = i
  · simp [hx]
  · simp [hx]

theorem step_slot {env : Env} {w w' : World n} {e : Event n} (h : step env w e = .ok w')
    (p : PlayerPath) (i : Fin n) : w'.slot p i = viewedSlot (w.slot p i) (w.view p i e) := by
  have hinfo : (w'.slot p i).info = (viewedSlot (w.slot p i) (w.view p i e)).info := by
    rw [viewedSlot_info]
    exact step_control h p i
  have hexecuted : w'.opsOf p i = (viewedSlot (w.slot p i) (w.view p i e)).executed := by
    rcases step_executed h with ⟨q, j, d, op, rfl, hop, hexec⟩ | ⟨hne, hexec⟩
    · rw [opsOf_append hexec, view]
      by_cases hq : p = q ∧ i = j
      · obtain ⟨rfl, rfl⟩ := hq
        rw [if_pos ⟨rfl, rfl⟩, if_pos ⟨rfl, rfl⟩]
        simp [viewedSlot, ClientInfo.Slot.step, slot, hop]
      · rw [if_neg (fun hq' => hq ⟨hq'.1.symm, hq'.2.symm⟩), if_neg hq, List.append_nil]
        split
        next name data l _ => split <;> rfl
        next => rfl
    · have hsame : w'.opsOf p i = w.opsOf p i := by rw [opsOf, opsOf, hexec]
      rw [hsame]
      cases e with
      | onNext q j d => exact absurd rfl (hne q j d)
      | keyClose j => rfl
      | keyConnect j => rfl
      | client j e => rfl
      | _ =>
        rw [view]
        split <;> rfl
  exact ClientInfo.Slot.ext hinfo hexecuted

/-- An event that is something to a client of a player finds it ready for that. -/
theorem view_enabled {env : Env} {w w' : World n} {e : Event n} (he : Queued env w e)
    (h : step env w e = .ok w') {p : PlayerPath} {i : Fin n} {v : ClientInfo.Event}
    (hv : w.view p i e = some v) : (w.slot p i).info.Enabled v := by
  cases e with
  | onNext q j d =>
    obtain ⟨op, hop, -⟩ := onNext_executed h
    rw [view] at hv
    split at hv
    next hq =>
      obtain ⟨rfl, rfl⟩ := hq
      obtain rfl := Option.some.inj hv
      exact ⟨he.1, by simp [slot, hop]⟩
    next =>
      split at hv
      next name data l _ =>
        split at hv
        · obtain rfl := Option.some.inj hv
          trivial
        · simp at hv
      next => simp at hv
  | play clientId data loopOpIndex =>
    rw [view] at hv
    split at hv
    · obtain rfl := Option.some.inj hv
      trivial
    · simp at hv
  | keyClose j => simp [view] at hv
  | keyConnect j => simp [view] at hv
  | client j e => simp [view] at hv
  | _ =>
    rw [view] at hv
    split at hv
    next hq =>
      obtain rfl := Option.some.inj hv
      first | trivial | (obtain ⟨rfl, rfl⟩ := hq; exact he)
    next => simp at hv

/-- An invariant of the steps of one client, under a condition on them, is an
invariant of every run whose events keep to the condition. -/
theorem run_slot {env : Env} {I : ClientInfo.Slot → Prop}
    {C : ClientInfo.Slot → ClientInfo.Event → Prop} (p : PlayerPath) (i : Fin n)
    (hstep : ∀ s e, I s → s.info.Enabled e → C s e → I (s.step e))
    {cond : World n → Event n → Prop}
    (hcond : ∀ w e v, cond w e → w.view p i e = some v → C (w.slot p i) v)
    {w w' : World n} {es : List (Event n)} (h : Machine.Run ((machine env).restrict cond) w es w')
    (hw : I (w.slot p i)) : I (w'.slot p i) := by
  refine h.invariant (I := fun w => I (w.slot p i)) ?_ hw
  rintro w e w' hI ⟨⟨-, hqueued⟩, hc⟩ hs
  rw [step_slot hs p i]
  cases hv : w.view p i e with
  | none => exact hI
  | some v => exact hstep _ v hI (view_enabled hqueued hs hv) (hcond w e v hc hv)

end World
