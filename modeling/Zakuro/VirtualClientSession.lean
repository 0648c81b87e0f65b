import Zakuro.VirtualClient
import Zakuro.SessionProtocol

/-!
# The client keeps to the session protocol

The flags of the client are read as the phase of its current session, and every
handler moves that phase the way the protocol allows. The invariant that makes
this go through relates the flags to each other: a close in progress has a
session, a reconnect or a callback waits only during a close, and the retry
timer waits only while there is nothing to close.
-/

namespace VirtualClient

open SessionProtocol (Act replay LiveIn)

variable {κ : Type}

/-! ## What each handler does -/

@[simp] theorem connect_closing {s : VirtualClient κ} (h : s.closing = true) :
    connect s = { s with needReconnect := true } := by simp [connect, h]

theorem connect_live {s : VirtualClient κ} {n : Nat} (h : s.closing = false)
    (hn : s.signaling = some n) : connect s =
      { s with closing := true, needReconnect := true, log := s.log ++ [.disconnect n] } := by
  simp [connect, h, hn]

theorem connect_idle {s : VirtualClient κ} (h : s.closing = false) (hn : s.signaling = none) :
    connect s =
      { s with
        retryTimer := s.retryTimer.cancel
        signaling := some s.created
        created := s.created + 1
        log := s.log ++ [.create s.created] } := by
  simp [connect, h, hn]

theorem armRetry_cases (cfg : VirtualClientConfig) (s : VirtualClient κ) :
    armRetry cfg s = s ∨
    s.retryCount < cfg.maxRetry ∧ armRetry cfg s =
      { s with
        retryCount := s.retryCount + 1
        retryTimer := (s.retryTimer.expiresAfter cfg.retryIntervalMs).asyncWait } := by
  by_cases hr : s.retryCount < cfg.maxRetry <;> simp [armRetry, hr]

@[simp] theorem armRetry_onClose (cfg : VirtualClientConfig) (s : VirtualClient κ) :
    (armRetry cfg s).onClose = s.onClose := by
  obtain h | ⟨_, h⟩ := armRetry_cases cfg s <;> rw [h]

/-- A session that drops while no callback is kept only arms the retry timer. -/
theorem onDisconnect_dropped (cfg : VirtualClientConfig) (message : String)
    {s : VirtualClient κ} (h : s.closing = false) (ho : s.onClose = none) :
    onDisconnect cfg message s =
      armRetry cfg { s with signaling := none, retryTimer := s.retryTimer.cancel } := by
  simp [onDisconnect, h, ho]

/-- The end of a close on which a reconnect waits, and no callback. -/
theorem onDisconnect_reconnect (cfg : VirtualClientConfig) (message : String)
    {s : VirtualClient κ} (h : s.closing = true) (hr : s.needReconnect = true)
    (ho : s.onClose = none) :
    onDisconnect cfg message s =
      { s with
        closing := false
        needReconnect := false
        retryTimer := s.retryTimer.cancel.cancel
        signaling := some s.created
        created := s.created + 1
        log := s.log ++ [.create s.created] } := by
  simp [onDisconnect, finishClosing, connect, h, hr, ho]

theorem onDisconnect_closed (cfg : VirtualClientConfig) (message : String)
    {s : VirtualClient κ} (h : s.closing = true) (hr : s.needReconnect = false)
    (ho : s.onClose = none) :
    onDisconnect cfg message s =
      { s with closing := false, signaling := none, retryTimer := s.retryTimer.cancel } := by
  simp [onDisconnect, finishClosing, h, hr, ho]

/-- The end of a close whose callback is kept: it is called, and no session is
created whether or not a reconnect waits. -/
theorem onDisconnect_answered (cfg : VirtualClientConfig) (message : String)
    {s : VirtualClient κ} {f : κ} (h : s.closing = true) (ho : s.onClose = some f) :
    onDisconnect cfg message s =
      { s with
        closing := false
        needReconnect := false
        signaling := none
        retryTimer := s.retryTimer.cancel
        inOnClose := true
        log := s.log ++ [.onClose f message] } := by
  cases hr : s.needReconnect <;> simp [onDisconnect, finishClosing, h, hr, ho]

/-- `SendMessage` only writes into the log. -/
theorem sendMessage_log (label : String) (data : List UInt8) (s : VirtualClient κ) :
    ∃ log, sendMessage label data s = { s with log := log } := by
  unfold sendMessage
  split
  · exact ⟨s.log, rfl⟩
  · split
    · exact ⟨s.log, rfl⟩
    · exact ⟨_, rfl⟩

/-- What the end of a session can do. -/
inductive DisconnectStep (cfg : VirtualClientConfig) (message : String) (s t : VirtualClient κ) :
    Prop where
  | dropped (hc : s.closing = false)
      (he : t = { s with signaling := none, retryTimer := s.retryTimer.cancel })
  | armed (hc : s.closing = false) (left : s.retryCount < cfg.maxRetry)
      (he : t = { s with
        signaling := none
        retryCount := s.retryCount + 1
        retryTimer := (s.retryTimer.cancel.expiresAfter cfg.retryIntervalMs).asyncWait })
  | answered (f : κ) (hc : s.closing = true) (ho : s.onClose = some f)
      (he : t = { s with
        closing := false
        needReconnect := false
        signaling := none
        retryTimer := s.retryTimer.cancel
        inOnClose := true
        log := s.log ++ [.onClose f message] })
  | reconnected (hc : s.closing = true) (ho : s.onClose = none) (hr : s.needReconnect = true)
      (he : t = { s with
        closing := false
        needReconnect := false
        retryTimer := s.retryTimer.cancel.cancel
        signaling := some s.created
        created := s.created + 1
        log := s.log ++ [.create s.created] })
  | closed (hc : s.closing = true) (ho : s.onClose = none) (hr : s.needReconnect = false)
      (he : t = { s with closing := false, signaling := none, retryTimer := s.retryTimer.cancel })

theorem onDisconnect_step (cfg : VirtualClientConfig) (message : String) {s : VirtualClient κ}
    (hkept : s.closing = false → s.onClose = none) :
    DisconnectStep cfg message s (onDisconnect cfg message s) := by
  cases hc : s.closing with
  | false =>
    have hdropped := onDisconnect_dropped cfg message hc (hkept hc)
    obtain he | ⟨hleft, he⟩ := armRetry_cases cfg
      { s with signaling := none, retryTimer := s.retryTimer.cancel }
    · exact .dropped hc (hdropped.trans he)
    · exact .armed hc hleft (hdropped.trans he)
  | true =>
    cases ho : s.onClose with
    | some f => exact .answered f hc ho (onDisconnect_answered cfg message hc ho)
    | none =>
      cases hr : s.needReconnect with
      | true => exact .reconnected hc ho hr (onDisconnect_reconnect cfg message hc hr ho)
      | false => exact .closed hc ho hr (onDisconnect_closed cfg message hc hr ho)

theorem retry_eq (s : VirtualClient κ) :
    s.onClose ≠ none ∧ retry s = { s with needReconnect := false } ∨
    s.onClose = none ∧ retry s = connect { s with needReconnect := false } := by
  cases ho : s.onClose <;> simp [retry, ho]

/-- A `connection.created` notification. -/
def Event.IsCreated : Event κ → Prop
  | .notify json => (json.bind fun value => (value.at? "event_type").bind Json.asString?) =
      some "connection.created"
  | _ => False

instance : DecidablePred (Event.IsCreated (κ := κ))
  | .notify _ => inferInstanceAs (Decidable (_ = _))
  | .connect | .close _ | .sendMessage _ _ | .disconnected _ _ | .onCloseReturned | .retryExpired
  | .retryReady | .retryAborted => .isFalse id

theorem onNotify_created {json : Option Json} {s t : VirtualClient κ} (h : onNotify json s = .ok t) :
    t = s ∨ (Event.notify (κ := κ) json).IsCreated ∧ t = { s with retryCount := 0 } := by
  unfold onNotify at h
  split at h
  next eventType htype =>
    simp only [Except.ok.injEq] at h
    split at h
    next hcreated => exact .inr ⟨htype.trans (congrArg some hcreated), h.symm⟩
    next => exact .inl h.symm
  next => simp at h

/-! ## The refinement -/

def Entry.act? : Entry κ → Option Act
  | .create n => some (.create n)
  | .disconnect n => some (.disconnect n)
  | .sendDataChannel n _ _ => some (.send n)
  | .disconnected n => some (.report n)
  | .onClose _ _ => none

/-- The client's log as the session protocol sees it. -/
def acts (log : List (Entry κ)) : List Act := log.filterMap Entry.act?

@[simp] theorem acts_nil : acts ([] : List (Entry κ)) = [] := rfl
@[simp] theorem acts_append (log more : List (Entry κ)) :
    acts (log ++ more) = acts log ++ acts more := List.filterMap_append
@[simp] theorem acts_create (n : Nat) (log : List (Entry κ)) :
    acts (.create n :: log) = .create n :: acts log := rfl
@[simp] theorem acts_disconnect (n : Nat) (log : List (Entry κ)) :
    acts (.disconnect n :: log) = .disconnect n :: acts log := rfl
@[simp] theorem acts_sendDataChannel (n : Nat) (label : String) (data : List UInt8)
    (log : List (Entry κ)) :
    acts (.sendDataChannel n label data :: log) = .send n :: acts log := rfl
@[simp] theorem acts_disconnected (n : Nat) (log : List (Entry κ)) :
    acts (.disconnected n :: log) = .report n :: acts log := rfl
@[simp] theorem acts_onClose (f : κ) (message : String) (log : List (Entry κ)) :
    acts (.onClose f message :: log) = acts log := rfl

/-- An act that only one entry stands for. -/
theorem mem_acts {log : List (Entry κ)} {a : Act} {e : Entry κ} (h : ∀ d, d.act? = some a ↔ d = e) :
    a ∈ acts log ↔ e ∈ log := by
  rw [acts, List.mem_filterMap]
  constructor
  · rintro ⟨d, hd, ha⟩
    exact (h d).mp ha ▸ hd
  · exact fun he => ⟨e, he, (h e).mpr rfl⟩

theorem mem_acts_create {log : List (Entry κ)} {n : Nat} :
    Act.create n ∈ acts log ↔ .create n ∈ log := by
  apply mem_acts
  intro d
  cases d <;> simp [Entry.act?]

theorem mem_acts_report {log : List (Entry κ)} {n : Nat} :
    Act.report n ∈ acts log ↔ .disconnected n ∈ log := by
  apply mem_acts
  intro d
  cases d <;> simp [Entry.act?]

theorem mem_acts_disconnect {log : List (Entry κ)} {n : Nat} :
    Act.disconnect n ∈ acts log ↔ .disconnect n ∈ log := by
  apply mem_acts
  intro d
  cases d <;> simp [Entry.act?]

theorem live_iff_acts {log : List (Entry κ)} {n : Nat} : Live log n ↔ LiveIn (acts log) n := by
  rw [Live, LiveIn, mem_acts_create, mem_acts_report]

/-- The protocol state that the client's fields stand for. -/
def protocol (s : VirtualClient κ) : SessionProtocol.State where
  next := s.created
  phase := match s.signaling with
    | none => .idle
    | some n => if s.closing then .leaving n else .up n

structure Inv (s : VirtualClient κ) : Prop where
  accepted : replay (acts s.log) = some (protocol s)
  closing_session : s.closing = true → s.signaling ≠ none
  reconnect_closing : s.needReconnect = true → s.closing = true
  onClose_closing : s.inOnClose = false → s.onClose ≠ none → s.closing = true
  waiting_idle : 0 < s.retryTimer.waiting →
    s.signaling = none ∧ s.onClose = none ∧ s.inOnClose = false

theorem Inv.live_iff {s : VirtualClient κ} (h : Inv s) (n : Nat) :
    Live s.log n ↔ s.signaling = some n := by
  rw [live_iff_acts, (SessionProtocol.tracks_of_replay h.accepted).live_iff]
  simp only [protocol]
  cases hs : s.signaling with
  | none => simp [SessionProtocol.Phase.session]
  | some m => cases s.closing <;> simp [SessionProtocol.Phase.session]

theorem Inv.closing_false {s : VirtualClient κ} (h : Inv s) (hn : s.signaling = none) :
    s.closing = false := by
  cases hc : s.closing with
  | false => rfl
  | true => exact absurd hn (h.closing_session hc)

theorem Inv.reconnect_false {s : VirtualClient κ} (h : Inv s) (hc : s.closing = false) :
    s.needReconnect = false := by
  cases hr : s.needReconnect with
  | false => rfl
  | true => simp [h.reconnect_closing hr] at hc

theorem Inv.onClose_none {s : VirtualClient κ} (h : Inv s) (hi : s.inOnClose = false)
    (hc : s.closing = false) : s.onClose = none := by
  by_contra ho
  simp [h.onClose_closing hi ho] at hc

theorem init_inv : Inv (init : VirtualClient κ) := by
  constructor <;> simp [init, replay, SessionProtocol.start, protocol]

/-- One more act of the protocol at the end of the log. -/
theorem replay_acts_snoc {s : VirtualClient κ} (h : Inv s) (a : Act) :
    replay (acts s.log ++ [a]) = SessionProtocol.step (protocol s) a := by
  rw [SessionProtocol.replay_snoc, h.accepted]
  rfl

theorem connect_inv {s : VirtualClient κ} (h : Inv s) : Inv (connect s) := by
  cases hc : s.closing with
  | true =>
    rw [connect_closing hc]
    exact { h with reconnect_closing := fun _ => hc, accepted := h.accepted }
  | false =>
    cases hn : s.signaling with
    | some n =>
      rw [connect_live hc hn]
      constructor
      · simp [replay_acts_snoc h, protocol, SessionProtocol.step, hc, hn]
      · simp [hn]
      · simp
      · simp
      · exact fun hw => h.waiting_idle hw
    | none =>
      rw [connect_idle hc hn]
      constructor
      · simp [replay_acts_snoc h, protocol, SessionProtocol.step, hc, hn]
      · simp
      · exact fun hr => h.reconnect_closing hr
      · exact fun hi ho => h.onClose_closing hi ho
      · simp

theorem invoke_eq {cb : Option κ} {message : String} {s t : VirtualClient κ}
    (h : invoke cb message s = .ok t) :
    ∃ f, cb = some f ∧ t = { s with log := s.log ++ [.onClose f message] } := by
  cases cb with
  | none => simp [invoke] at h
  | some f => exact ⟨f, rfl, by simpa [invoke, eq_comm] using h⟩

theorem callback_inv (f : κ) (message : String) {s : VirtualClient κ} (h : Inv s) :
    Inv { s with log := s.log ++ [.onClose f message] } := by
  refine { h with accepted := ?_ }
  simp only [acts_append, acts_onClose, acts_nil, List.append_nil]
  exact h.accepted

/-- A `Close` with a callback never throws. -/
theorem close_some_ok (f : κ) (s : VirtualClient κ) : ∃ t, close (some f) s = .ok t := by
  unfold close
  split
  · cases s.onClose <;> exact ⟨_, rfl⟩
  · cases s.signaling <;> exact ⟨_, rfl⟩

/-- Everything `Close` can do when it does not throw. -/
theorem close_cases {cb : Option κ} {s t : VirtualClient κ} (h : close cb s = .ok t) :
    (s.closing = true ∧ s.onClose = none ∧ t = { s with onClose := cb }) ∨
    (∃ n, s.closing = false ∧ s.signaling = some n ∧
      t = { s with closing := true, onClose := cb, log := s.log ++ [.disconnect n] }) ∨
    (∃ f message, cb = some f ∧ (s.closing = true ∧ s.onClose ≠ none ∨
        s.closing = false ∧ s.signaling = none) ∧
      t = { s with log := s.log ++ [.onClose f message] }) := by
  unfold close at h
  cases hc : s.closing with
  | true =>
    cases ho : s.onClose with
    | none => exact .inl ⟨rfl, rfl, by simpa [hc, ho, eq_comm] using h⟩
    | some g =>
      simp only [hc, ho, if_true] at h
      obtain ⟨f, hf, ht⟩ := invoke_eq h
      exact .inr (.inr ⟨f, _, hf, .inl ⟨rfl, by simp⟩, by simpa [hc, ho] using ht⟩)
  | false =>
    cases hn : s.signaling with
    | some n => exact .inr (.inl ⟨n, rfl, rfl, by simpa [hc, hn, eq_comm] using h⟩)
    | none =>
      simp only [hc, hn, Bool.false_eq_true, if_false] at h
      obtain ⟨f, hf, ht⟩ := invoke_eq h
      exact .inr (.inr ⟨f, _, hf, .inr ⟨rfl, rfl⟩, by simpa [hc, hn] using ht⟩)

theorem close_inv {cb : Option κ} {s t : VirtualClient κ} (h : Inv s)
    (ht : close cb s = .ok t) : Inv t := by
  obtain ⟨hc, ho, rfl⟩ | ⟨n, hc, hn, rfl⟩ | ⟨f, message, rfl, _, rfl⟩ := close_cases ht
  · constructor
    · exact h.accepted
    · exact fun _ => h.closing_session hc
    · exact fun hr => h.reconnect_closing hr
    · exact fun _ _ => hc
    · exact fun hw => absurd (h.waiting_idle hw).1 (h.closing_session hc)
  · constructor
    · simp [replay_acts_snoc h, protocol, SessionProtocol.step, hc, hn]
    · simp [hn]
    · simp
    · simp
    · intro hw
      simp [(h.waiting_idle hw).1] at hn
  · exact callback_inv f message h

theorem sendMessage_inv (label : String) (data : List UInt8) {s : VirtualClient κ} (h : Inv s) :
    Inv (sendMessage label data s) := by
  cases hn : s.signaling with
  | none => simpa [sendMessage, hn] using h
  | some n =>
    cases hc : s.closing with
    | true => simpa [sendMessage, hn, hc] using h
    | false =>
      have he : sendMessage label data s =
          { s with log := s.log ++ [.sendDataChannel n label data] } := by
        simp [sendMessage, hn, hc]
      rw [he]
      exact { h with
        accepted := by simp [replay_acts_snoc h, protocol, SessionProtocol.step, hc, hn] }

/-- The current session reports its end, whatever the client then does. -/
theorem onDisconnect_inv (cfg : VirtualClientConfig) (message : String) {s : VirtualClient κ}
    {n : Nat} (h : Inv s) (hl : Live s.log n) (hi : s.inOnClose = false) :
    Inv (onDisconnect cfg message { s with log := s.log ++ [.disconnected n] }) := by
  let r : VirtualClient κ := { s with log := s.log ++ [.disconnected n] }
  change Inv (onDisconnect cfg message r)
  have hn : s.signaling = some n := (h.live_iff n).mp hl
  have hreport : replay (acts s.log ++ [.report n]) = some ⟨s.created, .idle⟩ := by
    rw [replay_acts_snoc h]
    cases hc : s.closing <;> simp [protocol, SessionProtocol.step, hc, hn]
  cases hc : s.closing with
  | false =>
    have ho := h.onClose_none hi hc
    have hr := h.reconnect_false hc
    rw [onDisconnect_dropped cfg message (s := r) hc ho]
    obtain he | ⟨_, he⟩ := armRetry_cases cfg
      { r with signaling := none, retryTimer := r.retryTimer.cancel }
    all_goals
      rw [he]
      constructor
      · simp [r, hreport, protocol]
      · simp [r, hc]
      · simp [r, hr]
      · simp [r, ho]
      · simp [r, ho, hi]
  | true =>
    cases ho : s.onClose with
    | some f =>
      rw [onDisconnect_answered cfg message (s := r) hc ho]
      constructor <;> simp [r, hreport, protocol]
    | none =>
      cases hr : s.needReconnect with
      | true =>
        rw [onDisconnect_reconnect cfg message (s := r) hc hr ho]
        constructor
        · have hcreate := SessionProtocol.replay_snoc (acts s.log ++ [.report n]) (.create s.created)
          simpa [r, hreport, SessionProtocol.step, protocol] using hcreate
        all_goals simp [r, ho]
      | false =>
        rw [onDisconnect_closed cfg message (s := r) hc hr ho]
        constructor <;> simp [r, hreport, protocol, hr, ho]

theorem retry_inv {s : VirtualClient κ} (h : Inv s) : Inv (retry s) := by
  have hs : Inv { s with needReconnect := false } :=
    { h with reconnect_closing := by simp, accepted := h.accepted }
  cases ho : s.onClose with
  | none => simpa [retry, ho] using connect_inv hs
  | some f => simpa [retry, ho] using hs

theorem onNotify_eq {json : Option Json} {s t : VirtualClient κ} (h : onNotify json s = .ok t) :
    t = s ∨ t = { s with retryCount := 0 } :=
  (onNotify_created h).imp_right And.right

theorem step_inv (cfg : VirtualClientConfig) {s t : VirtualClient κ} {e : Event κ} (h : Inv s)
    (he : Enabled s e) (ht : step cfg s e = .ok t) : Inv t := by
  cases e with
  | connect =>
    obtain rfl : connect s = t := by simpa [step] using ht
    exact connect_inv h
  | close cb => exact close_inv h ht
  | sendMessage label data =>
    obtain rfl : sendMessage label data s = t := by simpa [step] using ht
    exact sendMessage_inv label data h
  | disconnected n message =>
    obtain rfl := Except.ok.inj ht
    exact onDisconnect_inv cfg message h he.1 he.2
  | onCloseReturned =>
    obtain rfl : onCloseReturned s = t := by simpa [step] using ht
    constructor
    · exact h.accepted
    · exact h.closing_session
    · exact h.reconnect_closing
    · simp [onCloseReturned]
    · exact fun hw => ⟨(h.waiting_idle hw).1, rfl, rfl⟩
  | notify json =>
    obtain rfl | rfl := onNotify_eq ht
    · exact h
    · exact { h with accepted := h.accepted }
  | retryExpired =>
    obtain rfl := Except.ok.inj ht
    exact { h with
      waiting_idle := by simp
      accepted := h.accepted }
  | retryReady =>
    obtain rfl := Except.ok.inj ht
    exact retry_inv { h with
      waiting_idle := h.waiting_idle
      accepted := h.accepted }
  | retryAborted =>
    obtain rfl := Except.ok.inj ht
    exact { h with
      waiting_idle := h.waiting_idle
      accepted := h.accepted }

/-! ## What a step can do -/

/-- The same, for the event with which the session reports it. -/
theorem disconnected_step {cfg : VirtualClientConfig} {message : String} {n : Nat}
    {s t : VirtualClient κ} (hs : Inv s) (he : Enabled s (.disconnected n message))
    (ht : step cfg s (.disconnected n message) = .ok t) :
    DisconnectStep cfg message { s with log := s.log ++ [.disconnected n] } t := by
  obtain rfl := Except.ok.inj ht
  exact onDisconnect_step cfg message (hs.onClose_none he.2)

/-- What each event does to the client. -/
inductive StepCase (cfg : VirtualClientConfig) (s : VirtualClient κ) :
    Event κ → VirtualClient κ → Prop where
  | connects : StepCase cfg s .connect (connect s)
  | keeps (cb : Option κ) (hc : s.closing = true) (ho : s.onClose = none) :
    StepCase cfg s (.close cb) { s with onClose := cb }
  | closes (cb : Option κ) (n : Nat) (hc : s.closing = false) (hn : s.signaling = some n) :
    StepCase cfg s (.close cb)
      { s with closing := true, onClose := cb, log := s.log ++ [.disconnect n] }
  | calls (f : κ) (message : String) :
    StepCase cfg s (.close (some f)) { s with log := s.log ++ [.onClose f message] }
  | sends (label : String) (data : List UInt8) (log : List (Entry κ)) :
    StepCase cfg s (.sendMessage label data) { s with log := log }
  | ends (n : Nat) (message : String) (t : VirtualClient κ) (hn : s.signaling = some n)
    (h : DisconnectStep cfg message { s with log := s.log ++ [.disconnected n] } t) :
    StepCase cfg s (.disconnected n message) t
  | returns (hi : s.inOnClose = true) : StepCase cfg s .onCloseReturned (onCloseReturned s)
  | ignores (json : Option Json) : StepCase cfg s (.notify json) s
  | resets (json : Option Json) (hcreated : (Event.notify (κ := κ) json).IsCreated) :
    StepCase cfg s (.notify json) { s with retryCount := 0 }
  | expires : StepCase cfg s .retryExpired { s with retryTimer := s.retryTimer.expire }
  | forgoes (hr : 0 < s.retryTimer.ready) (hi : s.inOnClose = false) (ho : s.onClose ≠ none) :
    StepCase cfg s .retryReady
      { s with retryTimer := s.retryTimer.takeReady, needReconnect := false }
  | retries (hr : 0 < s.retryTimer.ready) (hi : s.inOnClose = false) (ho : s.onClose = none) :
    StepCase cfg s .retryReady
      (connect { s with retryTimer := s.retryTimer.takeReady, needReconnect := false })
  | aborts : StepCase cfg s .retryAborted { s with retryTimer := s.retryTimer.takeAborted }

theorem step_cases {cfg : VirtualClientConfig} {s t : VirtualClient κ} {e : Event κ} (hs : Inv s)
    (he : Enabled s e) (ht : step cfg s e = .ok t) : StepCase cfg s e t := by
  cases e with
  | connect =>
    obtain rfl := Except.ok.inj ht
    exact .connects
  | close cb =>
    obtain ⟨hc, ho, rfl⟩ | ⟨n, hc, hn, rfl⟩ | ⟨f, message, rfl, -, rfl⟩ := close_cases ht
    · exact .keeps cb hc ho
    · exact .closes cb n hc hn
    · exact .calls f message
  | sendMessage label data =>
    obtain ⟨log, hlog⟩ := sendMessage_log label data s
    obtain rfl := Except.ok.inj ht
    rw [hlog]
    exact .sends label data log
  | disconnected n message =>
    exact .ends n message t ((hs.live_iff n).mp he.1) (disconnected_step hs he ht)
  | onCloseReturned =>
    obtain rfl := Except.ok.inj ht
    exact .returns he
  | notify json =>
    obtain rfl | ⟨hcreated, rfl⟩ := onNotify_created ht
    · exact .ignores json
    · exact .resets json hcreated
  | retryExpired =>
    obtain rfl := Except.ok.inj ht
    exact .expires
  | retryReady =>
    obtain rfl := Except.ok.inj ht
    obtain ⟨ho, hretry⟩ | ⟨ho, hretry⟩ := retry_eq { s with retryTimer := s.retryTimer.takeReady }
    · rw [hretry]
      exact .forgoes he.1 he.2 ho
    · rw [hretry]
      exact .retries he.1 he.2 ho
  | retryAborted =>
    obtain rfl := Except.ok.inj ht
    exact .aborts

/-- A run of the client from its construction on. -/
abbrev Runs (cfg : VirtualClientConfig) (es : List (Event κ)) (s : VirtualClient κ) : Prop :=
  (machine cfg).Run init es s

theorem run_inv {cfg : VirtualClientConfig} {es : List (Event κ)} {s t : VirtualClient κ}
    (h : (machine cfg).Run s es t) (hs : Inv s) : Inv t :=
  Machine.Run.invariant (I := Inv) (fun _ _ _ hs he ht => step_inv cfg hs he ht) h hs

theorem runs_inv {cfg : VirtualClientConfig} {es : List (Event κ)} {s : VirtualClient κ}
    (h : Runs cfg es s) : Inv s :=
  run_inv h init_inv

/-! ## The session invariant -/

theorem sublist_acts {log : List (Entry κ)} {d e : Entry κ} {a b : Act} (hd : d.act? = some a)
    (he : e.act? = some b) (h : [d, e].Sublist log) : [a, b].Sublist (acts log) := by
  have := h.filterMap Entry.act?
  simpa [acts, hd, he] using this

/-- Every beginning of a reachable log is a trace of the protocol. -/
theorem Inv.accepted_beginning {s : VirtualClient κ} (h : Inv s) {log : List (Entry κ)}
    (hl : log <+: s.log) : ∃ p, replay (acts log) = some p := by
  obtain ⟨rest, he⟩ := hl
  have ha := h.accepted
  rw [← he, acts_append] at ha
  exact Replay.replay_beginning ha

theorem Inv.closing_iff {s : VirtualClient κ} (h : Inv s) :
    s.closing = true ↔ ∃ n, Live s.log n ∧ .disconnect n ∈ s.log := by
  have ht := SessionProtocol.tracks_of_replay h.accepted
  constructor
  · intro hc
    obtain ⟨n, hn⟩ := Option.ne_none_iff_exists'.mp (h.closing_session hc)
    refine ⟨n, (h.live_iff n).mpr hn, mem_acts_disconnect.mp (ht.leaving n ?_)⟩
    simp [protocol, hn, hc]
  · rintro ⟨n, hl, hd⟩
    have hn := (h.live_iff n).mp hl
    have hp := (ht.asked n (mem_acts_disconnect.mpr hd)).2
    by_contra hc
    exact hp (by simp [protocol, hn, hc])

/-- What holds of a client between its handlers. The clauses about the log hold
at every point inside the handlers too; while a callback runs, `on_close_`
still holds that callback although the close has ended. -/
structure SessionInvariant (s : VirtualClient κ) : Prop where
  atMostOneLive : ∀ log, log <+: s.log → ∀ m n, Live log m → Live log n → m = n
  live_iff : ∀ n, Live s.log n ↔ s.signaling = some n
  disconnectOnce : ∀ n, ¬ [Entry.disconnect n, .disconnect n].Sublist s.log
  closing_iff : s.closing = true ↔ ∃ n, Live s.log n ∧ .disconnect n ∈ s.log
  reconnect_closing : s.needReconnect = true → s.closing = true
  onClose_closing : s.inOnClose = false → s.onClose ≠ none → s.closing = true
  noLateSend : ∀ n label data,
    ¬ [Entry.disconnect n, .sendDataChannel n label data].Sublist s.log

/-- Every run of the client, with any callbacks, keeps the session invariant. -/
theorem session_invariant {cfg : VirtualClientConfig} {es : List (Event κ)}
    {s : VirtualClient κ} (h : Runs cfg es s) : SessionInvariant s := by
  have hi := runs_inv h
  have ht := SessionProtocol.tracks_of_replay hi.accepted
  constructor
  case live_iff => exact hi.live_iff
  case closing_iff => exact hi.closing_iff
  case reconnect_closing => exact hi.reconnect_closing
  case onClose_closing => exact hi.onClose_closing
  case atMostOneLive =>
    intro log hl m n hm hn
    obtain ⟨p, hp⟩ := hi.accepted_beginning hl
    exact SessionProtocol.live_unique hp (live_iff_acts.mp hm) (live_iff_acts.mp hn)
  case disconnectOnce =>
    intro n hd
    have hcount := (sublist_acts rfl rfl hd).count_le (.disconnect n)
    have := ht.askedOnce n
    simp only [List.count_cons_self, List.count_nil] at hcount
    omega
  case noLateSend =>
    intro n label data hd
    exact ht.noLateSend n (sublist_acts rfl rfl hd)

/-- A reconnect over a live session, with a message and a close that come
before the session has reported. -/
theorem session_invariant_reconnect : ∃ s : VirtualClient Unit,
    (Runs {} [.connect, .connect, .sendMessage "label" [], .close (some ()),
      .disconnected 0 "bye", .onCloseReturned] s ∧ s.created = 1) ∧ SessionInvariant s := by
  obtain ⟨s, hs, hp⟩ := Machine.exec_exists (machine {}) init
    [.connect, .connect, .sendMessage "label" [], .close (some ()), .disconnected 0 "bye",
      .onCloseReturned] (fun s : VirtualClient Unit => s.created == 1) (by decide)
  exact ⟨s, ⟨hs, by simpa using hp⟩, session_invariant hs⟩

end VirtualClient
