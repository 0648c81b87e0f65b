import Zakuro.VirtualClientCallback
import Zakuro.VirtualClientClose

/-!
# Retries of a lost connection

A client arms its retry timer when a session ends that nobody asked to end, as
often as the budget allows, and a `connection.created` notification gives the
budget back. The handler of the timer connects, and that is meant to happen
only while there is no session. It is so unless `Connect` is called between the
expiry of the timer and its handler, which `cancel` no longer reaches.
-/

namespace SteadyTimer

/-- The handlers that are still to run. -/
def pending (t : SteadyTimer) : Nat := t.waiting + t.ready + t.aborted

@[simp] theorem cancel_pending (t : SteadyTimer) : t.cancel.pending = t.pending := by
  simp only [pending, cancel]
  omega

@[simp] theorem expire_pending (t : SteadyTimer) : t.expire.pending = t.pending := by
  simp only [pending, expire]
  omega

@[simp] theorem asyncWait_pending (t : SteadyTimer) (ms : Int) :
    (t.expiresAfter ms).asyncWait.pending = t.pending + 1 := by
  simp only [pending, expiresAfter, cancel, asyncWait]
  omega

theorem takeReady_pending_le (t : SteadyTimer) : t.takeReady.pending ≤ t.pending := by
  simp only [pending, takeReady]
  omega

theorem takeAborted_pending_le (t : SteadyTimer) : t.takeAborted.pending ≤ t.pending := by
  simp only [pending, takeAborted]
  omega

end SteadyTimer

namespace VirtualClient

variable {κ : Type}

/-! ## A retry and a session -/

/-- No `Connect` creates a session while a handler of the retry timer is queued. -/
def Unraced (s : VirtualClient κ) : Event κ → Prop
  | .connect => s.signaling = none → s.retryTimer.ready = 0
  | _ => True

instance (s : VirtualClient κ) : DecidablePred (Unraced s)
  | .connect => inferInstanceAs (Decidable (s.signaling = none → s.retryTimer.ready = 0))
  | .close _ | .sendMessage _ _ | .disconnected _ _ | .onCloseReturned | .notify _ | .retryExpired
  | .retryReady | .retryAborted => .isTrue trivial

/-- At most one retry is on its way, and it finds no session. -/
structure RetryAlone (s : VirtualClient κ) : Prop where
  one : s.retryTimer.waiting + s.retryTimer.ready ≤ 1
  idle : 0 < s.retryTimer.ready → s.signaling = none ∧ s.inOnClose = false

theorem init_retryAlone : RetryAlone (init : VirtualClient κ) := by
  constructor <;> simp [init]

theorem RetryAlone.ready_zero {s : VirtualClient κ} (h : RetryAlone s) {n : Nat}
    (hn : s.signaling = some n) : s.retryTimer.ready = 0 := by
  by_contra hr
  simp [(h.idle (Nat.pos_of_ne_zero hr)).1] at hn

/-- Where no handler is queued, none is as long as at most one wait is outstanding. -/
theorem RetryAlone.of_ready {s : VirtualClient κ} (hr : s.retryTimer.ready = 0)
    (hw : s.retryTimer.waiting ≤ 1) : RetryAlone s :=
  ⟨by omega, fun h => absurd hr (Nat.ne_of_gt h)⟩

/-- When the queued handler runs, none is left. -/
theorem RetryAlone.taken {s : VirtualClient κ} (h : RetryAlone s) (hr : 0 < s.retryTimer.ready) :
    s.retryTimer.takeReady.ready = 0 ∧ s.retryTimer.takeReady.waiting ≤ 1 := by
  have hone := h.one
  simp only [SteadyTimer.takeReady_ready, SteadyTimer.takeReady_waiting]
  omega

theorem connect_retryAlone {s : VirtualClient κ} (h : RetryAlone s)
    (hr : s.signaling = none → s.retryTimer.ready = 0) : RetryAlone (connect s) := by
  cases hc : s.closing with
  | true =>
    rw [connect_closing hc]
    exact ⟨h.one, h.idle⟩
  | false =>
    cases hn : s.signaling with
    | some n =>
      have hready := h.ready_zero hn
      rw [connect_live hc hn]
      exact .of_ready hready (Nat.le_of_add_right_le h.one)
    | none =>
      rw [connect_idle hc hn]
      exact .of_ready (hr hn) (Nat.zero_le 1)

theorem step_retryAlone {cfg : VirtualClientConfig} {s t : VirtualClient κ} {e : Event κ}
    (hs : Inv s) (h : RetryAlone s) (he : Enabled s e) (hunraced : Unraced s e)
    (ht : step cfg s e = .ok t) : RetryAlone t := by
  cases step_cases hs he ht with
  | connects => exact connect_retryAlone h hunraced
  | keeps cb hc ho => exact ⟨h.one, h.idle⟩
  | closes cb n hc hn => exact .of_ready (h.ready_zero hn) (Nat.le_of_add_right_le h.one)
  | calls f message => exact ⟨h.one, h.idle⟩
  | sends label data log => exact ⟨h.one, h.idle⟩
  | ends n message t hn hends =>
    have hready := h.ready_zero hn
    cases hends with
    | dropped hc he => exact he ▸ .of_ready hready (Nat.zero_le 1)
    | armed hc left he => exact he ▸ .of_ready hready (Nat.le_refl 1)
    | answered f hc ho he => exact he ▸ .of_ready hready (Nat.zero_le 1)
    | reconnected hc ho hr he => exact he ▸ .of_ready hready (Nat.zero_le 1)
    | closed hc ho hr he => exact he ▸ .of_ready hready (Nat.zero_le 1)
  | returns hi => exact ⟨h.one, fun hr => ⟨(h.idle hr).1, rfl⟩⟩
  | ignores json => exact h
  | resets json hcreated => exact ⟨h.one, h.idle⟩
  | expires =>
    have hone := h.one
    refine ⟨by simpa [Nat.add_comm] using hone, fun hr => ?_⟩
    simp only [SteadyTimer.expire_ready] at hr
    rcases Nat.eq_zero_or_pos s.retryTimer.ready with hready | hready
    · have hidle := hs.waiting_idle (by omega)
      exact ⟨hidle.1, hidle.2.2⟩
    · exact h.idle hready
  | forgoes hr hi ho =>
    have htaken := h.taken hr
    exact .of_ready htaken.1 htaken.2
  | retries hr hi ho =>
    have htaken := h.taken hr
    exact connect_retryAlone (.of_ready htaken.1 htaken.2) fun _ => htaken.1
  | aborts => exact ⟨h.one, h.idle⟩

/-- If the handler of the retry timer is due and comes to its `Connect`, it finds no
session, and it asks none to disconnect. -/
def RetrySpares (s : VirtualClient κ) : Prop :=
  Enabled s .retryReady → (s.onClose = none → s.signaling = none) ∧
    ∀ n, .disconnect n ∈ (retry { s with retryTimer := s.retryTimer.takeReady }).log →
      .disconnect n ∈ s.log

theorem RetryAlone.spares {s : VirtualClient κ} (hs : Inv s) (h : RetryAlone s) : RetrySpares s := by
  intro he
  have hn := (h.idle he.1).1
  refine ⟨fun _ => hn, fun n hmem => ?_⟩
  let r : VirtualClient κ :=
    { s with retryTimer := s.retryTimer.takeReady, needReconnect := false }
  obtain ⟨-, hretry⟩ | ⟨-, hretry⟩ := retry_eq { s with retryTimer := s.retryTimer.takeReady }
  · rwa [hretry] at hmem
  · rw [hretry, connect_idle (s := r) (hs.closing_false hn) hn] at hmem
    simpa [r] using hmem

/-- A session that is created while a handler is queued is torn down by it. -/
theorem not_spares_of_raced {s : VirtualClient κ} (hs : Inv s) (h : RetryAlone s)
    (hn : s.signaling = none) (hr : 0 < s.retryTimer.ready) : ¬ RetrySpares (connect s) := by
  have hc := hs.closing_false hn
  have hi := (h.idle hr).2
  rw [connect_idle hc hn]
  intro hspares
  have hnone := (hspares ⟨hr, hi⟩).1 (hs.onClose_none hi hc)
  cases hnone

/-- As long as no session is created by a `Connect` that a queued retry handler
overtakes, a retry finds no session, and one such step is enough for it to find one. -/
theorem retry_spares {cfg : VirtualClientConfig} {es : List (Event κ)} {s : VirtualClient κ}
    (h : Machine.Run ((machine cfg).restrict Unraced) init es s) :
    RetrySpares s ∧ ∀ e t, Enabled s e → step cfg s e = .ok t → (RetrySpares t ↔ Unraced s e) := by
  have hs := runs_inv h.of_restrict
  have halone : Inv s ∧ RetryAlone s := by
    refine h.invariant (I := fun s => Inv s ∧ RetryAlone s) ?_ ⟨init_inv, init_retryAlone⟩
    rintro s e t ⟨hs, h⟩ ⟨he, hunraced⟩ ht
    exact ⟨step_inv cfg hs he ht, step_retryAlone hs h he hunraced ht⟩
  refine ⟨halone.2.spares hs, fun e t he ht => ⟨fun hspares => ?_, fun hunraced => ?_⟩⟩
  · cases e with
    | connect =>
      intro hn
      by_contra hr
      obtain rfl := Except.ok.inj ht
      exact not_spares_of_raced hs halone.2 hn (Nat.pos_of_ne_zero hr) hspares
    | _ => trivial
  · exact (step_retryAlone hs halone.2 he hunraced ht).spares (step_inv cfg hs he ht)

/-- A lost connection is retried, and nothing else is called. -/
theorem retry_spares_dropped : ∃ s : VirtualClient Unit,
    Machine.Run ((machine { maxRetry := 1 }).restrict Unraced) init
      [.connect, .disconnected 0 "dropped", .retryExpired] s ∧
    RetrySpares s ∧ ∀ e t, Enabled s e → step { maxRetry := 1 } s e = .ok t →
      (RetrySpares t ↔ Unraced s e) := by
  have hs := Machine.exec_get_run ((machine (κ := Unit) { maxRetry := 1 }).restrict Unraced) init
    [.connect, .disconnected 0 "dropped", .retryExpired] (by decide)
  exact ⟨_, hs, retry_spares hs⟩

/-- `Connect` is called between the expiry of the retry timer and its handler. -/
theorem retry_tears_down : ¬ ∀ (es : List (Event Unit)) (s : VirtualClient Unit),
    Runs { maxRetry := 1 } es s → RetrySpares s := by
  intro h
  obtain ⟨s, hs, hp⟩ := Machine.exec_exists (machine { maxRetry := 1 }) init
    [.connect, .disconnected 0 "dropped", .retryExpired, .connect]
    (fun s : VirtualClient Unit => decide (Enabled s .retryReady) && s.onClose.isNone && s.signaling.isSome)
    (by decide)
  simp only [Bool.and_eq_true, decide_eq_true_eq, Option.isNone_iff_eq_none] at hp
  have hnone := (h _ s hs hp.1.1).1 hp.1.2
  simp [hnone] at hp

/-! ## The budget -/

/-- What a step can do to the budget: it arms the timer once at the end of a session
that nobody asked to end, or it arms nothing and leaves the budget or gives it back. -/
inductive BudgetStep (cfg : VirtualClientConfig) (s : VirtualClient κ) (e : Event κ)
    (t : VirtualClient κ) : Prop where
  | keeps (timer : t.retryTimer.pending ≤ s.retryTimer.pending) (count : t.retryCount = s.retryCount)
  | resets (created : e.IsCreated) (timer : t.retryTimer.pending ≤ s.retryTimer.pending)
      (count : t.retryCount = 0)
  | arms (n : Nat) (message : String) (event : e = .disconnected n message)
      (unasked : s.closing = false) (left : s.retryCount < cfg.maxRetry)
      (timer : t.retryTimer.pending = s.retryTimer.pending + 1)
      (count : t.retryCount = s.retryCount + 1)

theorem connect_budget (s : VirtualClient κ) :
    (connect s).retryTimer.pending = s.retryTimer.pending ∧ (connect s).retryCount = s.retryCount := by
  unfold connect
  split
  · exact ⟨rfl, rfl⟩
  · split
    · exact ⟨rfl, rfl⟩
    · exact ⟨SteadyTimer.cancel_pending _, rfl⟩

theorem step_budget {cfg : VirtualClientConfig} {s t : VirtualClient κ} {e : Event κ} (hs : Inv s)
    (he : Enabled s e) (ht : step cfg s e = .ok t) : BudgetStep cfg s e t := by
  cases step_cases hs he ht with
  | connects =>
    obtain ⟨htimer, hcount⟩ := connect_budget s
    exact .keeps (Nat.le_of_eq htimer) hcount
  | keeps cb hc ho => exact .keeps (Nat.le_refl _) rfl
  | closes cb n hc hn => exact .keeps (Nat.le_refl _) rfl
  | calls f message => exact .keeps (Nat.le_refl _) rfl
  | sends label data log => exact .keeps (Nat.le_refl _) rfl
  | ends n message t hn h =>
    cases h with
    | dropped hc he => exact he ▸ .keeps (by simp) rfl
    | armed hc left he => exact he ▸ .arms n message rfl hc left (by simp) rfl
    | answered f hc ho he => exact he ▸ .keeps (by simp) rfl
    | reconnected hc ho hr he => exact he ▸ .keeps (by simp) rfl
    | closed hc ho hr he => exact he ▸ .keeps (by simp) rfl
  | returns hi => exact .keeps (Nat.le_refl _) rfl
  | ignores json => exact .keeps (Nat.le_refl _) rfl
  | resets json hcreated => exact .resets hcreated (Nat.le_refl _) rfl
  | expires => exact .keeps (by simp) rfl
  | forgoes hr hi ho => exact .keeps s.retryTimer.takeReady_pending_le rfl
  | retries hr hi ho =>
    obtain ⟨htimer, hcount⟩ := connect_budget
      { s with retryTimer := s.retryTimer.takeReady, needReconnect := false }
    exact .keeps (htimer ▸ s.retryTimer.takeReady_pending_le) hcount
  | aborts => exact .keeps s.retryTimer.takeAborted_pending_le rfl

theorem run_count {cfg : VirtualClientConfig} {es : List (Event κ)} {s : VirtualClient κ}
    (h : Runs cfg es s) : 0 ≤ s.retryCount ∧ s.retryCount ≤ max 0 cfg.maxRetry := by
  refine (h.invariant (I := fun s => Inv s ∧ 0 ≤ s.retryCount ∧ s.retryCount ≤ max 0 cfg.maxRetry)
    ?_ ⟨init_inv, Int.le_refl 0, Int.le_max_left 0 _⟩).2
  rintro s e t ⟨hs, hlow, hhigh⟩ he ht
  refine ⟨step_inv cfg hs he ht, ?_⟩
  cases step_budget hs he ht with
  | keeps timer count => rw [count]; exact ⟨hlow, hhigh⟩
  | resets created timer count => rw [count]; omega
  | arms n message event unasked left timer count => rw [count]; omega

/-- The steps of a run that arm the retry timer, as the events that do. -/
def armings (cfg : VirtualClientConfig) (s : VirtualClient κ) (e : Event κ) : List (Event κ) :=
  match step cfg s e with
  | .ok t => if s.retryTimer.pending < t.retryTimer.pending then [e] else []
  | .error _ => []

/-- As long as the budget is not given back, each arming uses up a part of it. -/
theorem armings_length {cfg : VirtualClientConfig} {s t : VirtualClient κ} {fs : List (Event κ)}
    (h : (machine cfg).Run s fs t) (hs : Inv s) (hfs : ∀ e ∈ fs, ¬ e.IsCreated) :
    s.retryCount + ((machine cfg).outputs (armings cfg) s fs).length = t.retryCount := by
  induction h with
  | nil s => simp [Machine.outputs]
  | @cons s t u e fs he ht _ ih =>
    obtain ⟨hcreated, hfs⟩ := List.forall_mem_cons.mp hfs
    have ih := ih (step_inv cfg hs he ht) hfs
    have hstep : step cfg s e = .ok t := ht
    rw [Machine.outputs, ht, List.length_append]
    simp only [armings, hstep]
    cases step_budget hs he ht with
    | keeps timer count =>
      rw [if_neg (Nat.not_lt.mpr timer), List.length_nil]
      omega
    | resets created timer count => exact absurd created hcreated
    | arms n message event unasked left timer count =>
      rw [if_pos (by omega), List.length_singleton]
      omega

/-- Without a budget the timer is never armed. -/
theorem run_pending {cfg : VirtualClientConfig} (hmax : cfg.maxRetry ≤ 0) {es : List (Event κ)}
    {s : VirtualClient κ} (h : Runs cfg es s) : s.retryTimer.pending = 0 := by
  refine (h.invariant (I := fun s => (Inv s ∧ 0 ≤ s.retryCount) ∧ s.retryTimer.pending = 0)
    ?_ ⟨⟨init_inv, by simp [init]⟩, rfl⟩).2
  rintro s e t ⟨⟨hs, hlow⟩, hpending⟩ he ht
  have hinv := step_inv cfg hs he ht
  cases step_budget hs he ht with
  | keeps timer count => exact ⟨⟨hinv, by omega⟩, by omega⟩
  | resets created timer count => exact ⟨⟨hinv, by omega⟩, by omega⟩
  | arms n message event unasked left timer count => omega

/-! ## Who creates a session -/

/-- `Connect` has been called while the session was the current one, live or closing. -/
def ConnectedOver (cfg : VirtualClientConfig) (es : List (Event κ)) (n : Nat) : Prop :=
  ∃ es₁ es₂ s, es = es₁ ++ .connect :: es₂ ∧ Runs cfg es₁ s ∧ s.signaling = some n

theorem ConnectedOver.snoc {cfg : VirtualClientConfig} {es : List (Event κ)} {n : Nat}
    (h : ConnectedOver cfg es n) (e : Event κ) : ConnectedOver cfg (es ++ [e]) n := by
  obtain ⟨es₁, es₂, s, rfl, hs, hn⟩ := h
  exact ⟨es₁, es₂ ++ [e], s, by simp, hs, hn⟩

/-- A reconnect that waits was asked for over the session that is being closed. -/
def Asked (cfg : VirtualClientConfig) (es : List (Event κ)) (s : VirtualClient κ) : Prop :=
  s.needReconnect = true → ∃ n, s.signaling = some n ∧ ConnectedOver cfg es n

/-- What a step that does not call `Connect` does to a reconnect that waits. -/
theorem step_needReconnect {cfg : VirtualClientConfig} {s t : VirtualClient κ} {e : Event κ}
    (hs : Inv s) (hidle : s.retryTimer.ready = 0) (he : Enabled s e) (ht : step cfg s e = .ok t)
    (hconnect : e ≠ .connect) (hr : t.needReconnect = true) :
    s.needReconnect = true ∧ t.signaling = s.signaling := by
  cases step_cases hs he ht with
  | connects => exact absurd rfl hconnect
  | keeps cb hc ho => exact ⟨hr, rfl⟩
  | closes cb n hc hn => exact ⟨hr, rfl⟩
  | calls f message => exact ⟨hr, rfl⟩
  | sends label data log => exact ⟨hr, rfl⟩
  | ends n message t hn h =>
    -- no reconnect waits behind the end of a session
    exfalso
    cases h with
    | dropped hc he => simp [he, hs.reconnect_false hc] at hr
    | armed hc left he => simp [he, hs.reconnect_false hc] at hr
    | answered f hc ho he => simp [he] at hr
    | reconnected hc ho hrec he => simp [he] at hr
    | closed hc ho hrec he =>
      rw [he] at hr
      exact absurd (hrec.symm.trans hr) Bool.false_ne_true
  | returns hi => exact ⟨hr, rfl⟩
  | ignores json => exact ⟨hr, rfl⟩
  | resets json hcreated => exact ⟨hr, rfl⟩
  | expires => exact ⟨hr, rfl⟩
  | forgoes hready hi ho => omega
  | retries hready hi ho => omega
  | aborts => exact ⟨hr, rfl⟩

theorem connect_asked {cfg : VirtualClientConfig} {es : List (Event κ)} {s : VirtualClient κ}
    (h : Runs cfg es s) : Asked cfg (es ++ [.connect]) (connect s) := by
  have hs := runs_inv h
  intro hr
  have hover (n : Nat) (hn : s.signaling = some n) : ConnectedOver cfg (es ++ [.connect]) n :=
    ⟨es, [], s, rfl, h, hn⟩
  cases hc : s.closing with
  | true =>
    obtain ⟨n, hn⟩ := Option.ne_none_iff_exists'.mp (hs.closing_session hc)
    rw [connect_closing hc]
    exact ⟨n, hn, hover n hn⟩
  | false =>
    cases hn : s.signaling with
    | some n =>
      rw [connect_live hc hn]
      exact ⟨n, hn, hover n hn⟩
    | none =>
      rw [connect_idle hc hn] at hr
      exact absurd ((hs.reconnect_false hc).symm.trans hr) Bool.false_ne_true

theorem run_asked {cfg : VirtualClientConfig} (hmax : cfg.maxRetry ≤ 0) {es : List (Event κ)}
    {s : VirtualClient κ} (h : Runs cfg es s) : Asked cfg es s := by
  refine (h.history (I := fun es s => Runs cfg es s ∧ Asked cfg es s) ?_
    ⟨.nil init, fun hr => by simp [init] at hr⟩).2
  rintro es s e t ⟨hrun, hasked⟩ he ht
  refine ⟨hrun.append (.single he ht), ?_⟩
  by_cases hconnect : e = .connect
  · subst hconnect
    obtain rfl := Except.ok.inj ht
    exact connect_asked hrun
  · intro hr
    have hidle := run_pending hmax hrun
    obtain ⟨hr, hsame⟩ :=
      step_needReconnect (runs_inv hrun) (by simp only [SteadyTimer.pending] at hidle; omega) he ht
        hconnect hr
    obtain ⟨n, hn, hover⟩ := hasked hr
    exact ⟨n, hsame.trans hn, hover.snoc e⟩

/-- The steps that can create a session while no retry is on its way. -/
theorem step_creates {cfg : VirtualClientConfig} {s t : VirtualClient κ} {e : Event κ} (hs : Inv s)
    (hidle : s.retryTimer.ready = 0) (he : Enabled s e) (ht : step cfg s e = .ok t)
    (hcreated : t.created ≠ s.created) :
    e = .connect ∨ ∃ n message, e = .disconnected n message ∧ s.signaling = some n ∧
      s.needReconnect = true := by
  cases step_cases hs he ht with
  | connects => exact .inl rfl
  | ends n message t hn h =>
    cases h with
    | dropped hc he => exact absurd (he ▸ rfl) hcreated
    | armed hc left he => exact absurd (he ▸ rfl) hcreated
    | answered f hc ho he => exact absurd (he ▸ rfl) hcreated
    | reconnected hc ho hr he => exact .inr ⟨n, message, rfl, hn, hr⟩
    | closed hc ho hr he => exact absurd (he ▸ rfl) hcreated
  | forgoes hready hi ho => omega
  | retries hready hi ho => omega
  | _ => exact absurd rfl hcreated

/-- The budget of a client, seen from a state that a run has reached. -/
structure RetryBudget (cfg : VirtualClientConfig) (es : List (Event κ)) (s : VirtualClient κ) :
    Prop where
  count : 0 ≤ s.retryCount ∧ s.retryCount ≤ max 0 cfg.maxRetry
  /-- Until the next notification the timer is armed no more often than the budget says. -/
  armed : ∀ fs t, (machine cfg).Run s fs t → (∀ e ∈ fs, ¬ e.IsCreated) →
    (((machine cfg).outputs (armings cfg) s fs).length : Int) ≤ max 0 cfg.maxRetry
  /-- The end of a session that was asked to disconnect costs nothing. -/
  asked : ∀ n message t, Enabled s (.disconnected n message) → .disconnect n ∈ s.log →
    step cfg s (.disconnected n message) = .ok t →
    armings cfg s (.disconnected n message) = [] ∧ t.retryCount = s.retryCount
  /-- Without a budget each session is one that a `Connect` asked for. -/
  explicit : cfg.maxRetry ≤ 0 → ∀ e t, Enabled s e → step cfg s e = .ok t → t.created ≠ s.created →
    e = .connect ∨ ∃ n message, e = .disconnected n message ∧ ConnectedOver cfg es n

theorem retry_budget {cfg : VirtualClientConfig} {es : List (Event κ)} {s : VirtualClient κ}
    (h : Runs cfg es s) : RetryBudget cfg es s := by
  have hs := runs_inv h
  have hcount := run_count h
  constructor
  case count => exact hcount
  case armed =>
    intro fs t hrun hfs
    have hlength := armings_length hrun hs hfs
    have hhigh := (run_count (h.append hrun)).2
    omega
  case asked =>
    intro n message t he hd ht
    have hc : s.closing = true := hs.closing_iff.mpr ⟨n, he.1, hd⟩
    cases step_budget hs he ht with
    | keeps timer count =>
      refine ⟨?_, count⟩
      simp only [armings, ht, if_neg (Nat.not_lt.mpr timer)]
    | resets created timer count => exact absurd created id
    | arms m message' event unasked left timer count =>
      exact absurd (unasked.symm.trans hc) Bool.false_ne_true
  case explicit =>
    intro hmax e t he ht hcreated
    have hidle := run_pending hmax h
    have hready : s.retryTimer.ready = 0 := by
      simp only [SteadyTimer.pending] at hidle
      omega
    obtain hconnect | ⟨n, message, rfl, hn, hr⟩ := step_creates hs hready he ht hcreated
    · exact .inl hconnect
    · obtain ⟨m, hm, hover⟩ := run_asked hmax h hr
      obtain rfl := Option.some.inj (hn.symm.trans hm)
      exact .inr ⟨n, message, rfl, hover⟩

/-- A session drops twice, and the second time no retry is left. -/
theorem retry_budget_one : ∃ s : VirtualClient Unit,
    (Runs { maxRetry := 1 } [.connect, .disconnected 0 "dropped", .retryExpired, .retryReady,
      .disconnected 1 "dropped"] s ∧ s.retryTimer.pending = 0) ∧
    RetryBudget { maxRetry := 1 } [.connect, .disconnected 0 "dropped", .retryExpired, .retryReady,
      .disconnected 1 "dropped"] s := by
  obtain ⟨s, hs, hp⟩ := Machine.exec_exists (machine { maxRetry := 1 }) init
    [.connect, .disconnected 0 "dropped", .retryExpired, .retryReady, .disconnected 1 "dropped"]
    (fun s : VirtualClient Unit => s.retryTimer.pending == 0) (by decide)
  exact ⟨s, ⟨hs, by simpa using hp⟩, retry_budget hs⟩

end VirtualClient
