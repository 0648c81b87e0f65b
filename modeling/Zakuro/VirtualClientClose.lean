import Zakuro.VirtualClientSession

/-!
# What `Close` does without a callback, and what it leaves behind

`Close` calls the function it is given when there is nothing to close, or when
another callback is kept already, and it does so also when the function is
empty. And it leaves alone what can still create a session: a reconnect that is
waiting while no callback is kept, and the retry timer.
-/

namespace VirtualClient

variable {κ : Type}

/-! ## The empty callback -/

/-- `Close` can keep the function it is given: a close is in progress without a
callback, or a session is there to close. -/
def CloseKeeps (s : VirtualClient κ) : Prop :=
  if s.closing then s.onClose = none else s.signaling ≠ none

theorem close_none_iff (s : VirtualClient κ) :
    close none s = .error .badFunctionCall ↔ ¬ CloseKeeps s := by
  unfold close CloseKeeps
  cases hc : s.closing with
  | true => cases ho : s.onClose <;> simp [invoke]
  | false => cases hn : s.signaling <;> simp [invoke]

/-- Only a `Close` without a callback throws `std::bad_function_call`. -/
theorem badFunctionCall_cases {cfg : VirtualClientConfig} {s : VirtualClient κ} {e : Event κ}
    (h : step cfg s e = .error .badFunctionCall) : e = .close none := by
  cases e with
  | close cb =>
    cases cb with
    | none => rfl
    | some f =>
      obtain ⟨t, ht⟩ := close_some_ok f s
      simp [step, ht] at h
  | notify json =>
    replace h : onNotify json s = .error .badFunctionCall := h
    unfold onNotify at h
    split at h <;> simp at h
  | _ => simp [step] at h

/-- Between handlers `Close` can keep a function exactly when a session is live
and no callback is kept. -/
theorem Inv.closeKeeps_iff {s : VirtualClient κ} (h : Inv s) (hi : s.inOnClose = false) :
    CloseKeeps s ↔ (∃ n, Live s.log n) ∧ s.onClose = none := by
  unfold CloseKeeps
  have hlive : (∃ n, Live s.log n) ↔ s.signaling ≠ none := by
    simp [h.live_iff, Option.ne_none_iff_exists']
  rw [hlive]
  cases hc : s.closing with
  | true => simp [h.closing_session hc]
  | false => simp [h.onClose_none hi hc]

/-- A run of these events ends in a `std::bad_function_call`. -/
def Throws (cfg : VirtualClientConfig) (es : List (Event κ)) : Prop :=
  ∃ before e after s, es = before ++ e :: after ∧ Runs cfg before s ∧ Enabled s e ∧
    step cfg s e = .error .badFunctionCall

/-- Over all runs, `std::bad_function_call` is thrown exactly by a `Close`
without a callback in a state where it cannot keep one; between handlers these
are the states where no session is live or another callback is kept. -/
theorem throws_iff (cfg : VirtualClientConfig) (es : List (Event κ)) :
    (Throws cfg es ↔
      ∃ before after s, es = before ++ .close none :: after ∧ Runs cfg before s ∧ ¬ CloseKeeps s) ∧
    ∀ s, Runs cfg es s → s.inOnClose = false →
      (CloseKeeps s ↔ (∃ n, Live s.log n) ∧ s.onClose = none) := by
  refine ⟨⟨?_, ?_⟩, fun s hs hi => (runs_inv hs).closeKeeps_iff hi⟩
  · rintro ⟨before, e, after, s, rfl, hs, _, ht⟩
    obtain rfl := badFunctionCall_cases ht
    exact ⟨before, after, s, rfl, hs, (close_none_iff s).mp ht⟩
  · rintro ⟨before, after, s, rfl, hs, hk⟩
    exact ⟨before, .close none, after, s, rfl, hs, trivial, (close_none_iff s).mpr hk⟩

/-- The server drops the connection, and then the scenario disconnects. -/
theorem close_after_drop_throws :
    ¬ ∀ (es : List (Event Unit)) (s : VirtualClient Unit), Runs {} es s →
      close none s ≠ .error .badFunctionCall := by
  intro h
  obtain ⟨s, hs, hp⟩ := Machine.exec_exists (machine {}) init [.connect, .disconnected 0 "dropped"]
    (fun s : VirtualClient Unit => !s.closing && s.signaling.isNone) (by decide)
  refine h _ s hs ((close_none_iff s).mpr ?_)
  simp only [Bool.and_eq_true, Bool.not_eq_true', Option.isNone_iff_eq_none] at hp
  simp [CloseKeeps, hp]

/-! ## What can still reconnect after `Close` -/

/-- Nothing is left that could create a session once `Close` has been called:
no wait of the retry timer, outstanding or queued, and no waiting reconnect
unless a callback is kept for the end of this close. -/
def FinalClose (s : VirtualClient κ) (cb : Option κ) : Prop :=
  s.retryTimer.waiting = 0 ∧ s.retryTimer.ready = 0 ∧
    (s.needReconnect = true → s.inOnClose = false ∧ (s.onClose ≠ none ∨ cb ≠ none))

/-- The client is down for good, or on its way there. -/
structure Final (s : VirtualClient κ) : Prop where
  waiting : s.retryTimer.waiting = 0
  ready : s.retryTimer.ready = 0
  closing : s.signaling ≠ none → s.closing = true
  reconnect : s.needReconnect = true → s.inOnClose = false ∧ s.onClose ≠ none

theorem close_final {cb : Option κ} {s t : VirtualClient κ} (hs : Inv s)
    (hf : FinalClose s cb) (ht : close cb s = .ok t) : Final t := by
  obtain ⟨hw, hr, hn⟩ := hf
  obtain ⟨hc, ho, rfl⟩ | ⟨n, hc, _, rfl⟩ | ⟨f, message, rfl, hstate, rfl⟩ := close_cases ht
  · exact ⟨hw, hr, fun _ => hc, fun h => ⟨(hn h).1, by simpa [ho] using (hn h).2⟩⟩
  · refine ⟨hw, hr, fun _ => rfl, fun h => ?_⟩
    have h : s.needReconnect = true := h
    simp [hs.reconnect_false hc] at h
  · refine ⟨hw, hr, ?_, ?_⟩
    · intro h
      obtain ⟨hc, _⟩ | ⟨_, hnone⟩ := hstate
      · exact hc
      · exact absurd hnone h
    · intro h
      obtain ⟨_, ho⟩ | ⟨hc, _⟩ := hstate
      · exact ⟨(hn h).1, ho⟩
      · have h : s.needReconnect = true := h
        simp [hs.reconnect_false hc] at h

theorem final_step {cfg : VirtualClientConfig} {s t : VirtualClient κ} {e : Event κ}
    (hs : Inv s) (hf : Final s) (he : Enabled s e) (hcmd : ¬ e.IsCommand)
    (ht : step cfg s e = .ok t) : Final t ∧ t.created = s.created := by
  cases step_cases hs he ht with
  | connects | keeps | closes | calls => exact absurd trivial hcmd
  | sends label data log => exact ⟨⟨hf.waiting, hf.ready, hf.closing, hf.reconnect⟩, rfl⟩
  | ends n message t hn h =>
    have hc : s.closing = true := hf.closing (by simp [hn])
    cases h with
    | dropped hopen ht => exact absurd (hopen.symm.trans hc) Bool.false_ne_true
    | armed hopen left ht => exact absurd (hopen.symm.trans hc) Bool.false_ne_true
    | answered f _ ho ht => exact ht ▸ ⟨⟨rfl, hf.ready, by simp, by simp⟩, rfl⟩
    | reconnected _ ho hr ht => exact absurd ho (hf.reconnect hr).2
    | closed _ ho hr ht => exact ht ▸ ⟨⟨rfl, hf.ready, by simp, by simpa using hf.reconnect⟩, rfl⟩
  | returns hi =>
    refine ⟨⟨hf.waiting, hf.ready, hf.closing, fun h => ?_⟩, rfl⟩
    have hno := (hf.reconnect h).1
    simp [hi] at hno
  | ignores json => exact ⟨hf, rfl⟩
  | resets json hcreated => exact ⟨⟨hf.waiting, hf.ready, hf.closing, hf.reconnect⟩, rfl⟩
  | expires => exact ⟨⟨rfl, by simp [hf.ready, hf.waiting], hf.closing, hf.reconnect⟩, rfl⟩
  | forgoes hr hi ho => simp [hf.ready] at hr
  | retries hr hi ho => simp [hf.ready] at hr
  | aborts => exact ⟨⟨hf.waiting, hf.ready, hf.closing, hf.reconnect⟩, rfl⟩

/-- No event but a command creates a session once the client is down. -/
theorem final_run {cfg : VirtualClientConfig} {s t : VirtualClient κ} {es : List (Event κ)}
    (h : (machine cfg).Run s es t) (hs : Inv s) (hf : Final s) (hes : ∀ e ∈ es, ¬ e.IsCommand) :
    t.created = s.created := by
  induction h with
  | nil => rfl
  | cons he ht _ ih =>
    obtain ⟨hf', hcreated⟩ := final_step hs hf he (hes _ (List.mem_cons_self ..)) ht
    rw [ih (step_inv cfg hs he ht) hf' (fun e h => hes e (List.mem_cons_of_mem _ h)), hcreated]

/-- Some events that are no command create a session. -/
def Reconnects (cfg : VirtualClientConfig) (s : VirtualClient κ) : Prop :=
  ∃ es t, (machine cfg).Run s es t ∧ (∀ e ∈ es, ¬ e.IsCommand) ∧ t.created ≠ s.created

theorem reconnects_now {cfg : VirtualClientConfig} {s t : VirtualClient κ} {e : Event κ}
    (he : Enabled s e) (hcmd : ¬ e.IsCommand) (ht : step cfg s e = .ok t)
    (hcreated : t.created = s.created + 1) : Reconnects cfg s :=
  ⟨[e], t, .single he ht, by simpa using hcmd, by omega⟩

theorem reconnects_after {cfg : VirtualClientConfig} {s t : VirtualClient κ} {e : Event κ}
    (he : Enabled s e) (hcmd : ¬ e.IsCommand) (ht : step cfg s e = .ok t)
    (hcreated : t.created = s.created) (h : Reconnects cfg t) : Reconnects cfg s := by
  obtain ⟨es, u, hu, hes, hne⟩ := h
  refine ⟨e :: es, u, .cons he ht hu, ?_, by rwa [hcreated] at hne⟩
  simpa using ⟨hcmd, hes⟩

/-- A queued retry handler that finds no session creates one. -/
theorem reconnects_of_ready {cfg : VirtualClientConfig} {s : VirtualClient κ} (hs : Inv s)
    (hi : s.inOnClose = false) (hr : 0 < s.retryTimer.ready) (hn : s.signaling = none) :
    Reconnects cfg s := by
  have hc := hs.closing_false hn
  have ho := hs.onClose_none hi hc
  refine reconnects_now (e := .retryReady) ⟨hr, hi⟩ id rfl ?_
  simp [retry, ho, connect, hc, hn]

/-- A reconnect that waits, with no callback kept, creates a session when the
close ends. -/
theorem reconnects_of_waiting {cfg : VirtualClientConfig} {s : VirtualClient κ} (hs : Inv s)
    (hi : s.inOnClose = false) (hr : s.needReconnect = true) (ho : s.onClose = none) :
    Reconnects cfg s := by
  have hc := hs.reconnect_closing hr
  obtain ⟨n, hn⟩ := Option.ne_none_iff_exists'.mp (hs.closing_session hc)
  refine reconnects_now (e := .disconnected n "") ⟨(hs.live_iff n).mpr hn, hi⟩ id rfl ?_
  rw [onDisconnect_reconnect cfg "" (s := { s with log := s.log ++ [.disconnected n] }) hc hr ho]

/-- A queued retry handler outlives a close in progress, and then reconnects. -/
theorem reconnects_of_ready_closing {cfg : VirtualClientConfig} {s : VirtualClient κ} {n : Nat}
    (hs : Inv s) (hi : s.inOnClose = false) (hr : 0 < s.retryTimer.ready)
    (hc : s.closing = true) (hn : s.signaling = some n) : Reconnects cfg s := by
  have he : Enabled s (.disconnected n "") := ⟨(hs.live_iff n).mpr hn, hi⟩
  let r : VirtualClient κ := { s with log := s.log ++ [.disconnected n] }
  have hafter : Inv (onDisconnect cfg "" r) := onDisconnect_inv cfg "" hs he.1 hi
  cases ho : s.onClose with
  | some f =>
    have hcalled := onDisconnect_answered cfg "" (s := r) hc ho
    have hreturned : Inv (onCloseReturned (onDisconnect cfg "" r)) :=
      step_inv cfg hafter (e := .onCloseReturned) (by simp [Enabled, hcalled]) rfl
    refine reconnects_after he id rfl (by simp [r, hcalled]) ?_
    refine reconnects_after (e := .onCloseReturned) (by simp [Enabled, r, hcalled]) id rfl rfl ?_
    exact reconnects_of_ready hreturned rfl (by simp [r, hcalled, onCloseReturned, hr])
      (by simp [r, hcalled, onCloseReturned])
  | none =>
    cases hrec : s.needReconnect with
    | true => exact reconnects_of_waiting hs hi hrec ho
    | false =>
      have hclosed := onDisconnect_closed cfg "" (s := r) hc hrec ho
      have hidle : (onDisconnect cfg "" r).inOnClose = false := by rw [hclosed]; exact hi
      have hready : 0 < (onDisconnect cfg "" r).retryTimer.ready := by rw [hclosed]; exact hr
      have hnone : (onDisconnect cfg "" r).signaling = none := by rw [hclosed]
      refine reconnects_after he id rfl (by rw [hclosed]) ?_
      exact reconnects_of_ready hafter hidle hready hnone

/-- What `Close` leaves alone. -/
theorem close_keeps {cb : Option κ} {s t : VirtualClient κ} (ht : close cb s = .ok t) :
    t.retryTimer = s.retryTimer ∧ t.needReconnect = s.needReconnect ∧
      t.inOnClose = s.inOnClose ∧ t.created = s.created ∧
      (t.signaling ≠ none → t.closing = true) := by
  obtain ⟨hc, _, rfl⟩ | ⟨n, _, _, rfl⟩ | ⟨f, message, _, ⟨hc, _⟩ | ⟨_, hn⟩, rfl⟩ := close_cases ht
  · exact ⟨rfl, rfl, rfl, rfl, fun _ => hc⟩
  · exact ⟨rfl, rfl, rfl, rfl, fun _ => rfl⟩
  · exact ⟨rfl, rfl, rfl, rfl, fun _ => hc⟩
  · exact ⟨rfl, rfl, rfl, rfl, fun h => absurd hn h⟩

/-- Between handlers, with every session on its way out, each of the three
things that `FinalClose` excludes leads to a new session. -/
theorem reconnects_of_pending {cfg : VirtualClientConfig} {s : VirtualClient κ} (hs : Inv s)
    (hi : s.inOnClose = false) (hc : s.signaling ≠ none → s.closing = true)
    (h : 0 < s.retryTimer.waiting ∨ 0 < s.retryTimer.ready ∨
      s.needReconnect = true ∧ s.onClose = none) : Reconnects cfg s := by
  obtain hw | hr | ⟨hr, ho⟩ := h
  · have hexpired : Inv { s with retryTimer := s.retryTimer.expire } :=
      step_inv cfg hs (e := .retryExpired) trivial rfl
    refine reconnects_after (e := .retryExpired) trivial id rfl rfl ?_
    exact reconnects_of_ready hexpired hi (by simp; omega) (hs.waiting_idle hw).1
  · cases hn : s.signaling with
    | none => exact reconnects_of_ready hs hi hr hn
    | some n => exact reconnects_of_ready_closing hs hi hr (hc (by simp [hn])) hn
  · exact reconnects_of_waiting hs hi hr ho

theorem reconnects_of_not_final (cfg : VirtualClientConfig) {cb : Option κ}
    {s t : VirtualClient κ} (hs : Inv s) (ht : close cb s = .ok t) (hf : ¬ FinalClose s cb) :
    Reconnects cfg t := by
  have hinv := close_inv hs ht
  obtain ⟨htimer, hneed, hin, _, hclosing⟩ := close_keeps ht
  have hpending : 0 < t.retryTimer.waiting ∨ 0 < t.retryTimer.ready ∨
      t.needReconnect = true ∧ (t.inOnClose = true ∨ t.onClose = none) := by
    rw [htimer, hneed, hin]
    by_contra hnone
    push Not at hnone
    obtain ⟨hw, hr, hn⟩ := hnone
    refine hf ⟨by omega, by omega, fun h => ?_⟩
    obtain ⟨hi, ho⟩ := hn h
    refine ⟨by simpa using hi, ?_⟩
    by_contra hempty
    push Not at hempty
    obtain ⟨_, _, rfl⟩ | ⟨n, hc, _, rfl⟩ | ⟨f, message, rfl, _⟩ := close_cases ht
    · exact ho hempty.2
    · exact ho hempty.2
    · simp at hempty
  cases hi : t.inOnClose with
  | false =>
    refine reconnects_of_pending hinv hi hclosing ?_
    simpa [hi] using hpending
  | true =>
    -- the callback has to return first, and then none is kept
    have hreturned : Inv (onCloseReturned t) := step_inv cfg hinv (e := .onCloseReturned) hi rfl
    refine reconnects_after (e := .onCloseReturned) hi id rfl rfl ?_
    refine reconnects_of_pending hreturned rfl hclosing ?_
    obtain hw | hr | ⟨hn, _⟩ := hpending
    · exact .inl hw
    · exact .inr (.inl hr)
    · exact .inr (.inr ⟨hn, rfl⟩)

/-- After a `Close` in any reachable state, exactly under `FinalClose` no run
without a further command creates a session. -/
theorem close_final_iff {cfg : VirtualClientConfig} {es : List (Event κ)}
    {s t : VirtualClient κ} {cb : Option κ} (h : Runs cfg es s) (ht : close cb s = .ok t) :
    (∀ fs u, (machine cfg).Run t fs u → (∀ e ∈ fs, ¬ e.IsCommand) → u.created = t.created) ↔
      FinalClose s cb := by
  have hs := runs_inv h
  constructor
  · intro hall
    by_contra hf
    obtain ⟨fs, u, hu, hfs, hne⟩ := reconnects_of_not_final cfg hs ht hf
    exact hne (hall fs u hu hfs)
  · intro hf fs u hu hfs
    exact final_run hu (close_inv hs ht) (close_final hs hf ht) hfs

/-- One session is up when it is closed, and nothing comes after it. -/
theorem close_final_up : ∃ s t : VirtualClient Unit, Runs {} [.connect] s ∧
    close (some ()) s = .ok t ∧ ∀ fs u, (machine {}).Run t fs u → (∀ e ∈ fs, ¬ e.IsCommand) →
      u.created = t.created := by
  have hs := Machine.exec_get_run (machine (κ := Unit) {}) init [.connect] (by decide)
  exact ⟨_, _, hs, rfl, (close_final_iff hs rfl).mpr ⟨rfl, rfl, by decide⟩⟩

/-- The server drops the connection, the retry is armed, and `Close` with a
callback leaves it armed; or a reconnect waits, and `Close` without a callback
leaves it waiting. -/
theorem close_not_final :
    (¬ ∀ (es fs : List (Event Unit)) (t u : VirtualClient Unit),
      Runs { maxRetry := 1 } (es ++ [.close (some ())]) t →
      (machine { maxRetry := 1 }).Run t fs u → (∀ e ∈ fs, ¬ e.IsCommand) → u.created = t.created) ∧
    (¬ ∀ (es fs : List (Event Unit)) (t u : VirtualClient Unit),
      Runs {} (es ++ [.close none]) t →
      (machine {}).Run t fs u → (∀ e ∈ fs, ¬ e.IsCommand) → u.created = t.created) := by
  constructor
  · intro h
    obtain ⟨t, u, ht, hu, hp⟩ := Machine.exec_exists_then (machine { maxRetry := 1 }) init
      [.connect, .disconnected 0 "dropped", .close (some ())] [.retryExpired, .retryReady]
      (fun t u : VirtualClient Unit => u.created != t.created) (by decide)
    exact absurd (h [.connect, .disconnected 0 "dropped"] _ t u ht hu (by decide)) (by simpa using hp)
  · intro h
    obtain ⟨t, u, ht, hu, hp⟩ := Machine.exec_exists_then (machine {}) init
      [.connect, .connect, .close none] [.disconnected 0 "closed"]
      (fun t u : VirtualClient Unit => u.created != t.created) (by decide)
    exact absurd (h [.connect, .connect] _ t u ht hu (by decide)) (by simpa using hp)

end VirtualClient
