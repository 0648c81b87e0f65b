import Zakuro.VirtualClientSession

/-!
# Every callback given to `Close` is answered once

For callbacks that do not call back into the client. The callbacks given so far
are, counted with multiplicity, those already called and the one that is kept.
-/

namespace VirtualClient

variable {κ : Type}

def Event.given? : Event κ → Option κ
  | .close cb => cb
  | _ => none

def Entry.answered? : Entry κ → Option κ
  | .onClose f _ => some f
  | _ => none

/-- The non-empty callbacks given to `Close`, in order. -/
def given (es : List (Event κ)) : List κ := es.filterMap Event.given?

/-- The callbacks called, in order. -/
def answered (log : List (Entry κ)) : List κ := log.filterMap Entry.answered?

@[simp] theorem given_append (es fs : List (Event κ)) : given (es ++ fs) = given es ++ given fs :=
  List.filterMap_append
@[simp] theorem given_nil : given ([] : List (Event κ)) = [] := rfl
@[simp] theorem given_singleton (e : Event κ) : given [e] = e.given?.toList := by
  cases h : e.given? <;> simp [given, h]
@[simp] theorem answered_append (log more : List (Entry κ)) :
    answered (log ++ more) = answered log ++ answered more := List.filterMap_append
@[simp] theorem answered_nil : answered ([] : List (Entry κ)) = [] := rfl
@[simp] theorem answered_create (n : Nat) (log : List (Entry κ)) :
    answered (.create n :: log) = answered log := rfl
@[simp] theorem answered_disconnect (n : Nat) (log : List (Entry κ)) :
    answered (.disconnect n :: log) = answered log := rfl
@[simp] theorem answered_sendDataChannel (n : Nat) (label : String) (data : List UInt8)
    (log : List (Entry κ)) :
    answered (.sendDataChannel n label data :: log) = answered log := rfl
@[simp] theorem answered_disconnected (n : Nat) (log : List (Entry κ)) :
    answered (.disconnected n :: log) = answered log := rfl
@[simp] theorem answered_onClose (f : κ) (message : String) (log : List (Entry κ)) :
    answered (.onClose f message :: log) = f :: answered log := rfl

/-- A callback that runs makes no call of the client. -/
def NoCallBack (s : VirtualClient κ) : Event κ → Prop
  | .connect | .close _ | .sendMessage _ _ => s.inOnClose = false
  | _ => True

instance (s : VirtualClient κ) : DecidablePred (NoCallBack s)
  | .connect | .close _ | .sendMessage _ _ => inferInstanceAs (Decidable (s.inOnClose = false))
  | .disconnected _ _ | .onCloseReturned | .notify _ | .retryExpired | .retryReady | .retryAborted =>
    .isTrue trivial

/-- The client as its event loop drives it when callbacks keep to themselves. -/
def quietMachine (cfg : VirtualClientConfig) : Machine (VirtualClient κ) (Event κ) Fault :=
  (machine cfg).restrict NoCallBack

instance [DecidableEq κ] (cfg : VirtualClientConfig) (s : VirtualClient κ) (e : Event κ) :
    Decidable ((quietMachine cfg).enabled s e) :=
  inferInstanceAs (Decidable (Enabled s e ∧ NoCallBack s e))

/-- The callback that is kept and has not been called yet. -/
def kept (s : VirtualClient κ) : Option κ := if s.inOnClose then none else s.onClose

/-! ## What a step does to the callbacks -/

@[simp] theorem connect_onClose (s : VirtualClient κ) : (connect s).onClose = s.onClose := by
  unfold connect; split <;> [rfl; split <;> rfl]
@[simp] theorem connect_inOnClose (s : VirtualClient κ) :
    (connect s).inOnClose = s.inOnClose := by
  unfold connect; split <;> [rfl; split <;> rfl]
@[simp] theorem connect_answered (s : VirtualClient κ) :
    answered (connect s).log = answered s.log := by
  unfold connect; split <;> [rfl; split <;> simp]

@[simp] theorem sendMessage_onClose (label : String) (data : List UInt8) (s : VirtualClient κ) :
    (sendMessage label data s).onClose = s.onClose := by
  unfold sendMessage; split <;> [rfl; split <;> rfl]
@[simp] theorem sendMessage_inOnClose (label : String) (data : List UInt8)
    (s : VirtualClient κ) : (sendMessage label data s).inOnClose = s.inOnClose := by
  unfold sendMessage; split <;> [rfl; split <;> rfl]
@[simp] theorem sendMessage_answered (label : String) (data : List UInt8)
    (s : VirtualClient κ) : answered (sendMessage label data s).log = answered s.log := by
  unfold sendMessage; split <;> [rfl; split <;> simp]

@[simp] theorem armRetry_inOnClose (cfg : VirtualClientConfig) (s : VirtualClient κ) :
    (armRetry cfg s).inOnClose = s.inOnClose := by
  obtain h | ⟨_, h⟩ := armRetry_cases cfg s <;> rw [h]
@[simp] theorem armRetry_log (cfg : VirtualClientConfig) (s : VirtualClient κ) :
    (armRetry cfg s).log = s.log := by
  obtain h | ⟨_, h⟩ := armRetry_cases cfg s <;> rw [h]

@[simp] theorem retry_onClose (s : VirtualClient κ) : (retry s).onClose = s.onClose := by
  obtain ⟨_, h⟩ | ⟨_, h⟩ := retry_eq s <;> simp [h]
@[simp] theorem retry_inOnClose (s : VirtualClient κ) : (retry s).inOnClose = s.inOnClose := by
  obtain ⟨_, h⟩ | ⟨_, h⟩ := retry_eq s <;> simp [h]
@[simp] theorem retry_answered (s : VirtualClient κ) :
    answered (retry s).log = answered s.log := by
  obtain ⟨_, h⟩ | ⟨_, h⟩ := retry_eq s <;> simp [h]

/-- Only `Close`, `OnDisconnect` and the return of a callback touch `on_close_`. -/
theorem step_onClose (cfg : VirtualClientConfig) {s t : VirtualClient κ} {e : Event κ}
    (ht : step cfg s e = .ok t) (hclose : ∀ cb, e ≠ .close cb)
    (hreport : ∀ n message, e ≠ .disconnected n message) (hreturn : e ≠ .onCloseReturned) :
    t.onClose = s.onClose ∧ t.inOnClose = s.inOnClose ∧ answered t.log = answered s.log := by
  cases e with
  | close cb => exact absurd rfl (hclose cb)
  | disconnected n message => exact absurd rfl (hreport n message)
  | onCloseReturned => exact absurd rfl hreturn
  | connect => obtain rfl := Except.ok.inj ht; simp
  | sendMessage label data => obtain rfl := Except.ok.inj ht; simp
  | notify json => obtain rfl | rfl := onNotify_eq ht <;> simp
  | retryExpired => obtain rfl := Except.ok.inj ht; simp
  | retryReady => obtain rfl := Except.ok.inj ht; simp
  | retryAborted => obtain rfl := Except.ok.inj ht; simp

/-- A callback given to `Close` is called at once, or it takes the empty place
in `on_close_`. -/
theorem close_answer {s t : VirtualClient κ} {f : κ} (hs : Inv s) (hq : s.inOnClose = false)
    (ht : close (some f) s = .ok t) :
    ((∃ message, t.log = s.log ++ [.onClose f message]) ∧ t.onClose = s.onClose ∧
      t.inOnClose = false) ∨
    (s.onClose = none ∧ t.onClose = some f ∧ t.inOnClose = false ∧
      answered t.log = answered s.log) := by
  obtain ⟨_, ho, rfl⟩ | ⟨n, hc, _, rfl⟩ | ⟨g, message, hg, _, rfl⟩ := close_cases ht
  · exact .inr ⟨ho, rfl, hq, rfl⟩
  · exact .inr ⟨hs.onClose_none hq hc, rfl, hq, by simp⟩
  · obtain rfl : f = g := by simpa using hg
    exact .inl ⟨⟨message, rfl⟩, rfl, hq⟩

/-- A `Close` without a callback that does not throw leaves `on_close_` empty. -/
theorem close_none_onClose {s t : VirtualClient κ} (hs : Inv s) (hq : s.inOnClose = false)
    (ht : close none s = .ok t) :
    s.onClose = none ∧ t.onClose = none ∧ t.inOnClose = false ∧ answered t.log = answered s.log := by
  obtain ⟨_, ho, rfl⟩ | ⟨n, hc, _, rfl⟩ | ⟨g, message, hg, _, rfl⟩ := close_cases ht
  · exact ⟨ho, rfl, hq, rfl⟩
  · exact ⟨hs.onClose_none hq hc, rfl, hq, by simp⟩
  · simp at hg

/-- The callback that is kept is called by `OnDisconnect`, once. -/
theorem disconnected_answer {cfg : VirtualClientConfig} {s t : VirtualClient κ} {n : Nat}
    {message : String} {f : κ} (hs : Inv s) (hq : s.inOnClose = false) (ho : s.onClose = some f)
    (ht : step cfg s (.disconnected n message) = .ok t) :
    t.log = s.log ++ [.disconnected n, .onClose f message] ∧ kept t = none := by
  have hc : s.closing = true := hs.onClose_closing hq (by simp [ho])
  obtain rfl := Except.ok.inj ht
  rw [onDisconnect_answered cfg message (s := { s with log := s.log ++ [.disconnected n] }) hc ho]
  simp [kept]

theorem disconnected_none {cfg : VirtualClientConfig} {s t : VirtualClient κ} {n : Nat}
    {message : String} (hq : s.inOnClose = false) (ho : s.onClose = none)
    (ht : step cfg s (.disconnected n message) = .ok t) :
    t.onClose = none ∧ t.inOnClose = false ∧ answered t.log = answered s.log := by
  obtain rfl := Except.ok.inj ht
  let r : VirtualClient κ := { s with log := s.log ++ [.disconnected n] }
  change (onDisconnect cfg message r).onClose = none ∧ (onDisconnect cfg message r).inOnClose = false ∧
    answered (onDisconnect cfg message r).log = answered s.log
  cases hc : s.closing with
  | false =>
    rw [onDisconnect_dropped cfg message (s := r) hc ho]
    simp [r, ho, hq]
  | true =>
    cases hr : s.needReconnect with
    | true =>
      rw [onDisconnect_reconnect cfg message (s := r) hc hr ho]
      simp [r, ho, hq]
    | false =>
      rw [onDisconnect_closed cfg message (s := r) hc hr ho]
      simp [r, ho, hq]

/-- One step answers, or keeps, exactly what was kept and what it is given. -/
theorem step_ledger (cfg : VirtualClientConfig) {s t : VirtualClient κ} {e : Event κ}
    (hs : Inv s) (he : Enabled s e) (hq : NoCallBack s e) (ht : step cfg s e = .ok t) :
    ∃ called, answered t.log = answered s.log ++ called ∧
      (given [e] ++ (kept s).toList).Perm (called ++ (kept t).toList) := by
  by_cases hplain : (∀ cb, e ≠ .close cb) ∧ (∀ n message, e ≠ .disconnected n message) ∧
      e ≠ .onCloseReturned
  · obtain ⟨ho, hi, ha⟩ := step_onClose cfg ht hplain.1 hplain.2.1 hplain.2.2
    refine ⟨[], by simpa using ha, ?_⟩
    have hg : e.given? = none := by cases e <;> first | rfl | exact absurd rfl (hplain.1 _)
    simp [hg, kept, ho, hi]
  · cases e with
    | close cb =>
      cases cb with
      | none =>
        obtain ⟨hso, hto, hti, ha⟩ := close_none_onClose hs hq ht
        exact ⟨[], by simpa using ha, by simp [Event.given?, kept, hso, hto]⟩
      | some f =>
        obtain ⟨⟨message, hl⟩, ho, hi⟩ | ⟨hso, hto, hti, ha⟩ := close_answer hs hq ht
        · have hq : s.inOnClose = false := hq
          exact ⟨[f], by simp [hl], by simp [Event.given?, kept, ho, hi, hq]⟩
        · exact ⟨[], by simpa using ha, by simp [Event.given?, kept, hso, hto, hti]⟩
    | disconnected n message =>
      cases ho : s.onClose with
      | none =>
        obtain ⟨hto, _, ha⟩ := disconnected_none he.2 ho ht
        exact ⟨[], by simpa using ha, by simp [Event.given?, kept, ho, hto]⟩
      | some f =>
        obtain ⟨hl, hk⟩ := disconnected_answer hs he.2 ho ht
        exact ⟨[f], by simp [hl], by rw [hk]; simp [Event.given?, kept, ho, he.2]⟩
    | onCloseReturned =>
      obtain rfl := Except.ok.inj ht
      have hi : s.inOnClose = true := he
      exact ⟨[], by simp [onCloseReturned], by simp [Event.given?, kept, onCloseReturned, hi]⟩
    | _ => simp at hplain

/-- In every run the callbacks given are those called and the one kept. -/
theorem quiet_ledger {cfg : VirtualClientConfig} {es : List (Event κ)} {s : VirtualClient κ}
    (h : (quietMachine cfg).Run init es s) :
    (given es).Perm (answered s.log ++ (kept s).toList) := by
  have hboth : Inv s ∧ (given es).Perm (answered s.log ++ (kept s).toList) := by
    refine Machine.Run.history
      (I := fun es s => Inv s ∧ (given es).Perm (answered s.log ++ (kept s).toList)) ?_ h
      ⟨init_inv, List.Perm.refl _⟩
    rintro es s e t ⟨hs, hp⟩ he ht
    obtain ⟨called, ha, hstep⟩ := step_ledger cfg hs he.1 he.2 ht
    refine ⟨step_inv cfg hs he.1 ht, ?_⟩
    rw [given_append, ha]
    calc given es ++ given [e]
      _ |>.Perm (answered s.log ++ (kept s).toList ++ given [e]) := hp.append_right _
      _ |>.Perm (answered s.log ++ (given [e] ++ (kept s).toList)) := by
        rw [List.append_assoc]; exact List.perm_append_comm.append_left _
      _ |>.Perm (answered s.log ++ called ++ (kept t).toList) := by
        rw [List.append_assoc]; exact hstep.append_left _
  exact hboth.2

/-- While a callback is kept, every further callback is called at once, and the
kept one waits for the next `OnDisconnect`. -/
theorem kept_until_disconnected {cfg : VirtualClientConfig} {s t : VirtualClient κ} {f : κ}
    {es : List (Event κ)} (h : (quietMachine cfg).Run s es t) (hs : Inv s)
    (hq : s.inOnClose = false) (ho : s.onClose = some f)
    (hes : ∀ n message, Event.disconnected n message ∉ es) :
    t.onClose = some f ∧ t.inOnClose = false ∧ answered t.log = answered s.log ++ given es := by
  induction h with
  | nil s => exact ⟨ho, hq, by simp⟩
  | @cons s u t e es he hu _ ih =>
    replace hu : step cfg s e = .ok u := hu
    have hstep : u.onClose = some f ∧ u.inOnClose = false ∧
        answered u.log = answered s.log ++ given [e] := by
      cases e with
      | close cb =>
        cases cb with
        | none =>
          have := (close_none_onClose hs hq hu).1
          simp [ho] at this
        | some g =>
          obtain ⟨⟨message, hl⟩, huo, hui⟩ | ⟨hso, _⟩ := close_answer hs hq hu
          · exact ⟨huo.trans ho, hui, by simp [hl, Event.given?]⟩
          · simp [ho] at hso
      | disconnected n message => exact absurd (List.mem_cons_self ..) (hes n message)
      | onCloseReturned =>
        have hi : s.inOnClose = true := he.1
        simp [hq] at hi
      | _ =>
        obtain ⟨huo, hui, ha⟩ := step_onClose cfg hu (by simp) (by simp) (by simp)
        exact ⟨huo.trans ho, hui.trans hq, by simpa [Event.given?] using ha⟩
    obtain ⟨huo, hui, ha⟩ := hstep
    obtain ⟨hto, hti, hta⟩ := ih (step_inv cfg hs he.1 hu) hui huo
      (fun n message hm => hes n message (List.mem_cons_of_mem _ hm))
    refine ⟨hto, hti, ?_⟩
    rw [hta, ha, List.append_assoc, ← given_append]
    rfl

/-- Over every run, the callbacks given are, each as often as it was given,
those called and the one kept; each is called at once or takes the empty place;
and the one kept stays there until the next `OnDisconnect`, which calls it. -/
theorem callbacks_answered_once {cfg : VirtualClientConfig} {es : List (Event κ)}
    {s : VirtualClient κ} (h : (quietMachine cfg).Run init es s) :
    (given es).Perm (answered s.log ++ (kept s).toList) ∧
    (∀ f, s.inOnClose = false → ∃ t, step cfg s (.close (some f)) = .ok t ∧
      ((∃ message, t.log = s.log ++ [.onClose f message]) ∧ t.onClose = s.onClose ∨
        s.onClose = none ∧ t.onClose = some f ∧ answered t.log = answered s.log)) ∧
    (∀ f fs t, s.inOnClose = false → s.onClose = some f → (quietMachine cfg).Run s fs t →
      (∀ n message, Event.disconnected n message ∉ fs) →
      t.onClose = some f ∧ answered t.log = answered s.log ++ given fs ∧
      ∀ n message u, Enabled t (.disconnected n message) →
        step cfg t (.disconnected n message) = .ok u →
        u.log = t.log ++ [.disconnected n, .onClose f message] ∧ kept u = none) := by
  have hs := runs_inv h.of_restrict
  refine ⟨quiet_ledger h, ?_, ?_⟩
  · intro f hq
    obtain ⟨t, ht⟩ := close_some_ok f s
    obtain ⟨hl, ho, _⟩ | ⟨hso, hto, _, ha⟩ := close_answer hs hq ht
    · exact ⟨t, ht, .inl ⟨hl, ho⟩⟩
    · exact ⟨t, ht, .inr ⟨hso, hto, ha⟩⟩
  · intro f fs t hq ho hrun hfs
    obtain ⟨hto, hti, ha⟩ := kept_until_disconnected hrun hs hq ho hfs
    have ht := run_inv hrun.of_restrict hs
    exact ⟨hto, ha, fun n message u _ hu => disconnected_answer ht hti hto hu⟩

/-- Two callbacks during one close: the second is called at once, the first by
`OnDisconnect`, and the reconnect asked for in between is given up. -/
theorem callbacks_answered_once_two : ∃ s : VirtualClient Nat,
    (quietMachine {}).Run init [.connect, .close (some 7), .connect, .close (some 8),
      .disconnected 0 "bye", .onCloseReturned] s ∧
    answered s.log = [8, 7] ∧
    (given [.connect, .close (some 7), .connect, .close (some 8), .disconnected 0 "bye",
      .onCloseReturned]).Perm (answered s.log ++ (kept s).toList) := by
  obtain ⟨s, hs, hp⟩ := Machine.exec_exists (quietMachine {}) init
    [.connect, .close (some 7), .connect, .close (some 8), .disconnected 0 "bye", .onCloseReturned]
    (fun s : VirtualClient Nat => answered s.log == [8, 7]) (by decide)
  exact ⟨s, hs, by simpa using hp, (callbacks_answered_once hs).1⟩

end VirtualClient
