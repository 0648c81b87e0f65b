import Zakuro.TimedScenarios
import Zakuro.VirtualClientRetry

/-!
# The retries of a client and the clock

A client with the steady clock of its retry timer. A session that is lost is not
replaced before the retry interval is over, so that a client that is left alone
never makes more sessions than the interval allows, however its sessions end.
-/

/-- Something that happened to a session. -/
inductive SessionMark where
  | made
  | ended
  deriving DecidableEq, Repr

/-- Times are in nanoseconds. -/
structure TimedClient (κ : Type) where
  client : VirtualClient κ := .init
  now : Int
  /-- The expiry of the retry timer. -/
  expiry : Int := 0
  /-- What happened to the sessions, and when. -/
  marks : List (SessionMark × Int) := []

namespace TimedClient

open VirtualClient (Inv RetryAlone Unraced)
open TimedWorld (ns)
open History

variable {κ : Type}

structure Event (κ : Type) where
  time : Int
  event : VirtualClient.Event κ

/-- `OnDisconnect` sets the expiry of the timer where it retries. -/
def expiryAfter (cfg : VirtualClientConfig) (s : TimedClient κ) (e : Event κ) : Int :=
  match e.event with
  | .disconnected _ _ =>
    if s.client.closing = false ∧ s.client.retryCount < cfg.maxRetry then e.time + ns cfg.retryIntervalMs
    else s.expiry
  | _ => s.expiry

/-- An event ends a session, makes one, or does the one and then the other. -/
def marksOf (s : TimedClient κ) (e : Event κ) (client : VirtualClient κ) : List SessionMark :=
  (match e.event with
    | .disconnected _ _ => [.ended]
    | _ => []) ++ if client.created = s.client.created then [] else [.made]

def step (cfg : VirtualClientConfig) (s : TimedClient κ) (e : Event κ) :
    Except VirtualClient.Fault (TimedClient κ) :=
  (VirtualClient.step cfg s.client e.event).map fun client =>
    { client := client
      now := e.time
      expiry := s.expiryAfter cfg e
      marks := s.marks ++ (s.marksOf e client).map fun m => (m, e.time) }

/-- The wait ends without an error when the expiry has passed. -/
def Due (s : TimedClient κ) (e : Event κ) : Prop :=
  match e.event with
  | .retryExpired => s.expiry ≤ e.time
  | _ => True

instance (s : TimedClient κ) (e : Event κ) : Decidable (s.Due e) :=
  match h : e.event with
  | .retryExpired => decidable_of_iff (s.expiry ≤ e.time) (by rw [Due, h])
  | .connect | .close _ | .sendMessage _ _ | .disconnected _ _ | .onCloseReturned | .notify _ | .retryReady
  | .retryAborted => .isTrue (by rw [Due, h]; trivial)

def machine (cfg : VirtualClientConfig) : Machine (TimedClient κ) (Event κ) VirtualClient.Fault where
  enabled s e := s.now ≤ e.time ∧ s.Due e ∧ VirtualClient.Enabled s.client e.event
  step := step cfg

instance [DecidableEq κ] (cfg : VirtualClientConfig) (s : TimedClient κ) (e : Event κ) :
    Decidable ((machine cfg).enabled s e) :=
  inferInstanceAs (Decidable (_ ∧ _ ∧ _))

/-- No `Connect` makes a session while a handler of the retry timer is queued. -/
def unraced (cfg : VirtualClientConfig) : Machine (TimedClient κ) (Event κ) VirtualClient.Fault :=
  (machine cfg).restrict fun s e => Unraced s.client e.event

instance [DecidableEq κ] (cfg : VirtualClientConfig) (s : TimedClient κ) (e : Event κ) :
    Decidable ((unraced cfg).enabled s e) :=
  inferInstanceAs (Decidable (_ ∧ _))

/-- A client that is constructed at a time. -/
def start (t0 : Int) : TimedClient κ where
  now := t0

/-- With its clock a client goes through a run of the client. -/
theorem projects (cfg : VirtualClientConfig) :
    Machine.ProjectsTo (unraced (κ := κ) cfg) ((VirtualClient.machine cfg).restrict Unraced) TimedClient.client
      fun _ e => [e.event] := by
  rintro s e t ⟨⟨-, -, henabled⟩, hunraced⟩ hs
  obtain ⟨client, hclient, rfl⟩ := Machine.map_eq_ok hs
  exact .single ⟨henabled, hunraced⟩ hclient

/-! ## A client that is left alone -/

/-- A session is made later by `d` than all that was before. -/
def Late (d : Int) (before : List (SessionMark × Int)) (x : SessionMark × Int) : Prop :=
  x.1 = .made → ∀ y ∈ before, y.2 + d ≤ x.2

/-- A client to which `since` has happened since it was left alone. -/
structure Resting (d : Int) (since : List (SessionMark × Int)) (s : TimedClient κ) : Prop where
  client : Inv s.client
  alone : RetryAlone s.client
  closing : s.client.closing = false
  late : Each (Late d) since
  past : ∀ y ∈ since, y.2 ≤ s.now
  waiting : 0 < s.client.retryTimer.waiting → ∀ y ∈ since, y.2 + d ≤ s.expiry
  ready : 0 < s.client.retryTimer.ready → ∀ y ∈ since, y.2 + d ≤ s.now

theorem Resting.start {d : Int} {s : TimedClient κ} (hclient : Inv s.client) (halone : RetryAlone s.client)
    (hclosing : s.client.closing = false) : Resting d [] s where
  client := hclient
  alone := halone
  closing := hclosing
  late := .nil _
  past := by simp
  waiting := by simp
  ready := by simp

section Step

variable {d : Int} {since : List (SessionMark × Int)} {s : TimedClient κ} {ms : List SessionMark}
  {client : VirtualClient κ} {time expiry : Int} {marks : List (SessionMark × Int)}

/-- Nothing happens to the sessions. -/
theorem Resting.stay (h : Resting d since s) (hms : ms = []) (hclient : Inv client) (halone : RetryAlone client)
    (hclosing : client.closing = false) (hnow : s.now ≤ time)
    (hwaiting : 0 < client.retryTimer.waiting → ∀ y ∈ since, y.2 + d ≤ expiry)
    (hready : 0 < client.retryTimer.ready → ∀ y ∈ since, y.2 + d ≤ time) :
    Resting d (since ++ ms.map fun m => (m, time)) ⟨client, time, expiry, marks⟩ := by
  rw [hms, List.map_nil, List.append_nil]
  exact {
    client := hclient
    alone := halone
    closing := hclosing
    late := h.late
    past := fun y hy => Int.le_trans (h.past y hy) hnow
    waiting := hwaiting
    ready := hready }

/-- Something happens to a session, and only a loss has armed the timer. -/
theorem Resting.mark (h : Resting d since s) {m : SessionMark} (hms : ms = [m]) (hclient : Inv client)
    (halone : RetryAlone client) (hclosing : client.closing = false) (hnow : s.now ≤ time)
    (hmade : m = .made → 0 < s.client.retryTimer.ready)
    (hwaiting : 0 < client.retryTimer.waiting → expiry = time + d) (hready : client.retryTimer.ready = 0) :
    Resting d (since ++ ms.map fun m => (m, time)) ⟨client, time, expiry, marks⟩ := by
  rw [hms, List.map_singleton]
  have hpast : ∀ y ∈ since ++ [(m, time)], y.2 ≤ time := by
    intro y hy
    rcases List.mem_append.mp hy with hy | hy
    · exact Int.le_trans (h.past y hy) hnow
    · rw [List.mem_singleton.mp hy]
  exact {
    client := hclient
    alone := halone
    closing := hclosing
    late := h.late.snoc fun hm y hy => Int.le_trans (h.ready (hmade hm) y hy) hnow
    past := hpast
    waiting := by
      intro hw y hy
      have hle := hpast y hy
      have hexpiry := hwaiting hw
      change y.2 + d ≤ expiry
      omega
    ready := fun hr => absurd hready (Nat.ne_of_gt hr) }

end Step

/-- A client to which no command is given does not race with its retry timer. -/
theorem unraced_of_uncommanded {s : VirtualClient κ} {e : VirtualClient.Event κ} (h : ¬ e.IsCommand) :
    Unraced s e := by
  cases e with
  | connect => exact absurd trivial h
  | _ => trivial

theorem Resting.step {cfg : VirtualClientConfig} {since : List (SessionMark × Int)} {s t : TimedClient κ}
    {e : Event κ} (h : Resting (ns cfg.retryIntervalMs) since s) (he : (machine cfg).enabled s e)
    (hcommand : ¬ e.event.IsCommand) (hs : step cfg s e = .ok t) :
    ∃ marks, t.marks = s.marks ++ marks ∧ Resting (ns cfg.retryIntervalMs) (since ++ marks) t := by
  obtain ⟨time, event⟩ := e
  obtain ⟨hnow, hdue, henabled⟩ := he
  obtain ⟨client, hclient, rfl⟩ := Machine.map_eq_ok hs
  have hinv : Inv client := VirtualClient.step_inv cfg h.client henabled hclient
  have halone : RetryAlone client :=
    VirtualClient.step_retryAlone h.client h.alone henabled (unraced_of_uncommanded hcommand) hclient
  refine ⟨_, rfl, ?_⟩
  have hopen {p : Prop} (hc : s.client.closing = true) : p := by
    rw [h.closing] at hc
    cases hc
  have hready : 0 < s.client.retryTimer.ready → ∀ y ∈ since, y.2 + ns cfg.retryIntervalMs ≤ time :=
    fun hr y hy => Int.le_trans (h.ready hr y hy) hnow
  cases VirtualClient.step_cases h.client henabled hclient with
  | connects => exact absurd trivial hcommand
  | keeps cb hc ho => exact absurd trivial hcommand
  | closes cb n hc hn => exact absurd trivial hcommand
  | calls f message => exact absurd trivial hcommand
  | sends label data log =>
    exact h.stay (by simp [marksOf]) hinv halone h.closing hnow h.waiting hready
  | returns hi =>
    exact h.stay (by simp [marksOf, VirtualClient.onCloseReturned]) hinv halone h.closing hnow h.waiting hready
  | ignores json => exact h.stay (by simp [marksOf]) hinv halone h.closing hnow h.waiting hready
  | resets json hcreated => exact h.stay (by simp [marksOf]) hinv halone h.closing hnow h.waiting hready
  | aborts => exact h.stay (by simp [marksOf]) hinv halone h.closing hnow h.waiting hready
  | forgoes hr hi ho =>
    exact h.stay (by simp [marksOf]) hinv halone h.closing hnow h.waiting fun _ => hready hr
  | expires =>
    refine h.stay (by simp [marksOf]) hinv halone h.closing hnow (by simp) fun hr y hy => ?_
    rcases Nat.eq_zero_or_pos s.client.retryTimer.ready with hzero | hpos
    · -- the wait has just ended, no earlier than its expiry
      have hwas : 0 < s.client.retryTimer.waiting := by
        rw [SteadyTimer.expire_ready] at hr
        omega
      have hover : s.expiry ≤ time := hdue
      exact Int.le_trans (h.waiting hwas y hy) hover
    · exact hready hpos y hy
  | ends n message t hn hd =>
    have hzero := h.alone.ready_zero hn
    cases hd with
    | dropped hc he =>
      subst he
      exact h.mark (m := .ended) (by simp [marksOf]) hinv halone hc hnow (by simp) (by simp) hzero
    | armed hc left he =>
      subst he
      have hexpiry : s.expiryAfter cfg ⟨time, .disconnected n message⟩ = time + ns cfg.retryIntervalMs :=
        if_pos ⟨hc, left⟩
      exact h.mark (m := .ended) (by simp [marksOf]) hinv halone hc hnow (by simp) (fun _ => hexpiry) hzero
    | answered f hc ho he => exact hopen hc
    | reconnected hc ho hr he => exact hopen hc
    | closed hc ho hr he => exact hopen hc
  | retries hr hi ho =>
    have hn := (h.alone.idle hr).1
    have hone := h.alone.one
    have hconnect := VirtualClient.connect_idle
      (s := { s.client with retryTimer := s.client.retryTimer.takeReady, needReconnect := false }) h.closing hn
    rw [hconnect] at hinv halone ⊢
    refine h.mark (m := .made) (by simp [marksOf]) hinv halone h.closing hnow (fun _ => hr) (by simp) ?_
    change s.client.retryTimer.ready - 1 = 0
    omega

end TimedClient
