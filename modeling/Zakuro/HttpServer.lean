import Zakuro.HttpAnswers
import Zakuro.Projection

/-!
# HttpServer

The server that takes connections and makes a session of each. Its owner starts
and stops it; a thread of its own runs the handlers, one at a time, of the server
and of all of its sessions, until the `io_context` is stopped, by `Stop` or
because nothing is pending any more. An exception out of a handler ends the thread
too: `Run` catches it, and no handler is called behind it.
-/

open HttpSession (machine)

inductive ServerOp where
  | resolve
  | accept
  deriving DecidableEq, Repr

/-- Where the thread of the server is. -/
inductive ServerThread where
  | absent
  /-- It is about to call `Run`. -/
  | begun
  /-- It is in `ioc_.run()`. -/
  | looping
  | ended
  deriving DecidableEq, Repr

/-- Where the owner is in `Stop`. -/
inductive Stopping where
  | no
  /-- Behind `running_ = false`. -/
  | marked
  /-- Behind `ioc_.stop()`, in `thread_->join()`. -/
  | joining
  deriving DecidableEq, Repr

/-- What the resolver gives: no endpoint, or the first one, which the acceptor can
be bound to or not. -/
inductive Resolved where
  | error
  | empty
  | endpoint (bound : Bool)
  deriving DecidableEq, Repr

structure HttpServer where
  uiRemoteUrl : Option String
  running : Bool := false
  /-- `thread_` -/
  thread : ServerThread := .absent
  /-- `ioc_` has stopped; nothing restarts it. -/
  stopped : Bool := false
  /-- There is an `acceptor_`. -/
  acceptor : Bool := false
  pending : List ServerOp := []
  sessions : List HttpSession := []
  stopping : Stopping := .no
  deriving DecidableEq

namespace HttpServer

inductive Event where
  | start
  | stop
  /-- `ioc_.stop()` -/
  | stopLoop
  /-- `thread_->join()` returns. -/
  | joined
  /-- The thread begins `Run`. -/
  | run
  | resolved (result : Resolved)
  | accepted (ok : Bool)
  /-- A handler of the session with a number runs to its end. -/
  | session (k : Nat) (c : Completion)
  /-- An exception comes out of a handler of the session with a number. -/
  | thrown (k : Nat) (c : Completion)
  /-- `ioc_.run()` returns. -/
  | runEnds

/-- The thread takes handlers. -/
def Loops (s : HttpServer) : Prop := s.thread = .looping ∧ s.stopped = false

instance (s : HttpServer) : Decidable s.Loops := inferInstanceAs (Decidable (_ ∧ _))

/-- Nothing is pending, so that `ioc_.run()` returns. -/
def Idle (s : HttpServer) : Prop := s.pending = [] ∧ ∀ t ∈ s.sessions, t.pending = []

instance (s : HttpServer) : Decidable s.Idle := inferInstanceAs (Decidable (_ ∧ _))

def doAccept (s : HttpServer) : HttpServer := { s with pending := s.pending ++ [.accept] }

/-- `OnResolve`. Where the acceptor throws, `Run` catches what it throws and returns. -/
def onResolve (s : HttpServer) : Resolved → HttpServer
  | .error | .empty => s
  | .endpoint true => doAccept { s with acceptor := true }
  | .endpoint false => { s with thread := .ended }

def onAccept (s : HttpServer) (ok : Bool) : HttpServer :=
  let s := if ok then { s with sessions := s.sessions ++ [HttpSession.run s.uiRemoteUrl] } else s
  if s.running then s.doAccept else s

section Handlers

variable (B : Beast) (handleJsonRpcRequest : HttpRequest → HttpResponse)

def Enabled (s : HttpServer) : Event → Prop
  | .start | .stop => s.stopping = .no
  | .stopLoop => s.stopping = .marked
  | .joined => s.stopping = .joining ∧ s.thread = .ended
  | .run => s.thread = .begun
  | .resolved _ => s.Loops ∧ .resolve ∈ s.pending
  | .accepted _ => s.Loops ∧ .accept ∈ s.pending
  | .session k c => s.Loops ∧ ∃ t, s.sessions[k]? = some t ∧ c.op ∈ t.pending ∧
    t.throws B handleJsonRpcRequest c = false
  | .thrown k c => s.Loops ∧ ∃ t, s.sessions[k]? = some t ∧ c.op ∈ t.pending ∧
    t.throws B handleJsonRpcRequest c = true
  | .runEnds => s.thread = .looping ∧ (s.stopped = true ∨ s.Idle)

instance (s : HttpServer) : DecidablePred (Enabled B handleJsonRpcRequest s)
  | .start | .stop | .stopLoop | .run => inferInstanceAs (Decidable (_ = _))
  | .joined | .resolved _ | .accepted _ => inferInstanceAs (Decidable (_ ∧ _))
  | .runEnds => inferInstanceAs (Decidable (_ ∧ (_ ∨ _)))
  | .session k c =>
    match h : s.sessions[k]? with
    | none => .isFalse (by simp [Enabled, h])
    | some t => decidable_of_iff (s.Loops ∧ c.op ∈ t.pending ∧ t.throws B handleJsonRpcRequest c = false)
        (by simp [Enabled, h])
  | .thrown k c =>
    match h : s.sessions[k]? with
    | none => .isFalse (by simp [Enabled, h])
    | some t => decidable_of_iff (s.Loops ∧ c.op ∈ t.pending ∧ t.throws B handleJsonRpcRequest c = true)
        (by simp [Enabled, h])

def onSession (s : HttpServer) (k : Nat) (c : Completion) : Except SessionFault HttpServer :=
  match s.sessions[k]? with
  | some t => ((machine B handleJsonRpcRequest).step t c).map fun t =>
      { s with sessions := s.sessions.set k t }
  | none => .error .nullDeref

def step (s : HttpServer) : Event → Except SessionFault HttpServer
  | .start => .ok (if s.running then s else { s with running := true, thread := .begun })
  | .stop => .ok (if s.running then { s with running := false, stopping := .marked } else s)
  | .stopLoop => .ok { s with stopped := true, stopping := .joining }
  | .joined => .ok { s with thread := .absent, stopping := .no }
  | .run => .ok { s with thread := .looping, pending := s.pending ++ [.resolve] }
  | .resolved result => .ok ({ s with pending := s.pending.erase .resolve }.onResolve result)
  | .accepted ok => .ok ({ s with pending := s.pending.erase .accept }.onAccept ok)
  | .session k c => s.onSession B handleJsonRpcRequest k c
  | .thrown _ _ => .ok { s with thread := .ended }
  | .runEnds => .ok { s with thread := .ended, stopped := true }

def server : Machine HttpServer Event SessionFault where
  enabled := Enabled B handleJsonRpcRequest
  step := step B handleJsonRpcRequest

instance (s : HttpServer) (e : Event) : Decidable ((server B handleJsonRpcRequest).enabled s e) :=
  inferInstanceAs (Decidable (Enabled B handleJsonRpcRequest s e))

end Handlers

theorem Loops.busy {s : HttpServer} (h : s.Loops) : ¬ (s.thread = .absent ∨ s.thread = .begun) := by
  rw [h.1]
  decide

/-- What resolving leaves as it is. -/
theorem onResolve_same (s : HttpServer) (result : Resolved) :
    (s.onResolve result).uiRemoteUrl = s.uiRemoteUrl ∧ (s.onResolve result).running = s.running ∧
      (s.onResolve result).stopping = s.stopping ∧
      ((s.onResolve result).thread = s.thread ∨ (s.onResolve result).thread = .ended) ∧
      (s.onResolve result).sessions = s.sessions := by
  cases result with
  | endpoint bound =>
    cases bound with
    | true => exact ⟨rfl, rfl, rfl, .inl rfl, rfl⟩
    | false => exact ⟨rfl, rfl, rfl, .inr rfl, rfl⟩
  | _ => exact ⟨rfl, rfl, rfl, .inl rfl, rfl⟩

/-- What a connection leaves as it is, and what it adds. -/
theorem onAccept_same (s : HttpServer) (ok : Bool) :
    (s.onAccept ok).uiRemoteUrl = s.uiRemoteUrl ∧ (s.onAccept ok).running = s.running ∧
      (s.onAccept ok).stopping = s.stopping ∧ (s.onAccept ok).thread = s.thread ∧
      (s.onAccept ok).sessions = s.sessions ++ if ok then [HttpSession.run s.uiRemoteUrl] else [] := by
  rw [onAccept]
  cases ok <;> cases hrunning : s.running <;> simp [doAccept, hrunning]

/-! ## The owner -/

/-- What the owner keeps: its thread is there unless the server is down. -/
structure Owned (s : HttpServer) : Prop where
  marked : s.stopping ≠ .no → s.running = false ∧ s.thread ≠ .absent
  idle : s.stopping = .no → (s.running = true ↔ s.thread ≠ .absent)
  joining : s.stopping = .joining → s.stopped = true

/-- A handler goes on where the thread is, or ends it. -/
theorem Owned.handler {s t : HttpServer} (h : Owned s) (hloops : s.Loops) (hrunning : t.running = s.running)
    (hstopping : t.stopping = s.stopping) (hthread : t.thread ≠ .absent) : Owned t := by
  have habsent : s.thread ≠ .absent := by
    rw [hloops.1]
    decide
  constructor
  · intro hmarked
    rw [hstopping] at hmarked
    rw [hrunning]
    exact ⟨(h.marked hmarked).1, hthread⟩
  · intro hno
    rw [hstopping] at hno
    rw [hrunning, h.idle hno]
    exact iff_of_true habsent hthread
  · intro hjoining
    rw [hstopping] at hjoining
    have hstopped := h.joining hjoining
    rw [hloops.2] at hstopped
    cases hstopped

/-! ## Accepting -/

/-- What is pending while the loop has not stopped: the resolver before there is
an acceptor, and one connection that is waited for afterwards. -/
structure Accepts (s : HttpServer) : Prop where
  single : s.pending.count .accept ≤ 1
  bound : s.acceptor = false → .accept ∉ s.pending
  once : s.stopped = false → .resolve ∈ s.pending → s.acceptor = false ∧ s.pending.count .resolve = 1
  unused : s.stopped = false → s.thread = .absent ∨ s.thread = .begun → s.pending = [] ∧ s.acceptor = false
  waits : s.Loops → s.running = true → s.acceptor = true → .accept ∈ s.pending

theorem count_accept_erase {pending : List ServerOp} (h : pending.count .accept ≤ 1) :
    .accept ∉ pending.erase .accept := by
  rw [← List.count_eq_zero, List.count_erase_self]
  omega

theorem Accepts.resolved {s : HttpServer} (h : Accepts s) (hloops : s.Loops) (hp : .resolve ∈ s.pending)
    (result : Resolved) : Accepts ({ s with pending := s.pending.erase .resolve }.onResolve result) := by
  obtain ⟨hacceptor, hcount⟩ := h.once hloops.2 hp
  have hgone : .resolve ∉ s.pending.erase .resolve := by
    rw [← List.count_eq_zero, List.count_erase_self, hcount]
  have haccept : .accept ∉ s.pending.erase .resolve := fun hmem =>
    h.bound hacceptor (List.mem_of_mem_erase hmem)
  have hnone : (s.pending.erase .resolve).count .accept ≤ 1 := by
    rw [List.count_eq_zero.mpr haccept]
    exact Nat.zero_le 1
  have hwaits : s.acceptor = true → .accept ∈ s.pending.erase .resolve := by
    rw [hacceptor]
    exact nofun
  have hbusy := hloops.busy
  cases result with
  | endpoint bound =>
    cases bound with
    | true =>
      refine ⟨?_, nofun, fun _ hmem => ?_, fun _ hthread => absurd hthread hbusy, fun _ _ _ => ?_⟩
      · dsimp only [onResolve, doAccept]
        rw [List.count_append, List.count_eq_zero.mpr haccept]
        decide
      · rcases List.mem_append.mp hmem with hmem | hmem
        · exact absurd hmem hgone
        · cases List.mem_singleton.mp hmem
      · exact List.mem_append_right _ (List.mem_singleton_self _)
    | false => exact ⟨hnone, fun _ => haccept, fun _ hmem => absurd hmem hgone, nofun, nofun⟩
  | _ =>
    exact ⟨hnone, fun _ => haccept, fun _ hmem => absurd hmem hgone, fun _ hthread => absurd hthread hbusy,
      fun _ _ => hwaits⟩

theorem Accepts.accepted {s : HttpServer} (h : Accepts s) (hloops : s.Loops) (hp : .accept ∈ s.pending)
    (ok : Bool) : Accepts ({ s with pending := s.pending.erase .accept }.onAccept ok) := by
  have hgone := count_accept_erase h.single
  have hacceptor : s.acceptor = true := by
    by_contra hno
    exact h.bound (by simpa using hno) hp
  have hresolve : .resolve ∉ s.pending := by
    intro hmem
    have hnone := (h.once hloops.2 hmem).1
    rw [hacceptor] at hnone
    cases hnone
  have hnone : .resolve ∉ s.pending.erase .accept := fun hmem => hresolve (List.mem_of_mem_erase hmem)
  have hbusy := hloops.busy
  have hzero := List.count_eq_zero.mpr hgone
  have hafter : ∀ sessions,
      Accepts { s with pending := s.pending.erase .accept ++ [.accept], sessions := sessions } := by
    intro sessions
    refine ⟨?_, fun hno => ?_, fun _ hmem => ?_, fun _ hthread => absurd hthread hbusy, fun _ _ _ => ?_⟩
    · dsimp only
      rw [List.count_append, hzero]
      decide
    · rw [hacceptor] at hno
      cases hno
    · rcases List.mem_append.mp hmem with hmem | hmem
      · exact absurd hmem hnone
      · cases List.mem_singleton.mp hmem
    · exact List.mem_append_right _ (List.mem_singleton_self _)
  have hlast : s.running = false → ∀ sessions,
      Accepts { s with pending := s.pending.erase .accept, sessions := sessions } := by
    intro hrunning sessions
    refine ⟨?_, fun _ => hgone, fun _ hmem => absurd hmem hnone, fun _ hthread => absurd hthread hbusy,
      fun _ hno => ?_⟩
    · dsimp only
      rw [hzero]
      exact Nat.zero_le 1
    · rw [hrunning] at hno
      cases hno
  have hsplit : ∀ sessions, Accepts (if s.running then
      ({ s with pending := s.pending.erase .accept, sessions := sessions } : HttpServer).doAccept
      else { s with pending := s.pending.erase .accept, sessions := sessions }) := by
    intro sessions
    split
    next => exact hafter sessions
    next hno => exact hlast (by simpa using hno) sessions
  cases ok with
  | true => exact hsplit _
  | false => exact hsplit s.sessions

/-- What the server keeps between two handlers. -/
structure Inv (s : HttpServer) : Prop where
  owned : Owned s
  accepts : Accepts s

theorem start_inv (uiRemoteUrl : Option String) : Inv { uiRemoteUrl := uiRemoteUrl } where
  owned := ⟨fun hno => absurd rfl hno, fun _ => by simp, by simp⟩
  accepts := ⟨Nat.zero_le 1, fun _ => List.not_mem_nil, fun _ hno => absurd hno List.not_mem_nil,
    fun _ _ => ⟨rfl, rfl⟩, by simp [Loops]⟩

section Handlers

variable {B : Beast} {rpc : HttpRequest → HttpResponse}

theorem Inv.started {s : HttpServer} (h : Inv s) (hno : s.stopping = .no) (hrunning : s.running = false) :
    Inv { s with running := true, thread := .begun } := by
  have habsent : s.thread = .absent := by
    by_contra hthread
    rw [(h.owned.idle hno).mpr hthread] at hrunning
    cases hrunning
  constructor
  · refine ⟨fun hmarked => absurd hno hmarked, fun _ => iff_of_true rfl (by simp), fun hjoining => ?_⟩
    exact h.owned.joining hjoining
  · refine ⟨h.accepts.single, h.accepts.bound, h.accepts.once, fun hstopped _ => ?_, fun hloops => ?_⟩
    · exact h.accepts.unused hstopped (.inl habsent)
    · cases hloops.1

theorem Inv.stopped {s t : HttpServer} (h : Inv s) (hstopped : t.stopped = true)
    (hpending : t.pending = s.pending) (hacceptor : t.acceptor = s.acceptor) : Accepts t := by
  refine ⟨?_, ?_, fun hno => ?_, fun hno => ?_, fun hloops => ?_⟩
  · rw [hpending]
    exact h.accepts.single
  · rw [hacceptor, hpending]
    exact h.accepts.bound
  · rw [hstopped] at hno
    cases hno
  · rw [hstopped] at hno
    cases hno
  · rw [hloops.2] at hstopped
    cases hstopped

theorem Inv.begins {s : HttpServer} (h : Inv s) (hbegun : s.thread = .begun) :
    Inv { s with thread := .looping, pending := s.pending ++ [.resolve] } := by
  constructor
  · refine ⟨fun hmarked => ⟨(h.owned.marked hmarked).1, by simp⟩, fun hno => ?_, h.owned.joining⟩
    refine iff_of_true ((h.owned.idle hno).mpr ?_) (by simp)
    rw [hbegun]
    decide
  · refine ⟨?_, fun hacceptor hmem => ?_, fun hstopped _ => ?_, fun _ hthread => ?_,
      fun hloops _ hacceptor => ?_⟩
    · have hsingle := h.accepts.single
      dsimp only
      rw [List.count_append]
      exact hsingle
    · rcases List.mem_append.mp hmem with hmem | hmem
      · exact h.accepts.bound hacceptor hmem
      · cases List.mem_singleton.mp hmem
    · obtain ⟨hnil, hacceptor⟩ := h.accepts.unused hstopped (.inr hbegun)
      refine ⟨hacceptor, ?_⟩
      dsimp only
      rw [hnil]
      decide
    · rcases hthread with hthread | hthread <;> cases hthread
    · have hnone := (h.accepts.unused hloops.2 (.inr hbegun)).2
      have hacceptor : s.acceptor = true := hacceptor
      rw [hnone] at hacceptor
      cases hacceptor

theorem Inv.step {s t : HttpServer} {e : Event} (h : Inv s) (he : Enabled B rpc s e)
    (hs : step B rpc s e = .ok t) : Inv t := by
  obtain ⟨howned, haccepts⟩ := h
  cases e with
  | start =>
    obtain rfl := Except.ok.inj hs
    split
    next => exact ⟨howned, haccepts⟩
    next hno => exact Inv.started ⟨howned, haccepts⟩ he (by simpa using hno)
  | stop =>
    obtain rfl := Except.ok.inj hs
    split
    next hrunning =>
      constructor
      · exact ⟨fun _ => ⟨rfl, (howned.idle he).mp hrunning⟩, by simp, by simp⟩
      · exact ⟨haccepts.single, haccepts.bound, haccepts.once, haccepts.unused, by simp⟩
    next => exact ⟨howned, haccepts⟩
  | stopLoop =>
    obtain rfl := Except.ok.inj hs
    have he : s.stopping = .marked := he
    have hmarked := howned.marked (by rw [he]; decide)
    exact ⟨⟨fun _ => hmarked, by simp, fun _ => rfl⟩,
      Inv.stopped ⟨howned, haccepts⟩ rfl rfl rfl⟩
  | joined =>
    obtain rfl := Except.ok.inj hs
    have hmarked := howned.marked (by rw [he.1]; decide)
    constructor
    · refine ⟨fun hno => absurd rfl hno, fun _ => iff_of_false ?_ (by simp), by simp⟩
      dsimp only
      rw [hmarked.1]
      decide
    · exact Inv.stopped ⟨howned, haccepts⟩ (howned.joining he.1) rfl rfl
  | run =>
    obtain rfl := Except.ok.inj hs
    exact Inv.begins ⟨howned, haccepts⟩ he
  | resolved result =>
    obtain rfl := Except.ok.inj hs
    refine ⟨?_, haccepts.resolved he.1 he.2 result⟩
    obtain ⟨-, hrunning, hstopping, hthread, -⟩ :=
      onResolve_same { s with pending := s.pending.erase .resolve } result
    refine howned.handler he.1 hrunning hstopping ?_
    rcases hthread with hthread | hthread
    · rw [hthread, he.1.1]
      decide
    · rw [hthread]
      decide
  | accepted ok =>
    obtain rfl := Except.ok.inj hs
    refine ⟨?_, haccepts.accepted he.1 he.2 ok⟩
    obtain ⟨-, hrunning, hstopping, hthread, -⟩ :=
      onAccept_same { s with pending := s.pending.erase .accept } ok
    refine howned.handler he.1 hrunning hstopping ?_
    rw [hthread, he.1.1]
    decide
  | session k c =>
    rw [HttpServer.step, onSession] at hs
    split at hs
    next =>
      obtain ⟨u, -, rfl⟩ := Machine.map_eq_ok hs
      exact ⟨⟨howned.marked, howned.idle, howned.joining⟩,
        ⟨haccepts.single, haccepts.bound, haccepts.once, haccepts.unused, haccepts.waits⟩⟩
    next => cases hs
  | thrown k c =>
    obtain rfl := Except.ok.inj hs
    refine ⟨howned.handler he.1 rfl rfl (by simp), ?_⟩
    exact ⟨haccepts.single, haccepts.bound, haccepts.once, fun _ => by simp, fun hloops => by cases hloops.1⟩
  | runEnds =>
    obtain rfl := Except.ok.inj hs
    have hbefore : s.thread ≠ .absent := by
      rw [he.1]
      decide
    exact ⟨⟨fun hmarked => ⟨(howned.marked hmarked).1, by simp⟩,
      fun hno => iff_of_true ((howned.idle hno).mpr hbefore) (by simp), fun _ => rfl⟩,
      Inv.stopped ⟨howned, haccepts⟩ rfl rfl rfl⟩

theorem runs_inv {uiRemoteUrl : Option String} {es : List Event} {s : HttpServer}
    (h : Machine.Run (server B rpc) { uiRemoteUrl := uiRemoteUrl } es s) : Inv s :=
  h.invariant (fun _ _ _ hI he hs => hI.step he hs) (start_inv uiRemoteUrl)

/-! ## The sessions -/

/-- The completion of an operation of a session. -/
def Event.completion (k : Nat) : Event → Option Completion
  | .session j c => if j = k then some c else none
  | _ => none

def Event.isConnection : Event → Bool
  | .accepted ok => ok
  | _ => false

/-- The handlers that a session has been called with. -/
def completions (k : Nat) (es : List Event) : List Completion := es.filterMap (Event.completion k)

theorem completions_snoc (k : Nat) (es : List Event) (e : Event) :
    completions k (es ++ [e]) = completions k es ++ (e.completion k).toList :=
  Replay.filterMap_snoc _ es e

variable (B rpc) in
/-- There is a session for each connection, and each has run with its own handlers. -/
structure Serves (uiRemoteUrl : Option String) (es : List Event) (s : HttpServer) : Prop where
  url : s.uiRemoteUrl = uiRemoteUrl
  count : s.sessions.length = es.countP Event.isConnection
  runs : ∀ k t, s.sessions[k]? = some t →
    (machine B rpc).Run (HttpSession.run uiRemoteUrl) (completions k es) t
  fresh : ∀ k, s.sessions.length ≤ k → completions k es = []

/-- An event that is none of the sessions' changes nothing for them. -/
theorem Serves.other {uiRemoteUrl : Option String} {es : List Event} {s t : HttpServer} {e : Event}
    (h : Serves B rpc uiRemoteUrl es s) (hurl : t.uiRemoteUrl = s.uiRemoteUrl)
    (hsessions : t.sessions = s.sessions) (hnone : ∀ k, e.completion k = none)
    (hconnection : e.isConnection = false) :
    Serves B rpc uiRemoteUrl (es ++ [e]) t := by
  have hsame : ∀ k, completions k (es ++ [e]) = completions k es := by
    intro k
    rw [completions_snoc, hnone, Option.toList_none, List.append_nil]
  refine ⟨hurl.trans h.url, ?_, fun k t hk => ?_, fun k hk => ?_⟩
  · rw [hsessions, h.count, List.countP_append, List.countP_singleton, hconnection]
    rfl
  · rw [hsame]
    exact h.runs k t (hsessions ▸ hk)
  · rw [hsame]
    exact h.fresh k (hsessions ▸ hk)

theorem Serves.accepted {uiRemoteUrl : Option String} {es : List Event} {s : HttpServer}
    (h : Serves B rpc uiRemoteUrl es s) {t : HttpServer} (hurl : t.uiRemoteUrl = s.uiRemoteUrl)
    (hsessions : t.sessions = s.sessions ++ [HttpSession.run s.uiRemoteUrl]) :
    Serves B rpc uiRemoteUrl (es ++ [.accepted true]) t := by
  have hsame : ∀ k, completions k (es ++ [.accepted true]) = completions k es := by
    intro k
    rw [completions_snoc]
    exact List.append_nil _
  refine ⟨hurl.trans h.url, ?_, fun k t hk => ?_, fun k hk => ?_⟩
  · rw [hsessions, List.length_append, h.count, List.countP_append]
    rfl
  · rw [hsame]
    rw [hsessions] at hk
    rcases Nat.lt_trichotomy k s.sessions.length with hlt | rfl | hgt
    · rw [List.getElem?_append_left hlt] at hk
      exact h.runs k t hk
    · rw [List.getElem?_append_right (Nat.le_refl _), Nat.sub_self] at hk
      obtain rfl := Option.some.inj hk
      rw [h.fresh _ (Nat.le_refl _), h.url]
      exact .nil _
    · rw [List.getElem?_eq_none (by simp; omega)] at hk
      cases hk
  · rw [hsame]
    rw [hsessions, List.length_append] at hk
    exact h.fresh k (by omega)

theorem Serves.session {uiRemoteUrl : Option String} {es : List Event} {s : HttpServer} {k : Nat}
    {c : Completion} {t u : HttpSession} (h : Serves B rpc uiRemoteUrl es s) (hk : s.sessions[k]? = some t)
    (hc : c.op ∈ t.pending) (hu : (machine B rpc).step t c = .ok u) :
    Serves B rpc uiRemoteUrl (es ++ [.session k c]) { s with sessions := s.sessions.set k u } := by
  have hlt := (List.getElem?_eq_some_iff.mp hk).1
  refine ⟨h.url, ?_, fun j v hj => ?_, fun j hj => ?_⟩
  · rw [List.length_set, h.count, List.countP_append]
    rfl
  · rw [completions_snoc]
    dsimp only at hj
    by_cases hjk : k = j
    · subst hjk
      rw [List.getElem?_set_self hlt] at hj
      obtain rfl := Option.some.inj hj
      rw [Event.completion, if_pos rfl, Option.toList_some]
      exact (h.runs k t hk).append (.single hc hu)
    · rw [List.getElem?_set_ne hjk] at hj
      rw [Event.completion, if_neg hjk, Option.toList_none, List.append_nil]
      exact h.runs j v hj
  · rw [List.length_set] at hj
    rw [completions_snoc, Event.completion, if_neg (by omega), Option.toList_none, List.append_nil]
    exact h.fresh j hj

theorem Serves.step {uiRemoteUrl : Option String} {es : List Event} {s t : HttpServer} {e : Event}
    (h : Serves B rpc uiRemoteUrl es s) (he : Enabled B rpc s e) (hs : step B rpc s e = .ok t) :
    Serves B rpc uiRemoteUrl (es ++ [e]) t := by
  cases e with
  | start =>
    obtain rfl := Except.ok.inj hs
    split <;> exact h.other rfl rfl (fun _ => rfl) rfl
  | stop =>
    obtain rfl := Except.ok.inj hs
    split <;> exact h.other rfl rfl (fun _ => rfl) rfl
  | resolved result =>
    obtain rfl := Except.ok.inj hs
    obtain ⟨hurl, -, -, -, hsessions⟩ := onResolve_same { s with pending := s.pending.erase .resolve } result
    exact h.other hurl hsessions (fun _ => rfl) rfl
  | accepted ok =>
    obtain rfl := Except.ok.inj hs
    obtain ⟨hurl, -, -, -, hsessions⟩ := onAccept_same { s with pending := s.pending.erase .accept } ok
    cases ok with
    | true => exact h.accepted hurl hsessions
    | false => exact h.other hurl (hsessions.trans (List.append_nil _)) (fun _ => rfl) rfl
  | session k c =>
    obtain ⟨-, t, ht, hc, -⟩ := he
    rw [HttpServer.step, onSession, ht] at hs
    obtain ⟨u, hu, rfl⟩ := Machine.map_eq_ok hs
    exact h.session ht hc hu
  | _ =>
    obtain rfl := Except.ok.inj hs
    exact h.other rfl rfl (fun _ => rfl) rfl

theorem runs_serves {uiRemoteUrl : Option String} {es : List Event} {s : HttpServer}
    (h : Machine.Run (server B rpc) { uiRemoteUrl := uiRemoteUrl } es s) : Serves B rpc uiRemoteUrl es s := by
  refine h.history (I := Serves B rpc uiRemoteUrl) (fun es s e t hI he hs => hI.step he hs) ?_
  exact ⟨rfl, rfl, fun k t hk => by simp at hk, fun _ _ => rfl⟩

/-- In every run of the server, however the handlers of its connections mingle,
there is a session for each connection, each session is one that has run alone,
with its own handlers only, and has answered its requests in order, all but the
last at least; while the server runs it waits for one connection; no handler
dereferences a null pointer, and an exception that comes out of a session, and that
`Run` catches, comes of a request that the proxy cannot build. -/
theorem connections_served {uiRemoteUrl : Option String} {es : List Event} {s : HttpServer}
    (h : Machine.Run (server B rpc) { uiRemoteUrl := uiRemoteUrl } es s) :
    s.sessions.length = es.countP Event.isConnection ∧
      (∀ k t, s.sessions[k]? = some t →
        (machine B rpc).Run (HttpSession.run uiRemoteUrl) (completions k es) t ∧
          ∃ n, HttpSession.answers t.log = List.range n ∧ n ≤ (HttpSession.requests t.log).length ∧
            (HttpSession.requests t.log).length ≤ n + 1) ∧
      (s.pending.count .accept ≤ 1 ∧ (s.Loops → s.running = true → s.acceptor = true → .accept ∈ s.pending)) ∧
      (∀ e, Enabled B rpc s e → ∃ t, step B rpc s e = .ok t) ∧
      ∀ k c, Enabled B rpc s (.thrown k c) → ∃ t, s.sessions[k]? = some t ∧ ¬ t.Builds B c := by
  have hserves := runs_serves h
  have hinv := runs_inv h
  have hsession : ∀ (k : Nat) (t : HttpSession), s.sessions[k]? = some t →
      ∃ st left, HttpSession.Inv t st left := by
    intro k t hk
    obtain ⟨st, left, hI, -⟩ := (HttpSession.run_inv uiRemoteUrl).run (hserves.runs k t hk)
    exact ⟨st, left, hI⟩
  refine ⟨hserves.count, fun k t hk => ⟨hserves.runs k t hk, ?_⟩, ⟨hinv.accepts.single, hinv.accepts.waits⟩,
    fun e he => ?_, ?_⟩
  · obtain ⟨st, left, hI⟩ := hsession k t hk
    have htracks := RequestProtocol.tracks_of_replay hI.logged
    have hrequests : (HttpSession.requests t.log).length = st.requests :=
      (HttpSession.requests_length t.log).trans htracks.requests
    refine ⟨st.answered, ?_, ?_⟩
    · rw [← HttpSession.answers_acts, htracks.answers]
    · have hcases := hI.standing.left_cases
      omega
  · cases e with
    | session k c =>
      obtain ⟨-, t, ht, hc, hthrows⟩ := he
      obtain ⟨st, left, hI⟩ := hsession k t ht
      rw [HttpServer.step, onSession, ht]
      dsimp only
      cases hstep : (machine B rpc).step t c with
      | ok u => exact ⟨_, rfl⟩
      | error f =>
        obtain ⟨rfl, -⟩ := HttpSession.step_error hI hc hstep
        rw [HttpSession.throws_of_step hstep] at hthrows
        cases hthrows
    | _ => exact ⟨_, rfl⟩
  · rintro k c ⟨-, t, ht, hc, hthrows⟩
    obtain ⟨st, left, hI⟩ := hsession k t ht
    exact ⟨t, ht, (HttpSession.step_error hI hc (HttpSession.step_of_throws hthrows)).2⟩

/-- Two connections, whose requests are read and answered in turn. -/
def twoConnections : List Event :=
  [.start, .run, .resolved (.endpoint true), .accepted true, .session 0 .start, .accepted true,
    .session 1 .start, .session 1 (.read (.request ⟨"GET", "/.ok", 11, [], ""⟩)), .accepted false,
    .session 0 (.read (.request ⟨"GET", "/.ok", 11, [], ""⟩)), .session 0 (.write 0 none),
    .session 1 (.write 0 none)]

theorem connections_served_two : ∃ s : HttpServer,
    Machine.Run (server Beast.sample fun _ => ⟨204, 11, [], ""⟩) { uiRemoteUrl := none } twoConnections s ∧
      s.sessions.length = 2 ∧ .accept ∈ s.pending := by
  obtain ⟨s, hs, hp⟩ := Machine.exec_exists (server Beast.sample fun _ => ⟨204, 11, [], ""⟩)
    { uiRemoteUrl := none } twoConnections
    (fun s => decide (s.Loops) && s.running && s.acceptor) (by decide +kernel)
  obtain ⟨hcount, -, ⟨-, hwaits⟩, -, -⟩ := connections_served hs
  simp only [Bool.and_eq_true, decide_eq_true_eq] at hp
  exact ⟨s, hs, hcount, hwaits hp.1.1 hp.1.2 hp.2⟩

/-! ## Stopping -/

/-- The event calls a handler. -/
def Event.isHandler : Event → Bool
  | .resolved _ | .accepted _ | .session _ _ | .thrown _ _ => true
  | .start | .stop | .stopLoop | .joined | .run | .runEnds => false

/-- The loop that has stopped does not go on, even where the server is started again. -/
theorem stopped_final {s t : HttpServer} {es : List Event} (h : Machine.Run (server B rpc) s es t)
    (hs : s.stopped = true) : t.sessions = s.sessions ∧ ∀ e ∈ es, e.isHandler = false := by
  induction h with
  | nil s => exact ⟨rfl, by simp⟩
  | @cons s t u e es he hstep _ ih =>
    have hnot : ¬ s.Loops := fun hloops => by
      rw [hloops.2] at hs
      cases hs
    have hkept : t.stopped = true ∧ t.sessions = s.sessions ∧ e.isHandler = false := by
      cases e with
      | start =>
        obtain rfl := Except.ok.inj hstep
        split <;> exact ⟨hs, rfl, rfl⟩
      | stop =>
        obtain rfl := Except.ok.inj hstep
        split <;> exact ⟨hs, rfl, rfl⟩
      | resolved result => exact absurd he.1 hnot
      | accepted ok => exact absurd he.1 hnot
      | session k c => exact absurd he.1 hnot
      | thrown k c => exact absurd he.1 hnot
      | stopLoop =>
        obtain rfl := Except.ok.inj hstep
        exact ⟨rfl, rfl, rfl⟩
      | runEnds =>
        obtain rfl := Except.ok.inj hstep
        exact ⟨rfl, rfl, rfl⟩
      | _ =>
        obtain rfl := Except.ok.inj hstep
        exact ⟨hs, rfl, rfl⟩
    obtain ⟨hsessions, hnone⟩ := ih hkept.1
    exact ⟨hsessions.trans hkept.2.1, List.forall_mem_cons.mpr ⟨hkept.2.2, hnone⟩⟩

/-- `Stop` comes to its end without a handler. -/
def Returns (B : Beast) (rpc : HttpRequest → HttpResponse) (s : HttpServer) (n : Nat) : Prop :=
  ∃ fs t, fs.length ≤ n ∧ (∀ e ∈ fs, e.isHandler = false) ∧ Machine.Run (server B rpc) s fs t ∧
    t.stopping = .no ∧ t.thread = .absent ∧ t.sessions = s.sessions

theorem Returns.cons {s t : HttpServer} {e : Event} {n : Nat} (he : Enabled B rpc s e)
    (hs : step B rpc s e = .ok t) (hhandler : e.isHandler = false) (hsessions : t.sessions = s.sessions)
    (h : Returns B rpc t n) : Returns B rpc s (n + 1) := by
  obtain ⟨fs, u, hlength, hfs, hrun, hno, habsent, hsame⟩ := h
  exact ⟨e :: fs, u, Nat.succ_le_succ hlength, List.forall_mem_cons.mpr ⟨hhandler, hfs⟩, .cons he hs hrun, hno,
    habsent, hsame.trans hsessions⟩

theorem Returns.mono {s : HttpServer} {m n : Nat} (h : Returns B rpc s m) (hmn : m ≤ n) :
    Returns B rpc s n := by
  obtain ⟨fs, t, hlength, hrest⟩ := h
  exact ⟨fs, t, Nat.le_trans hlength hmn, hrest⟩

theorem joining_returns {s : HttpServer} (hjoining : s.stopping = .joining) (hstopped : s.stopped = true)
    (hthread : s.thread ≠ .absent) : Returns B rpc s 3 := by
  have hjoin : ∀ u : HttpServer, u.stopping = .joining → u.thread = .ended → Returns B rpc u 1 :=
    fun u hu hended => .cons (e := .joined) ⟨hu, hended⟩ rfl rfl rfl
      ⟨[], _, Nat.zero_le 0, by simp, .nil _, rfl, rfl, rfl⟩
  have hend : ∀ u : HttpServer, u.stopping = .joining → u.stopped = true → u.thread = .looping →
      Returns B rpc u 2 := fun u hu hstopped hloops =>
    .cons (e := .runEnds) ⟨hloops, .inl hstopped⟩ rfl rfl rfl (hjoin _ hu rfl)
  cases ht : s.thread with
  | absent => exact absurd ht hthread
  | begun => exact .cons (e := .run) ht rfl rfl rfl (hend _ hjoining hstopped rfl)
  | looping => exact (hend s hjoining hstopped ht).mono (by decide)
  | ended => exact (hjoin s hjoining ht).mono (by decide)

/-- From wherever the owner is in `Stop`, the threads can come to its end in four
steps, however many connections are open, none of which is a handler; and once
the loop has been stopped, no handler of the server is ever called again. -/
theorem stop_final {uiRemoteUrl : Option String} {es : List Event} {s : HttpServer}
    (h : Machine.Run (server B rpc) { uiRemoteUrl := uiRemoteUrl } es s) :
    (s.stopping ≠ .no → Returns B rpc s 4) ∧
      (s.stopped = true → ∀ fs t, Machine.Run (server B rpc) s fs t →
        t.sessions = s.sessions ∧ ∀ e ∈ fs, e.isHandler = false) := by
  refine ⟨fun hstop => ?_, fun hstopped fs t hrun => stopped_final hrun hstopped⟩
  have howned := (runs_inv h).owned
  obtain ⟨-, hthread⟩ := howned.marked hstop
  cases hs : s.stopping with
  | no => exact absurd hs hstop
  | marked => exact .cons (e := .stopLoop) hs rfl rfl rfl (joining_returns rfl rfl hthread)
  | joining => exact (joining_returns hs (howned.joining hs) hthread).mono (by decide)

/-- The server is stopped while a request is being answered. -/
def stoppedEvents : List Event :=
  [.start, .run, .resolved (.endpoint true), .accepted true, .session 0 .start,
    .session 0 (.read (.request ⟨"GET", "/.ok", 11, [], ""⟩)), .stop, .accepted true, .stopLoop]

theorem stop_final_answering : ∃ s : HttpServer,
    Machine.Run (server Beast.sample fun _ => ⟨204, 11, [], ""⟩) { uiRemoteUrl := none } stoppedEvents s ∧
      Returns Beast.sample (fun _ => ⟨204, 11, [], ""⟩) s 4 ∧
      ∀ fs t, Machine.Run (server Beast.sample fun _ => ⟨204, 11, [], ""⟩) s fs t →
        t.sessions = s.sessions ∧ ∀ e ∈ fs, e.isHandler = false := by
  obtain ⟨s, hs, hp⟩ := Machine.exec_exists (server Beast.sample fun _ => ⟨204, 11, [], ""⟩)
    { uiRemoteUrl := none } stoppedEvents (fun s => decide (s.stopping ≠ .no) && s.stopped) (by decide +kernel)
  simp only [Bool.and_eq_true, decide_eq_true_eq] at hp
  have hfinal := stop_final hs
  exact ⟨s, hs, hfinal.1 hp.1, hfinal.2 hp.2⟩

end Handlers

end HttpServer
