import Zakuro.HttpSession
import Zakuro.RequestProtocol

/-!
# One response for each request

The log of a session is read as a trace of the request protocol. The invariant
says which operation is pending in each phase: while a request waits for its
answer, exactly one handler of its proxy is to come, and that proxy still has
the callback.
-/

namespace HttpSession

open RequestProtocol (Act State)
open Replay (replay)

/-! ## The log as a trace -/

def act : HttpEvent → Act
  | .reading => .wait
  | .request _ => .request
  | .answered request _ => .answer request
  | .written request => .written request
  | .closed => .close

def acts (log : List HttpEvent) : List Act := log.map act

theorem requests_length (log : List HttpEvent) :
    (requests log).length = (acts log).count .request := by
  induction log with
  | nil => rfl
  | cons event log ih =>
    cases event <;> simp_all [requests, acts, act]

theorem answers_acts (log : List HttpEvent) : RequestProtocol.answers (acts log) = answers log := by
  rw [RequestProtocol.answers, acts, List.filterMap_map, answers]
  congr 1
  funext event
  cases event <;> rfl

/-- Where a session stands between two handlers, in a state of the protocol and
with the number of handlers that can still come before the callback. -/
inductive Standing (s : HttpSession) : State → Nat → Prop where
  | begun {n : Nat} : s.pending = [.start] → Standing s ⟨n, .idle⟩ 0
  | waiting {n : Nat} : s.pending = [.read] → Standing s ⟨n, .waiting⟩ 0
  | asked {n i : Nat} {op : ProxyOp} {p : HttpProxy} :
    s.pending = [.proxy i op] → s.proxies[i]? = some p → p.onResponse = some n →
      Standing s ⟨n + 1, .asked⟩ op.left
  | answered {n : Nat} {res : HttpResponse} :
    s.pending = [.write n] → s.res = some res → Standing s ⟨n + 1, .answered⟩ 0
  | ended {n : Nat} {phase : RequestProtocol.Phase} :
    s.pending = [] → phase ≠ .asked → Standing s ⟨n, phase⟩ 0

/-- The log is a trace of the protocol up to the given state. -/
def Logged (s : HttpSession) (st : State) : Prop :=
  replay RequestProtocol.step RequestProtocol.start (acts s.log) = some st

theorem Standing.left_cases {s : HttpSession} {st : State} {left : Nat} (h : Standing s st left) :
    left = 0 ∧ st.answered = st.requests ∨ 0 < left ∧ st.answered + 1 = st.requests := by
  cases h with
  | begun => exact .inl ⟨rfl, rfl⟩
  | waiting => exact .inl ⟨rfl, rfl⟩
  | @asked n i op p => exact .inr ⟨by cases op <;> decide, rfl⟩
  | answered => exact .inl ⟨rfl, rfl⟩
  | @ended n phase hp hphase =>
    refine .inl ⟨rfl, ?_⟩
    cases phase with
    | asked => exact absurd rfl hphase
    | _ => rfl

structure Inv (s : HttpSession) (st : State) (left : Nat) : Prop where
  logged : Logged s st
  standing : Standing s st left

/-- Every request up to the first state is answered in the second, or the last
one still waits, for fewer handlers than before. -/
def Onward (st : State) (left : Nat) (st' : State) (left' : Nat) : Prop :=
  st.requests ≤ st'.answered ∨ st'.requests = st.requests ∧ left' < left

theorem Logged.emit {s : HttpSession} {st st' : State} (h : Logged s st) (event : HttpEvent)
    (hs : RequestProtocol.step st (act event) = some st') : Logged (s.emit event) st' := by
  have hl : replay RequestProtocol.step RequestProtocol.start (s.log.map act) = some st := h
  rw [Logged, HttpSession.emit, acts, List.map_append, List.map_singleton, Replay.replay_snoc, hl]
  exact hs

/-! ## What each handler leaves behind -/

theorem doRead_inv {s : HttpSession} {n : Nat} (h : Logged s ⟨n, .idle⟩) (hp : s.pending = []) :
    Inv s.doRead ⟨n, .waiting⟩ 0 where
  logged := h.emit .reading rfl
  standing := .waiting (by simp [doRead, start, HttpSession.emit, hp])

theorem doClose_inv {s : HttpSession} {n : Nat} {phase : RequestProtocol.Phase}
    (h : Logged s ⟨n, phase⟩) (hphase : phase = .idle ∨ phase = .waiting) (hp : s.pending = []) :
    Inv s.doClose ⟨n, .ended⟩ 0 where
  logged := h.emit .closed (by simp [act, RequestProtocol.step, hphase])
  standing := .ended hp (by simp)

theorem onResponse_inv {s : HttpSession} {n : Nat} (h : Logged s ⟨n + 1, .asked⟩)
    (hp : s.pending = []) (res : HttpResponse) :
    Inv (s.onResponse n res) ⟨n + 1, .answered⟩ 0 where
  logged := h.emit (.answered n res) (by simp [act, RequestProtocol.step])
  standing := .answered (by simp [onResponse, sendResponse, start, HttpSession.emit, hp]) rfl

/-- What the session makes of a handler of the proxy that has the callback. -/
theorem perform_inv {s : HttpSession} {n i m : Nat} {p : HttpProxy} {effects : List ProxyEffect}
    (h : Logged s ⟨n + 1, .asked⟩) (hp : s.pending = []) (hi : s.proxies[i]? = some p)
    (ha : HttpProxy.Advanced n m (p, effects)) :
    ∃ st left, Inv (effects.foldl (perform i) s) st left ∧ Onward ⟨n + 1, .asked⟩ m st left := by
  cases ha with
  | waits hr hlt =>
    refine ⟨_, _, ⟨h, .asked (by simp [perform, start, hp]) hi hr⟩, .inr ⟨rfl, hlt⟩⟩
  | answers hr =>
    exact ⟨_, _, onResponse_inv h hp _, .inl (Nat.le_refl _)⟩

section Handlers

variable {B : Beast} {rpc : HttpRequest → HttpResponse}

theorem asyncHandleRequest_inv {s t : HttpSession} {n : Nat} {req : HttpRequest}
    (h : Logged s ⟨n + 1, .asked⟩) (hp : s.pending = []) (hs : s.asyncHandleRequest B rpc req n = .ok t) :
    ∃ st left, Inv t st left ∧ Onward ⟨n + 1, .asked⟩ 7 st left := by
  have hanswered : ∀ res, s.onResponse n res = t →
      ∃ st left, Inv t st left ∧ Onward ⟨n + 1, .asked⟩ 7 st left := by
    rintro res rfl
    exact ⟨_, _, onResponse_inv h hp _, .inl (Nat.le_refl _)⟩
  unfold asyncHandleRequest at hs
  dsimp only at hs
  split at hs
  · exact hanswered _ (Except.ok.inj hs)
  · split at hs
    · exact hanswered _ (Except.ok.inj hs)
    · split at hs
      next url _ =>
        obtain ⟨handled, hhandled, rfl⟩ := Machine.map_eq_ok hs
        exact perform_inv (p := handled.1) (s := { s with proxies := s.proxies ++ [handled.1] }) h hp (by simp)
          (HttpProxy.asyncHandleRequest_advanced hhandled)
      · exact hanswered _ (Except.ok.inj hs)

theorem onRead_inv {s t : HttpSession} {n : Nat} {result : SessionRead} (h : Logged s ⟨n, .waiting⟩)
    (hp : s.pending = []) (hs : s.onRead B rpc result = .ok t) :
    ∃ st left, Inv t st left ∧ Onward ⟨n, .waiting⟩ 0 st left := by
  cases result with
  | endOfStream =>
    obtain rfl := Except.ok.inj hs
    exact ⟨_, _, doClose_inv h (.inr rfl) hp, .inl (Nat.le_refl _)⟩
  | error _ =>
    obtain rfl := Except.ok.inj hs
    exact ⟨_, _, ⟨h, .ended hp (by simp)⟩, .inl (Nat.le_refl _)⟩
  | request req =>
    have hn : (requests s.log).length = n := by
      rw [requests_length]
      exact (RequestProtocol.tracks_of_replay h).requests
    have hreq : Logged (s.emit (.request req)) ⟨n + 1, .asked⟩ := h.emit (.request req) rfl
    rw [onRead, hn] at hs
    obtain ⟨st, left, hinv, hon⟩ := asyncHandleRequest_inv hreq hp hs
    refine ⟨st, left, hinv, .inl ?_⟩
    rcases hon with hon | ⟨hr, _⟩
    · exact Nat.le_of_succ_le hon
    · have hle := st.requests_le
      rw [hr] at hle
      exact Nat.le_of_succ_le_succ hle

/-- Only the building of a request throws. -/
theorem onRead_error {s : HttpSession} {result : SessionRead} {f : SessionFault}
    (hs : s.onRead B rpc result = .error f) : f = .invalidArgument ∧ ¬ s.Builds B (.read result) := by
  cases result with
  | endOfStream => cases hs
  | error _ => cases hs
  | request req =>
    rw [onRead, asyncHandleRequest] at hs
    split at hs
    · cases hs
    · split at hs
      · cases hs
      · split at hs
        next url hurl =>
          have hhandled := Machine.map_eq_error hs
          refine ⟨HttpProxy.asyncHandleRequest_error hhandled, fun hbuilds => ?_⟩
          have hsome : s.uiRemoteUrl.isSome = true := by
            have hurl : s.uiRemoteUrl = some url := hurl
            rw [hurl]
            rfl
          obtain ⟨handled, hok⟩ := HttpProxy.asyncHandleRequest_builds (p := { uiRemoteUrl := url })
            (k := (requests s.log).length) (hbuilds hsome)
          rw [hok] at hhandled
          cases hhandled
        · cases hs

theorem onWrite_inv {s : HttpSession} {n : Nat} (h : Logged s ⟨n + 1, .answered⟩)
    (hp : s.pending = []) (keepAlive : Bool) (ec : ErrorCode) :
    ∃ st left, Inv (s.onWrite keepAlive n ec) st left ∧ Onward ⟨n + 1, .answered⟩ 0 st left := by
  cases ec with
  | some _ => exact ⟨_, _, ⟨h, .ended hp (by simp)⟩, .inl (Nat.le_refl _)⟩
  | none =>
    have hw : Logged (s.emit (.written n)) ⟨n + 1, .idle⟩ :=
      h.emit (.written n) (by simp [act, RequestProtocol.step])
    cases keepAlive with
    | false => exact ⟨_, _, doClose_inv hw (.inl rfl) hp, .inl (Nat.le_refl _)⟩
    | true =>
      exact ⟨_, _, doRead_inv (s := { s.emit (.written n) with res := none }) hw hp,
        .inl (Nat.le_refl _)⟩

theorem complete_write {s : HttpSession} {res : HttpResponse} (hres : s.res = some res) (request : Nat)
    (ec : ErrorCode) : s.complete B rpc (.write request ec) =
      .ok (s.onWrite (B.keepAlive res.version res.fields) request ec) := by
  simp only [complete, hres]

/-- What is pending is one operation, and its handler the next. -/
theorem step_pending {s : HttpSession} {c : Completion} {op : SessionOp} (hp : s.pending = [op])
    (hc : (machine B rpc).enabled s c) : c.op = op ∧
      (machine B rpc).step s c = ({ s with pending := [] } : HttpSession).complete B rpc c := by
  have hc : c.op ∈ s.pending := hc
  rw [hp, List.mem_singleton] at hc
  exact ⟨hc, by simp [machine, hp, hc]⟩

/-- A step of the session: the request that waits for its answer gets on. -/
theorem step_inv {s t : HttpSession} {st : State} {left : Nat} (h : Inv s st left) {c : Completion}
    (hc : (machine B rpc).enabled s c) (ht : (machine B rpc).step s c = .ok t) :
    ∃ st' left', Inv t st' left' ∧ Onward st left st' left' := by
  obtain ⟨hlog, hstanding⟩ := h
  cases hstanding with
  | begun hp =>
    obtain ⟨hop, hstep⟩ := step_pending hp hc
    rw [hstep] at ht
    cases c with
    | start =>
      obtain rfl := Except.ok.inj ht
      exact ⟨_, _, doRead_inv (s := { s with pending := [] }) hlog rfl, .inl (Nat.le_refl _)⟩
    | _ => simp [Completion.op] at hop
  | waiting hp =>
    obtain ⟨hop, hstep⟩ := step_pending hp hc
    rw [hstep] at ht
    cases c with
    | read result => exact onRead_inv (s := { s with pending := [] }) hlog rfl ht
    | _ => simp [Completion.op] at hop
  | @asked n i op p hp hi hr =>
    obtain ⟨hop, hstep⟩ := step_pending hp hc
    rw [hstep] at ht
    cases c with
    | proxy j result =>
      obtain ⟨rfl, rfl⟩ : j = i ∧ result.op = op := by simpa [Completion.op] using hop
      obtain ⟨hlt, -⟩ := List.getElem?_eq_some_iff.mp hi
      have ha : HttpProxy.Advanced n result.op.left
          ((p.complete B result).1, (p.complete B result).2) :=
        HttpProxy.complete_advanced hr result
      simp only [complete, hi] at ht
      obtain rfl := Except.ok.inj ht
      exact perform_inv (s := { s with pending := [], proxies := s.proxies.set j (p.complete B result).1 })
        hlog rfl (List.getElem?_set_self hlt) ha
    | _ => simp [Completion.op] at hop
  | @answered n res hp hres =>
    obtain ⟨hop, hstep⟩ := step_pending hp hc
    rw [hstep] at ht
    cases c with
    | write request ec =>
      obtain rfl : request = n := by simpa [Completion.op] using hop
      have hwrite := @complete_write B rpc { s with pending := [] } res hres request ec
      obtain rfl := Except.ok.inj (hwrite.symm.trans ht)
      exact onWrite_inv (s := { s with pending := [] }) hlog rfl _ ec
    | _ => simp [Completion.op] at hop
  | ended hp hphase =>
    have hc : c.op ∈ s.pending := hc
    simp [hp] at hc

/-- No handler dereferences a null pointer, and one only throws where it cannot build
its request. -/
theorem step_error {s : HttpSession} {st : State} {left : Nat} (h : Inv s st left) {c : Completion}
    (hc : (machine B rpc).enabled s c) {f : SessionFault} (hf : (machine B rpc).step s c = .error f) :
    f = .invalidArgument ∧ ¬ s.Builds B c := by
  obtain ⟨-, hstanding⟩ := h
  cases hstanding with
  | begun hp =>
    obtain ⟨hop, hstep⟩ := step_pending hp hc
    rw [hstep] at hf
    cases c with
    | start => cases hf
    | _ => simp [Completion.op] at hop
  | waiting hp =>
    obtain ⟨hop, hstep⟩ := step_pending hp hc
    rw [hstep] at hf
    cases c with
    | read result => exact onRead_error (s := { s with pending := [] }) hf
    | _ => simp [Completion.op] at hop
  | @asked n i op p hp hi hr =>
    obtain ⟨hop, hstep⟩ := step_pending hp hc
    rw [hstep] at hf
    cases c with
    | proxy j result =>
      obtain ⟨rfl, -⟩ : j = i ∧ result.op = op := by simpa [Completion.op] using hop
      simp [complete, hi] at hf
    | _ => simp [Completion.op] at hop
  | answered hp hres =>
    obtain ⟨hop, hstep⟩ := step_pending hp hc
    rw [hstep] at hf
    cases c with
    | write request ec => simp [complete, hres] at hf
    | _ => simp [Completion.op] at hop
  | ended hp hphase =>
    have hc : c.op ∈ s.pending := hc
    simp [hp] at hc

theorem run_inv (uiRemoteUrl : Option String) : Inv (run uiRemoteUrl) RequestProtocol.start 0 where
  logged := rfl
  standing := .begun rfl

/-- The handlers of a run take the requests that wait for their answer along. -/
theorem Inv.run {s t : HttpSession} {st : State} {left : Nat} (h : Inv s st left)
    {es : List Completion} (hrun : Machine.Run (machine B rpc) s es t) :
    ∃ st' left', Inv t st' left' ∧ (st.requests ≤ st'.answered ∨
      st'.requests = st.requests ∧ 0 < left' ∧ left' + es.length ≤ left) := by
  induction hrun generalizing st left with
  | nil s =>
    refine ⟨st, left, h, ?_⟩
    rcases h.standing.left_cases with ⟨-, hst⟩ | ⟨hleft, -⟩
    · exact .inl (Nat.le_of_eq hst.symm)
    · exact .inr ⟨rfl, hleft, Nat.le_refl _⟩
  | cons hc hstep hrest ih =>
    obtain ⟨st₁, left₁, hinv, hon⟩ := step_inv h hc hstep
    obtain ⟨st', left', hinv', hrun⟩ := ih hinv
    have hst₁ := hinv.standing.left_cases
    have hst' := hinv'.standing.left_cases
    refine ⟨st', left', hinv', ?_⟩
    rw [List.length_cons]
    rw [Onward] at hon
    omega

end Handlers

end HttpSession
