import Zakuro.HttpProxy

/-!
# HttpSession

One connection of the HTTP server with the proxies it makes. Asio calls the
completion handler of an operation once: an operation is pending from when it is
begun until the event of its completion. The log keeps what can be seen of a
session; a callback is known by the number of the request it was made for.
-/

inductive SessionOp where
  /-- the handler that `Run` posts -/
  | start : SessionOp
  | read : SessionOp
  /-- the writing of the response to a request -/
  | write : Nat → SessionOp
  | proxy : Nat → ProxyOp → SessionOp
  deriving DecidableEq, Repr

/-- What the reading of a request completes with. -/
inductive SessionRead where
  | endOfStream : SessionRead
  | error : String → SessionRead
  | request : HttpRequest → SessionRead

inductive Completion where
  | start : Completion
  | read : SessionRead → Completion
  | write : Nat → ErrorCode → Completion
  | proxy : Nat → ProxyResult → Completion

/-- The operation that an event completes. -/
def Completion.op : Completion → SessionOp
  | start => .start
  | read _ => .read
  | write request _ => .write request
  | proxy i result => .proxy i result.op

inductive HttpEvent where
  /-- `DoRead` waits for a request -/
  | reading : HttpEvent
  | request : HttpRequest → HttpEvent
  /-- the callback of a request is invoked -/
  | answered : Nat → HttpResponse → HttpEvent
  /-- the response to a request has been written -/
  | written : Nat → HttpEvent
  /-- `DoClose` -/
  | closed : HttpEvent
  deriving DecidableEq

structure HttpSession where
  uiRemoteUrl : Option String
  res : Option HttpResponse := none
  proxies : List HttpProxy := []
  pending : List SessionOp := []
  log : List HttpEvent := []
  deriving DecidableEq

namespace HttpSession

/-- The requests that have come in. -/
def requests (log : List HttpEvent) : List HttpRequest :=
  log.filterMap fun
    | .request req => some req
    | _ => none

/-- The requests whose callback has been invoked, once for each time. -/
def answers (log : List HttpEvent) : List Nat :=
  log.filterMap fun
    | .answered request _ => some request
    | _ => none

/-- The requests whose response has been written. -/
def writes (log : List HttpEvent) : List Nat :=
  log.filterMap fun
    | .written request => some request
    | _ => none

def emit (s : HttpSession) (event : HttpEvent) : HttpSession :=
  { s with log := s.log ++ [event] }

def start (s : HttpSession) (op : SessionOp) : HttpSession :=
  { s with pending := s.pending ++ [op] }

def doRead (s : HttpSession) : HttpSession := (s.emit .reading).start .read

def doClose (s : HttpSession) : HttpSession := s.emit .closed

def sendResponse (s : HttpSession) (request : Nat) (res : HttpResponse) : HttpSession :=
  { s with res := some res }.start (.write request)

/-- The function that `OnRead` hands to `AsyncHandleRequest` for a request. -/
def onResponse (s : HttpSession) (request : Nat) (res : HttpResponse) : HttpSession :=
  (s.emit (.answered request res)).sendResponse request res

/-- What a handler of the proxy `i` does to the session. -/
def perform (i : Nat) (s : HttpSession) : ProxyEffect → HttpSession
  | .start op => s.start (.proxy i op)
  | .call request res => s.onResponse request res

section Handlers

variable (B : Beast) (handleJsonRpcRequest : HttpRequest → HttpResponse)

def asyncHandleSimpleProxyRequest (s : HttpSession) (uiRemoteUrl : String) (req : HttpRequest)
    (request : Nat) : Except SessionFault HttpSession :=
  (HttpProxy.asyncHandleRequest B { uiRemoteUrl := uiRemoteUrl } req request).map fun handled =>
    handled.2.foldl (perform s.proxies.length) { s with proxies := s.proxies ++ [handled.1] }

def asyncHandleRequest (s : HttpSession) (req : HttpRequest) (request : Nat) :
    Except SessionFault HttpSession :=
  let keepAlive := B.keepAlive req.version req.fields
  if req.target = "/.ok" ∧ req.method = "GET" then
    .ok (s.onResponse request (B.answer 200 req.version "text/plain" keepAlive "OK"))
  else if req.target = "/rpc" ∧ req.method = "POST" then
    .ok (s.onResponse request (handleJsonRpcRequest req))
  else
    match s.uiRemoteUrl with
    | some uiRemoteUrl => s.asyncHandleSimpleProxyRequest B uiRemoteUrl req request
    | none => .ok (s.onResponse request (B.answer 404 req.version "text/plain" keepAlive "Not Found"))

def onRead (s : HttpSession) : SessionRead → Except SessionFault HttpSession
  | .endOfStream => .ok s.doClose
  | .error _ => .ok s
  | .request req =>
    (s.emit (.request req)).asyncHandleRequest B handleJsonRpcRequest req (requests s.log).length

def onWrite (s : HttpSession) (keepAlive : Bool) (request : Nat) (ec : ErrorCode) : HttpSession :=
  match ec with
  | some _ => s
  | none =>
    let s := s.emit (.written request)
    if !keepAlive then s.doClose else { s with res := none }.doRead

/-- The handler of a completion, which finds the operation no longer pending. -/
def complete (s : HttpSession) : Completion → Except SessionFault HttpSession
  | .start => .ok s.doRead
  | .read result => s.onRead B handleJsonRpcRequest result
  | .write request ec =>
    match s.res with
    | some res => .ok (s.onWrite (B.keepAlive res.version res.fields) request ec)
    | none => .error .nullDeref
  | .proxy i result =>
    match s.proxies[i]? with
    | some p =>
      let handled := p.complete B result
      .ok (handled.2.foldl (perform i) { s with proxies := s.proxies.set i handled.1 })
    | none => .error .nullDeref

def machine : Machine HttpSession Completion SessionFault where
  enabled s c := c.op ∈ s.pending
  step s c := { s with pending := s.pending.erase c.op }.complete B handleJsonRpcRequest c

instance (s : HttpSession) (c : Completion) :
    Decidable ((machine B handleJsonRpcRequest).enabled s c) :=
  inferInstanceAs (Decidable (c.op ∈ s.pending))

/-- An exception comes out of the handler. -/
def throws (s : HttpSession) (c : Completion) : Bool :=
  match (machine B handleJsonRpcRequest).step s c with
  | .error .invalidArgument => true
  | _ => false

theorem step_of_throws {B : Beast} {rpc : HttpRequest → HttpResponse} {s : HttpSession} {c : Completion}
    (h : s.throws B rpc c = true) : (machine B rpc).step s c = .error .invalidArgument := by
  rw [throws] at h
  split at h
  next hstep => exact hstep
  next => cases h

theorem throws_of_step {B : Beast} {rpc : HttpRequest → HttpResponse} {s : HttpSession} {c : Completion}
    (h : (machine B rpc).step s c = .error .invalidArgument) : s.throws B rpc c = true := by
  rw [throws, h]

/-- The messages of a handler can be built: the proxy is not given a `TRACE` with a body. -/
def Builds (s : HttpSession) : Completion → Prop
  | .read (.request req) => s.uiRemoteUrl.isSome = true → HttpProxy.Builds B req
  | _ => True

end Handlers

/-- A session on which `Run` has been called. -/
def run (uiRemoteUrl : Option String) : HttpSession :=
  { uiRemoteUrl := uiRemoteUrl, pending := [.start] }

end HttpSession
