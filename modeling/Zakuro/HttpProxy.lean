import Zakuro.HttpMessage
import Zakuro.Machine

/-!
# HttpProxy

One proxy serves one request. Its handlers run one after the other, each when
the operation that the one before has begun is over, and each either begins
another operation or hands a response to the callback.
-/

/-- The asynchronous operations of a proxy. -/
inductive ProxyOp where
  | resolve : ProxyOp
  | connect : ProxyOp
  | handshake : ProxyOp
  | write : ProxyOp
  | read : ProxyOp
  | shutdown : ProxyOp
  deriving DecidableEq, Repr

namespace ProxyOp

/-- The handlers still to come, this one included, before the callback is due. -/
def left : ProxyOp → Nat
  | resolve => 6
  | connect => 5
  | handshake => 4
  | write => 3
  | read => 2
  | shutdown => 1

end ProxyOp

/-- An error code: the message of an error that is set. -/
abbrev ErrorCode := Option String

/-- What an operation completes with. The second argument of `resolve` is whether
`SSL_set_tlsext_host_name`, which the handler calls, succeeds. -/
inductive ProxyResult where
  | resolve : ErrorCode → Bool → ProxyResult
  | connect : ErrorCode → ProxyResult
  | handshake : ErrorCode → ProxyResult
  | write : ErrorCode → ProxyResult
  | read : Except String UpstreamResponse → ProxyResult
  | shutdown : ErrorCode → ProxyResult

def ProxyResult.op : ProxyResult → ProxyOp
  | resolve _ _ => .resolve
  | connect _ => .connect
  | handshake _ => .handshake
  | write _ => .write
  | read _ => .read
  | shutdown _ => .shutdown

inductive ProxyEffect where
  | start : ProxyOp → ProxyEffect
  /-- the callback of a request is invoked with a response -/
  | call : Nat → HttpResponse → ProxyEffect
  deriving DecidableEq

structure HttpProxy where
  uiRemoteUrl : String
  host : String := ""
  port : String := ""
  hostHeader : String := ""
  reqVersion : Nat := 11
  keepAlive : Bool := false
  useSsl : Bool := false
  proxyReq : HttpRequest := ⟨"", "", 11, [], ""⟩
  proxyRes : UpstreamResponse := .unread
  /-- `on_response_`: the callback of one request, or the null function -/
  onResponse : Option Nat := none
  deriving DecidableEq

namespace HttpProxy

def kMaxProxyResponseSize : Nat := 10 * 1024 * 1024

/-- The part of a URL behind its scheme, cut into the host and the port. -/
def splitHost (url : List Char) : List Char × List Char :=
  match url.idxOf? ':', url.idxOf? '/' with
  | some portPos, some pathPos =>
    if portPos < pathPos then
      (url.take portPos, (url.drop (portPos + 1)).take (pathPos - portPos - 1))
    else (url.take pathPos, [])
  | some portPos, none => (url.take portPos, url.drop (portPos + 1))
  | none, some pathPos => (url.take pathPos, [])
  | none, none => (url, [])

/-- `ParseUrl`, without a result when it returns false and changes nothing. -/
def parseUrl (p : HttpProxy) (url : String) : Option HttpProxy :=
  let members (useSsl : Bool) (rest : List Char) : HttpProxy :=
    let (host, port) := splitHost rest
    let host := String.ofList host
    let port := if port.isEmpty then (if useSsl then "443" else "80") else String.ofList port
    { p with
      host := host
      port := port
      useSsl := useSsl
      hostHeader := if port = "80" ∨ port = "443" then host else host ++ ":" ++ port }
  if "https://".toList.isPrefixOf url.toList then some (members true (url.toList.drop 8))
  else if "http://".toList.isPrefixOf url.toList then some (members false (url.toList.drop 7))
  else none

/-- `if (on_response_) { std::move(on_response_)(res); on_response_ = nullptr; }` -/
def respond (p : HttpProxy) (res : HttpResponse) : HttpProxy × List ProxyEffect :=
  match p.onResponse with
  | some request => ({ p with onResponse := none }, [.call request res])
  | none => (p, [])

section Handlers

variable (B : Beast) (p : HttpProxy)

def sendErrorResponse (message : String) : HttpProxy × List ProxyEffect :=
  p.respond (B.answer 502 p.reqVersion "text/plain" p.keepAlive ("Proxy Error: " ++ message))

/-- The request that `AsyncHandleRequest` makes for the upstream server. -/
def upstreamRequest (req : HttpRequest) : Except SessionFault HttpRequest :=
  let fields := B.set (B.set [] .host p.hostHeader) .userAgent "Zakuro/1.0"
  B.preparePayload
    { method := B.methodText req.method
      target := req.target
      version := req.version
      fields := B.copyFields [.host, .connection, .userAgent] req.fields fields
      body := req.body }

/-- The response that `FinishResponse` makes of the upstream server's. -/
def downstreamResponse : HttpResponse :=
  let bodySize := p.proxyRes.body.length
  if kMaxProxyResponseSize < bodySize then
    B.answer 413 p.reqVersion "text/plain" p.keepAlive
      ("Response too large: " ++ toString bodySize ++ " bytes (max: " ++
        toString kMaxProxyResponseSize ++ " bytes)")
  else
    let fields := B.copyFields [.connection, .transferEncoding, .server] p.proxyRes.fields
      (B.set [] .server "Zakuro")
    B.preparePayloadResponse
      { status := B.result p.proxyRes.status
        version := p.reqVersion
        fields := B.setKeepAlive p.reqVersion p.keepAlive fields
        body := p.proxyRes.body }

def finishResponse : HttpProxy × List ProxyEffect := p.respond (p.downstreamResponse B)

/-- `AsyncHandleRequest`, with the request whose callback is given. -/
def asyncHandleRequest (req : HttpRequest) (request : Nat) :
    Except SessionFault (HttpProxy × List ProxyEffect) :=
  let p := { p with
    onResponse := some request
    reqVersion := req.version
    keepAlive := B.keepAlive req.version req.fields }
  match p.parseUrl p.uiRemoteUrl with
  | none => .ok (p.sendErrorResponse B "Invalid proxy URL")
  | some p => (p.upstreamRequest B req).map fun proxyReq => ({ p with proxyReq := proxyReq }, [.start .resolve])

def onResolve (ec : ErrorCode) (sni : Bool) : HttpProxy × List ProxyEffect :=
  match ec with
  | some message => p.sendErrorResponse B ("Resolve error: " ++ message)
  | none =>
    if p.useSsl then
      if !sni then p.sendErrorResponse B "Failed to set SNI hostname"
      else (p, [.start .connect])
    else (p, [.start .connect])

def onConnect (ec : ErrorCode) : HttpProxy × List ProxyEffect :=
  match ec with
  | some message => p.sendErrorResponse B ("Connect error: " ++ message)
  | none => if p.useSsl then (p, [.start .handshake]) else (p, [.start .write])

def onSslHandshake (ec : ErrorCode) : HttpProxy × List ProxyEffect :=
  match ec with
  | some message => p.sendErrorResponse B ("SSL handshake error: " ++ message)
  | none => (p, [.start .write])

def onWrite (ec : ErrorCode) : HttpProxy × List ProxyEffect :=
  match ec with
  | some message => p.sendErrorResponse B ("Write error: " ++ message)
  | none => (p, [.start .read])

/-- `OnRead`, when `proxy_res_` has been read into or an error has come up. -/
def onRead (result : Except String UpstreamResponse) : HttpProxy × List ProxyEffect :=
  match result with
  | .error message => p.sendErrorResponse B ("Read error: " ++ message)
  | .ok res =>
    let p := { p with proxyRes := res }
    if p.useSsl then (p, [.start .shutdown]) else p.finishResponse B

/-- An error of the shutdown is only logged. -/
def onShutdown (_ec : ErrorCode) : HttpProxy × List ProxyEffect := p.finishResponse B

def complete : ProxyResult → HttpProxy × List ProxyEffect
  | .resolve ec sni => p.onResolve B ec sni
  | .connect ec => p.onConnect B ec
  | .handshake ec => p.onSslHandshake B ec
  | .write ec => p.onWrite B ec
  | .read result => p.onRead B result
  | .shutdown ec => p.onShutdown B ec

end Handlers

/-- What the request `k` is left with after a handler: one more operation, of
which fewer than `n` can follow, or the callback invoked and given up. -/
inductive Advanced (k n : Nat) : HttpProxy × List ProxyEffect → Prop where
  | waits {p : HttpProxy} {op : ProxyOp} :
    p.onResponse = some k → op.left < n → Advanced k n (p, [.start op])
  | answers {p : HttpProxy} {res : HttpResponse} :
    p.onResponse = none → Advanced k n (p, [.call k res])

section Progress

variable {B : Beast} {p : HttpProxy} {k n : Nat}

theorem Advanced.onResponse {handled : HttpProxy × List ProxyEffect} (h : Advanced k n handled) {m : Nat}
    (hm : handled.1.onResponse = some m) : m = k := by
  cases h with
  | waits hk => exact Option.some.inj (hm.symm.trans hk)
  | answers hnone => cases hnone.symm.trans hm

theorem Advanced.call {handled : HttpProxy × List ProxyEffect} (h : Advanced k n handled) {m : Nat}
    {res : HttpResponse} (hm : .call m res ∈ handled.2) : m = k := by
  cases h with
  | waits => cases List.mem_singleton.mp hm
  | answers => exact (ProxyEffect.call.inj (List.mem_singleton.mp hm)).1

theorem parseUrl_onResponse {q : HttpProxy} {url : String} (h : p.parseUrl url = some q) :
    q.onResponse = p.onResponse := by
  unfold parseUrl at h
  split at h
  · obtain rfl := Option.some.inj h
    rfl
  · split at h
    · obtain rfl := Option.some.inj h
      rfl
    · simp at h

theorem respond_advanced (h : p.onResponse = some k) (res : HttpResponse) :
    Advanced k n (p.respond res) := by
  rw [respond, h]
  exact .answers rfl

theorem sendErrorResponse_advanced (h : p.onResponse = some k) (message : String) :
    Advanced k n (p.sendErrorResponse B message) :=
  respond_advanced h _

/-- The status of a response is kept or unknown, and where it allows no body, none has
been read. -/
theorem downstreamResponse_preparable (p : HttpProxy) : (p.downstreamResponse B).Preparable := by
  rw [downstreamResponse]
  dsimp only
  split
  · exact Beast.answer_preparable (by decide)
  · intro hbodiless
    have hstatus : HttpResponse.bodiless (B.result p.proxyRes.status) = true := hbodiless
    rcases B.result_same p.proxyRes.status with hsame | hzero
    · rw [hsame] at hstatus
      exact p.proxyRes.preparable hstatus
    · rw [hzero] at hstatus
      cases hstatus

theorem finishResponse_advanced (h : p.onResponse = some k) : Advanced k n (p.finishResponse B) :=
  respond_advanced h _

/-- The requests that the proxy can build its own from: no `TRACE` with a body. -/
def Builds (B : Beast) (req : HttpRequest) : Prop := B.methodText req.method = "TRACE" → req.body = ""

instance (B : Beast) (req : HttpRequest) : Decidable (Builds B req) := inferInstanceAs (Decidable (_ → _))

theorem asyncHandleRequest_advanced {req : HttpRequest} {handled : HttpProxy × List ProxyEffect}
    (h : p.asyncHandleRequest B req k = .ok handled) : Advanced k 7 handled := by
  unfold asyncHandleRequest at h
  dsimp only at h
  split at h
  · obtain rfl := Except.ok.inj h
    exact sendErrorResponse_advanced rfl _
  next q hq =>
    obtain ⟨proxyReq, -, rfl⟩ := Machine.map_eq_ok h
    exact .waits (parseUrl_onResponse hq) (by decide)

theorem asyncHandleRequest_builds {req : HttpRequest} (h : Builds B req) :
    ∃ handled, p.asyncHandleRequest B req k = .ok handled := by
  unfold asyncHandleRequest
  dsimp only
  split
  · exact ⟨_, rfl⟩
  next q _ =>
    have hbuilt : q.upstreamRequest B req = .ok _ := Beast.preparePayload_ok_iff.mpr ⟨h, rfl⟩
    rw [hbuilt]
    exact ⟨_, rfl⟩

theorem asyncHandleRequest_error {req : HttpRequest} {f : SessionFault}
    (h : p.asyncHandleRequest B req k = .error f) : f = .invalidArgument := by
  unfold asyncHandleRequest at h
  dsimp only at h
  split at h
  · cases h
  · exact Beast.preparePayload_error (Machine.map_eq_error h)

/-- Whatever an operation completes with, its handler goes on with the request
or answers it, and never both. -/
theorem complete_advanced (h : p.onResponse = some k) (result : ProxyResult) :
    Advanced k result.op.left (p.complete B result) := by
  cases result with
  | resolve ec sni =>
    cases ec with
    | some message => exact sendErrorResponse_advanced h _
    | none =>
      simp only [complete, onResolve]
      split
      · split
        · exact sendErrorResponse_advanced h _
        · exact .waits h (by simp [ProxyResult.op, ProxyOp.left])
      · exact .waits h (by simp [ProxyResult.op, ProxyOp.left])
  | connect ec =>
    cases ec with
    | some message => exact sendErrorResponse_advanced h _
    | none =>
      simp only [complete, onConnect]
      split <;> exact .waits h (by decide)
  | handshake ec =>
    cases ec with
    | some message => exact sendErrorResponse_advanced h _
    | none => exact .waits h (by decide)
  | write ec =>
    cases ec with
    | some message => exact sendErrorResponse_advanced h _
    | none => exact .waits h (by decide)
  | read result =>
    cases result with
    | error message => exact sendErrorResponse_advanced h _
    | ok res =>
      simp only [complete, onRead]
      split
      · exact .waits h (by simp [ProxyResult.op, ProxyOp.left])
      · exact finishResponse_advanced h
  | shutdown ec => exact finishResponse_advanced h

/-- `prepare_payload()` throws for none of the responses that are given to a callback. -/
theorem complete_preparable (result : ProxyResult) {res : HttpResponse}
    (h : .call k res ∈ (p.complete B result).2) : res.Preparable := by
  have hrespond : ∀ (q : HttpProxy) (r : HttpResponse), r.Preparable →
      .call k res ∈ (q.respond r).2 → res.Preparable := by
    intro q r hr hmem
    rw [respond] at hmem
    split at hmem
    · obtain ⟨-, rfl⟩ := ProxyEffect.call.inj (List.mem_singleton.mp hmem)
      exact hr
    · exact absurd hmem List.not_mem_nil
  have herror : ∀ (q : HttpProxy) (message : String), .call k res ∈ (q.sendErrorResponse B message).2 →
      res.Preparable := fun q message => hrespond q _ (Beast.answer_preparable (by decide))
  have hfinish : ∀ q : HttpProxy, .call k res ∈ (q.finishResponse B).2 → res.Preparable :=
    fun q => hrespond q _ (downstreamResponse_preparable q)
  have hstart : ∀ op : ProxyOp, .call k res ∉ [ProxyEffect.start op] := by
    intro op hmem
    cases List.mem_singleton.mp hmem
  cases result with
  | resolve ec sni =>
    cases ec with
    | some message => exact herror _ _ h
    | none =>
      simp only [complete, onResolve] at h
      split at h
      · split at h
        · exact herror _ _ h
        · exact absurd h (hstart _)
      · exact absurd h (hstart _)
  | connect ec =>
    cases ec with
    | some message => exact herror _ _ h
    | none =>
      simp only [complete, onConnect] at h
      split at h <;> exact absurd h (hstart _)
  | handshake ec =>
    cases ec with
    | some message => exact herror _ _ h
    | none => exact absurd h (hstart _)
  | write ec =>
    cases ec with
    | some message => exact herror _ _ h
    | none => exact absurd h (hstart _)
  | read result =>
    cases result with
    | error message => exact herror _ _ h
    | ok upstream =>
      simp only [complete, onRead] at h
      split at h
      · exact absurd h (hstart _)
      · exact hfinish _ h
  | shutdown ec => exact hfinish _ h

end Progress

end HttpProxy
