import Zakuro.HttpForwarding

/-!
# What the proxy writes and delivers

One request through a proxy of its own: what is written to the upstream server, and
what the callback is given in the end. The copying loops lose what the table of
field names does not spell, so that the two messages are the client's and the
server's under a condition on both, and under no other.
-/

open HttpProxy (parseUrl asyncHandleRequest)

/-- A proxy with the operations it has begun, the messages that `async_write` has
been given, and the responses that its callback has. -/
structure HttpExchange where
  proxy : HttpProxy
  pending : List ProxyOp := []
  written : List HttpRequest := []
  delivered : List HttpResponse := []

namespace HttpExchange

def perform (x : HttpExchange) : ProxyEffect → HttpExchange
  | .start op =>
    { x with
      pending := x.pending ++ [op]
      written := if op = .write then x.written ++ [x.proxy.proxyReq] else x.written }
  | .call _ res => { x with delivered := x.delivered ++ [res] }

/-- A handler has left the proxy behind, with its effects still to be performed. -/
def handle (x : HttpExchange) (handled : HttpProxy × List ProxyEffect) : HttpExchange :=
  handled.2.foldl perform { x with proxy := handled.1 }

section Machine

variable (B : Beast)

/-- A request with its number is handed to a new proxy. -/
def begun (url : String) (req : HttpRequest) (request : Nat) : Except SessionFault HttpExchange :=
  (asyncHandleRequest B { uiRemoteUrl := url } req request).map (handle ⟨{ uiRemoteUrl := url }, [], [], []⟩)

def machine : Machine HttpExchange ProxyResult SessionFault where
  enabled x r := r.op ∈ x.pending
  step x r := .ok (handle { x with pending := x.pending.erase r.op } (x.proxy.complete B r))

instance (x : HttpExchange) (r : ProxyResult) : Decidable ((machine B).enabled x r) :=
  inferInstanceAs (Decidable (r.op ∈ x.pending))

end Machine

/-- Nothing fails but the reading, which ends with a result. The shutdown may fail as
well: its error is only logged. -/
def Succeeds (result : Except String UpstreamResponse) : ProxyResult → Prop
  | .resolve ec sni => ec = none ∧ sni = true
  | .connect ec | .handshake ec | .write ec => ec = none
  | .read r => r = result
  | .shutdown _ => True

/-- The exchange of a request for what is read of the upstream server, to its end. -/
def Exchanged (B : Beast) (url : String) (req : HttpRequest) (result : Except String UpstreamResponse)
    (x : HttpExchange) : Prop :=
  ∃ request x₀ rs, begun B url req request = .ok x₀ ∧ (machine B).Run x₀ rs x ∧
    (∀ r ∈ rs, Succeeds result r) ∧ x.pending = []

/-- One message is written, which is the client's, and one delivered, which is the
upstream server's. -/
def Forwards (T : FieldTable) (req : HttpRequest) (upstream : HttpResponse) (x : HttpExchange) : Prop :=
  ∃ m res, x.written = [m] ∧ x.delivered = [res] ∧ RequestForwarded T x.proxy.hostHeader req m ∧
    ResponseForwarded T upstream res

/-- A request and the response to it are forwarded unchanged: there is an exchange of
them, and each one forwards them. -/
def Forwarded (B : Beast) (url : String) (req : HttpRequest) (upstream : UpstreamResponse) : Prop :=
  (∃ result x, B.Reads req.method upstream result ∧ Exchanged B url req result x) ∧
    ∀ result x, B.Reads req.method upstream result → Exchanged B url req result x →
      Forwards B.toFieldTable req upstream.toHttpResponse x

/-! ## The stages of an exchange -/

/-- What the callback is given in the end. -/
def answer (B : Beast) (p : HttpProxy) : Except String UpstreamResponse → HttpResponse
  | .ok upstream => { p with proxyRes := upstream }.downstreamResponse B
  | .error message =>
    B.answer 502 p.reqVersion "text/plain" p.keepAlive ("Proxy Error: " ++ ("Read error: " ++ message))

/-- Where the exchange stands between two handlers, with the proxy as the first of
them has left it. -/
inductive Stage (B : Beast) (p : HttpProxy) (result : Except String UpstreamResponse) : HttpExchange → Prop where
  | opening {op : ProxyOp} :
    op = .resolve ∨ op = .connect ∨ op = .handshake → Stage B p result ⟨p, [op], [], []⟩
  | writing : Stage B p result ⟨p, [.write], [p.proxyReq], []⟩
  | reading : Stage B p result ⟨p, [.read], [p.proxyReq], []⟩
  | closing {upstream : UpstreamResponse} :
    result = .ok upstream → Stage B p result ⟨{ p with proxyRes := upstream }, [.shutdown], [p.proxyReq], []⟩
  | answered {q : HttpProxy} :
    q.hostHeader = p.hostHeader → Stage B p result ⟨q, [], [p.proxyReq], [answer B p result]⟩

section Stages

variable {B : Beast} {p : HttpProxy} {result : Except String UpstreamResponse}

theorem handle_respond {q : HttpProxy} {k : Nat} (hk : q.onResponse = some k) (res : HttpResponse)
    (pending : List ProxyOp) (written : List HttpRequest) :
    handle ⟨q, pending, written, []⟩ (q.respond res) =
      ⟨{ q with onResponse := none }, pending, written, [res]⟩ := by
  rw [HttpProxy.respond, hk]
  rfl

theorem handle_finish {upstream : UpstreamResponse} {k : Nat} (hk : p.onResponse = some k)
    (written : List HttpRequest) :
    handle ⟨{ p with proxyRes := upstream }, [], written, []⟩ ({ p with proxyRes := upstream }.finishResponse B) =
      ⟨{ p with proxyRes := upstream, onResponse := none }, [], written, [answer B p (.ok upstream)]⟩ :=
  handle_respond (q := { p with proxyRes := upstream }) hk _ _ _

/-- One handler of an exchange in which nothing fails. -/
theorem Stage.step {k : Nat} (hk : p.onResponse = some k) {x : HttpExchange} (h : Stage B p result x)
    {r : ProxyResult} (he : r.op ∈ x.pending) (hr : Succeeds result r) :
    Stage B p result (handle { x with pending := x.pending.erase r.op } (x.proxy.complete B r)) := by
  cases h with
  | opening hop =>
    obtain rfl := List.mem_singleton.mp he
    rw [List.erase_cons_head]
    cases r with
    | resolve ec sni =>
      obtain ⟨rfl, rfl⟩ := hr
      simp only [HttpProxy.complete, HttpProxy.onResolve]
      split <;> exact .opening (.inr (.inl rfl))
    | connect ec =>
      obtain rfl : ec = none := hr
      simp only [HttpProxy.complete, HttpProxy.onConnect]
      split
      · exact .opening (.inr (.inr rfl))
      · exact .writing
    | handshake ec =>
      obtain rfl : ec = none := hr
      exact .writing
    | _ => simp [ProxyResult.op] at hop
  | writing =>
    cases r with
    | write ec =>
      obtain rfl : ec = none := hr
      exact .reading
    | _ => cases List.mem_singleton.mp he
  | reading =>
    cases r with
    | read r =>
      obtain rfl : r = result := hr
      cases r with
      | error message =>
        change Stage B p _ (handle ⟨p, [], [p.proxyReq], []⟩ (p.onRead B (.error message)))
        have herror := handle_respond hk (answer B p (.error message)) [] [p.proxyReq]
        exact herror ▸ .answered rfl
      | ok upstream =>
        change Stage B p _ (handle ⟨p, [], [p.proxyReq], []⟩ (p.onRead B (.ok upstream)))
        simp only [HttpProxy.onRead]
        split
        · exact .closing rfl
        · have hfinish := @handle_finish B p upstream k hk [p.proxyReq]
          exact hfinish ▸ .answered rfl
    | _ => cases List.mem_singleton.mp he
  | @closing upstream hresult =>
    cases r with
    | shutdown ec =>
      subst hresult
      have hfinish := @handle_finish B p upstream k hk [p.proxyReq]
      exact hfinish ▸ .answered rfl
    | _ => cases List.mem_singleton.mp he
  | answered => exact absurd he List.not_mem_nil

/-- An exchange in which nothing fails stays in its stages. -/
theorem Stage.run {k : Nat} (hk : p.onResponse = some k) {x y : HttpExchange} {rs : List ProxyResult}
    (hrun : (machine B).Run x rs y) (hrs : ∀ r ∈ rs, Succeeds result r) (h : Stage B p result x) :
    Stage B p result y := by
  refine (hrun.to_restrict hrs).invariant (I := Stage B p result) ?_ h
  rintro x r y hx ⟨he, hr⟩ hs
  obtain rfl := Except.ok.inj hs
  exact hx.step hk he hr

theorem Stage.ended {x : HttpExchange} (h : Stage B p result x) (hp : x.pending = []) :
    x.written = [p.proxyReq] ∧ x.delivered = [answer B p result] ∧ x.proxy.hostHeader = p.hostHeader := by
  cases h with
  | answered hq => exact ⟨rfl, rfl, hq⟩
  | _ => cases hp

/-- What an operation completes with when it succeeds. -/
def success (result : Except String UpstreamResponse) : ProxyOp → ProxyResult
  | .resolve => .resolve none true
  | .connect => .connect none
  | .handshake => .handshake none
  | .write => .write none
  | .read => .read result
  | .shutdown => .shutdown none

theorem success_op (op : ProxyOp) : (success result op).op = op := by
  cases op <;> rfl

theorem success_succeeds (op : ProxyOp) : Succeeds result (success result op) := by
  cases op with
  | resolve => exact ⟨rfl, rfl⟩
  | shutdown => trivial
  | _ => rfl

/-- An exchange comes to its end when its operations complete. -/
theorem finishes (result : Except String UpstreamResponse) {k n : Nat} {x : HttpExchange} {op : ProxyOp}
    (hp : x.pending = [op]) (hk : x.proxy.onResponse = some k) (hn : op.left ≤ n) :
    ∃ rs y, (machine B).Run x rs y ∧ (∀ r ∈ rs, Succeeds result r) ∧ y.pending = [] := by
  induction n generalizing x op with
  | zero => cases op <;> exact absurd hn (by decide)
  | succ n ih =>
    obtain ⟨proxy, pending, written, delivered⟩ := x
    obtain rfl : pending = [op] := hp
    have hop : (success result op).op = op := success_op op
    have he : (machine B).enabled ⟨proxy, [op], written, delivered⟩ (success result op) := by
      change (success result op).op ∈ [op]
      rw [hop]
      exact List.mem_singleton_self op
    have hs : (machine B).step ⟨proxy, [op], written, delivered⟩ (success result op) =
        .ok (handle ⟨proxy, [], written, delivered⟩ (proxy.complete B (success result op))) := by
      simp only [machine, hop, List.erase_cons_head]
    have ha := HttpProxy.complete_advanced (B := B) hk (success result op)
    rw [hop] at ha
    have hfirst : Succeeds result (success result op) := success_succeeds op
    cases hhandled : proxy.complete B (success result op) with
    | mk q effects =>
      rw [hhandled] at ha hs
      cases ha with
      | @waits q next hnext hlt =>
        have hpending : (handle ⟨proxy, [], written, delivered⟩ (q, [.start next])).pending = [next] := rfl
        obtain ⟨rs, y, hrun, hrs, hend⟩ := ih hpending hnext (by omega)
        exact ⟨_, y, .cons he hs hrun, List.forall_mem_cons.mpr ⟨hfirst, hrs⟩, hend⟩
      | answers => exact ⟨_, _, .single he hs, List.forall_mem_singleton.mpr hfirst, rfl⟩

end Stages

/-! ## The beginning -/

section Beginning

variable {B : Beast} {url : String} {req : HttpRequest} {request : Nat}

/-- The proxy that is about to look at its URL. -/
def asked (B : Beast) (url : String) (req : HttpRequest) (request : Nat) : HttpProxy where
  uiRemoteUrl := url
  reqVersion := req.version
  keepAlive := B.keepAlive req.version req.fields
  onResponse := some request

/-- The number of the request does not matter to the URL. -/
theorem asked_parseUrl_isSome (B : Beast) (url : String) (req : HttpRequest) (request : Nat) :
    ((asked B url req request).parseUrl url).isSome = (parseUrl { uiRemoteUrl := url } url).isSome := by
  unfold parseUrl
  split
  · rfl
  · split <;> rfl

theorem begun_refused (h : (asked B url req request).parseUrl url = none) :
    ∃ x, begun B url req request = .ok x ∧ x.pending = [] ∧ x.written = [] := by
  refine ⟨handle ⟨{ uiRemoteUrl := url }, [], [], []⟩
    ((asked B url req request).sendErrorResponse B "Invalid proxy URL"), ?_, rfl, rfl⟩
  have hrefused : asyncHandleRequest B { uiRemoteUrl := url } req request =
      .ok ((asked B url req request).sendErrorResponse B "Invalid proxy URL") := by
    unfold asyncHandleRequest
    have hnone : (asked B url req request).parseUrl (asked B url req request).uiRemoteUrl = none := h
    simp only [asked] at hnone ⊢
    rw [hnone]
  rw [begun, hrefused]
  rfl

theorem begun_accepted {p : HttpProxy} (h : (asked B url req request).parseUrl url = some p) :
    begun B url req request =
      (p.upstreamRequest B req).map fun m => ⟨{ p with proxyReq := m }, [.resolve], [], []⟩ := by
  have haccepted : asyncHandleRequest B { uiRemoteUrl := url } req request =
      (p.upstreamRequest B req).map fun m => ({ p with proxyReq := m }, [.start .resolve]) := by
    unfold asyncHandleRequest
    have hsome : (asked B url req request).parseUrl (asked B url req request).uiRemoteUrl = some p := h
    simp only [asked] at hsome ⊢
    rw [hsome]
  rw [begun, haccepted]
  cases p.upstreamRequest B req <;> rfl

/-- Where an exchange ends, with the proxy that its URL has made and the request that
the proxy has built. -/
theorem Exchanged.cases {result : Except String UpstreamResponse} {x : HttpExchange}
    (h : Exchanged B url req result x) :
    ((parseUrl { uiRemoteUrl := url } url).isSome = false ∧ x.written = []) ∨
      ∃ (p : HttpProxy) (m : HttpRequest), (parseUrl { uiRemoteUrl := url } url).isSome = true ∧
        p.upstreamRequest B req = .ok m ∧ x.written = [m] ∧
        x.delivered = [answer B { p with proxyReq := m } result] ∧
        x.proxy.hostHeader = p.hostHeader := by
  obtain ⟨request, x₀, rs, hbegun, hrun, hrs, hend⟩ := h
  rw [← asked_parseUrl_isSome B url req request]
  cases hp : (asked B url req request).parseUrl url with
  | none =>
    obtain ⟨x₁, hbegun₁, hpending, hwritten⟩ := begun_refused hp
    obtain rfl := Except.ok.inj (hbegun₁.symm.trans hbegun)
    cases hrun with
    | nil => exact .inl ⟨rfl, hwritten⟩
    | cons he =>
      have he : _ ∈ x₁.pending := he
      rw [hpending] at he
      exact absurd he List.not_mem_nil
  | some p =>
    rw [begun_accepted hp] at hbegun
    obtain ⟨m, hm, rfl⟩ := Machine.map_eq_ok hbegun
    have hk : { p with proxyReq := m }.onResponse = some request := HttpProxy.parseUrl_onResponse hp
    have hstage : Stage B { p with proxyReq := m } result ⟨{ p with proxyReq := m }, [.resolve], [], []⟩ :=
      .opening (.inl rfl)
    exact .inr ⟨p, m, rfl, hm, (Stage.run hk hrun hrs hstage).ended hend⟩

/-- Whatever is read of the upstream server, a request that has begun comes to its end. -/
theorem exchanged_of_begun {x₀ : HttpExchange} (h : begun B url req request = .ok x₀)
    (result : Except String UpstreamResponse) : ∃ x, Exchanged B url req result x := by
  cases hp : (asked B url req request).parseUrl url with
  | none =>
    obtain ⟨x, hbegun, hpending, -⟩ := begun_refused hp
    exact ⟨x, request, x, [], hbegun, .nil x, by simp, hpending⟩
  | some p =>
    have hbegun := h
    rw [begun_accepted hp] at hbegun
    obtain ⟨m, -, rfl⟩ := Machine.map_eq_ok hbegun
    have hk : p.onResponse = some request := HttpProxy.parseUrl_onResponse hp
    obtain ⟨rs, x, hrun, hrs, hend⟩ := finishes (B := B) result
      (x := ⟨{ p with proxyReq := m }, [.resolve], [], []⟩) rfl hk (Nat.le_refl _)
    exact ⟨x, request, _, rs, h, hrun, hrs, hend⟩

end Beginning

/-! ## The condition -/

/-- The request has a method of Beast's, no body if that is `TRACE`, and fields that can
be copied. -/
structure RequestCopyable (B : Beast) (req : HttpRequest) : Prop where
  method : B.methodText req.method = req.method
  builds : req.method = "TRACE" → req.body = ""
  fields : B.Copyable requestExcluded req.fields

/-- The reader takes the response to a request with the method, whose body is within its
limit, whose status is one of Beast's, and whose fields can be copied. -/
structure ResponseCopyable (B : Beast) (method : String) (upstream : UpstreamResponse) : Prop where
  takes : B.takes method upstream.toHttpResponse = true
  size : upstream.body.length ≤ Beast.bodyLimit
  status : B.result upstream.status = upstream.status
  fields : B.Copyable responseExcluded upstream.fields

section Condition

variable {B : Beast} {url : String} {req : HttpRequest} {upstream : UpstreamResponse}

theorem reads_error (htakes : B.takes req.method upstream.toHttpResponse = false) (message : String) :
    B.Reads req.method upstream (.error message) := by
  rw [Beast.Reads, htakes]
  exact ⟨message, rfl⟩

theorem reads_large (htakes : B.takes req.method upstream.toHttpResponse = true)
    (hsize : Beast.bodyLimit < upstream.body.length) :
    B.Reads req.method upstream (.error "body limit exceeded") := by
  rw [Beast.Reads, htakes, if_pos rfl, if_pos hsize]

theorem reads_iff (htakes : B.takes req.method upstream.toHttpResponse = true)
    (hsize : upstream.body.length ≤ Beast.bodyLimit) {result : Except String UpstreamResponse} :
    B.Reads req.method upstream result ↔ result = .ok upstream := by
  rw [Beast.Reads, htakes, if_pos rfl, if_neg (Nat.not_lt.mpr hsize)]

/-- What the answer to a reading that fails says is no upstream response of its own
length. -/
theorem not_forwarded_error {p : HttpProxy} {message : String}
    (hlength : upstream.body.length ≠ message.length + 25) :
    ¬ ResponseForwarded B.toFieldTable upstream.toHttpResponse (answer B p (.error message)) := by
  intro h
  have hbody : "Proxy Error: " ++ ("Read error: " ++ message) = upstream.body := h.body
  have hsame := congrArg String.length hbody
  rw [String.length_append, String.length_append] at hsame
  have hfirst : "Proxy Error: ".length = 13 := by decide
  have hsecond : "Read error: ".length = 12 := by decide
  omega

theorem Forwarded.request (h : Forwarded B url req upstream) :
    (parseUrl { uiRemoteUrl := url } url).isSome = true ∧ RequestCopyable B req := by
  obtain ⟨⟨result, x, hreads, hx⟩, hall⟩ := h
  obtain ⟨m, res, hwritten, -, hrequest, -⟩ := hall result x hreads hx
  rcases hx.cases with ⟨-, hnone⟩ | ⟨p, m', hurl, hm, hwritten', -, hhost⟩
  · rw [hnone] at hwritten
    cases hwritten
  · obtain rfl : m' = m := (List.cons.inj (hwritten'.symm.trans hwritten)).1
    rw [hhost] at hrequest
    obtain ⟨hmethod, hfields⟩ := (HttpProxy.upstreamRequest_iff B p hm).mp hrequest
    obtain ⟨hbuilds, -⟩ := Beast.preparePayload_ok_iff.mp hm
    exact ⟨hurl, hmethod, fun htrace => hbuilds (hmethod.trans htrace), hfields⟩

/-- Every reading that can be, can be delivered. -/
theorem Forwarded.delivers (h : Forwarded B url req upstream) {result : Except String UpstreamResponse}
    (hreads : B.Reads req.method upstream result) :
    ∃ p, ResponseForwarded B.toFieldTable upstream.toHttpResponse (answer B p result) := by
  obtain ⟨⟨_, _, -, _, x₀, _, hbegun, -⟩, hall⟩ := h
  obtain ⟨x, hx⟩ := exchanged_of_begun hbegun result
  obtain ⟨m, res, hwritten, hdelivered, -, hresponse⟩ := hall result x hreads hx
  rcases hx.cases with ⟨-, hnone⟩ | ⟨p, m', -, -, -, hdelivered', -⟩
  · rw [hnone] at hwritten
    cases hwritten
  · obtain rfl : answer B { p with proxyReq := m' } result = res :=
      (List.cons.inj (hdelivered'.symm.trans hdelivered)).1
    exact ⟨_, hresponse⟩

theorem Forwarded.response (h : Forwarded B url req upstream) : ResponseCopyable B req.method upstream := by
  have htakes : B.takes req.method upstream.toHttpResponse = true := by
    by_contra hno
    obtain ⟨p, hp⟩ := h.delivers (reads_error (by simpa using hno) upstream.body)
    exact not_forwarded_error (by omega) hp
  have hsize : upstream.body.length ≤ Beast.bodyLimit := by
    by_contra hlarge
    have hlarge : Beast.bodyLimit < upstream.body.length := by omega
    obtain ⟨p, hp⟩ := h.delivers (reads_large htakes hlarge)
    refine not_forwarded_error ?_ hp
    have hmessage : "body limit exceeded".length = 19 := by decide
    rw [hmessage]
    have hlimit : Beast.bodyLimit = 8388608 := rfl
    omega
  obtain ⟨p, hp⟩ := h.delivers ((reads_iff htakes hsize).mpr rfl)
  have hlimit : upstream.body.length ≤ HttpProxy.kMaxProxyResponseSize :=
    Nat.le_trans hsize (by decide)
  obtain ⟨hstatus, hfields⟩ :=
    (HttpProxy.downstreamResponse_iff B { p with proxyRes := upstream } hlimit).mp hp
  exact ⟨htakes, hsize, hstatus, hfields⟩

theorem forwarded_of_copyable (hurl : (parseUrl { uiRemoteUrl := url } url).isSome = true)
    (hrequest : RequestCopyable B req) (hresponse : ResponseCopyable B req.method upstream) :
    Forwarded B url req upstream := by
  have hasked : ((asked B url req 0).parseUrl url).isSome = true :=
    (asked_parseUrl_isSome B url req 0).trans hurl
  obtain ⟨p, hp⟩ := Option.isSome_iff_exists.mp hasked
  have hreads := @reads_iff B req upstream hresponse.takes hresponse.size
  have hbuilt : p.upstreamRequest B req = .ok _ := Beast.preparePayload_ok_iff.mpr
    ⟨fun htrace => hrequest.builds (hrequest.method.symm.trans htrace), rfl⟩
  have hbegun := begun_accepted hp
  rw [hbuilt] at hbegun
  obtain ⟨x, hx⟩ := exchanged_of_begun hbegun (.ok upstream)
  refine ⟨⟨_, x, hreads.mpr rfl, hx⟩, fun result y hresult hy => ?_⟩
  obtain rfl := hreads.mp hresult
  rcases hy.cases with ⟨hrefused, -⟩ | ⟨q, m, -, hm, hwritten, hdelivered, hhost⟩
  · rw [hurl] at hrefused
    cases hrefused
  · refine ⟨m, _, hwritten, hdelivered, ?_, ?_⟩
    · rw [hhost]
      exact (HttpProxy.upstreamRequest_iff B q hm).mpr ⟨hrequest.method, hrequest.fields⟩
    · have hlimit : upstream.body.length ≤ HttpProxy.kMaxProxyResponseSize :=
        Nat.le_trans hresponse.size (by decide)
      exact (HttpProxy.downstreamResponse_iff B { q with proxyReq := m, proxyRes := upstream } hlimit).mpr
        ⟨hresponse.status, hresponse.fields⟩

end Condition

/-- The proxy forwards a request and the response to it unchanged exactly when it
accepts its URL, the table of names spells the fields of both as they come and no field
comes twice, the method and the status are Beast's, a `TRACE` has no body, and the
reader takes the response and its body. -/
theorem messages_forwarded_iff (B : Beast) (url : String) (req : HttpRequest) (upstream : UpstreamResponse) :
    Forwarded B url req upstream ↔ (parseUrl { uiRemoteUrl := url } url).isSome = true ∧
      RequestCopyable B req ∧ ResponseCopyable B req.method upstream :=
  ⟨fun h => ⟨h.request.1, h.request.2, h.response⟩,
    fun ⟨hurl, hrequest, hresponse⟩ => forwarded_of_copyable hurl hrequest hresponse⟩

/-- The response to a request for a page. -/
def page (fields : List HeaderField) : UpstreamResponse where
  toHttpResponse := ⟨200, 11, fields, "OK"⟩
  preparable h := absurd h (by decide : ¬ HttpResponse.bodiless 200 = true)

theorem messages_forwarded_page : Forwarded Beast.sample "http://example.com:8080/ui"
    ⟨"GET", "/", 11, [⟨"Host", "localhost"⟩, ⟨"Accept", "text/html"⟩], ""⟩ (page [⟨"Set-Cookie", "a=1"⟩]) :=
  (messages_forwarded_iff _ _ _ _).mpr ⟨by decide, ⟨by decide, by decide, ⟨by decide, by decide⟩⟩,
    ⟨by decide, by decide, by decide, ⟨by decide, by decide⟩⟩⟩

/-- A name outside the table loses its spelling on the way to the upstream server, and a
field that comes twice its first value on the way back. -/
theorem messages_not_forwarded :
    ¬ Forwarded Beast.sample "http://example.com:8080/ui"
        ⟨"GET", "/", 11, [⟨"Host", "localhost"⟩, ⟨"X-Trace", "1"⟩], ""⟩ (page []) ∧
      ¬ Forwarded Beast.sample "http://example.com:8080/ui"
        ⟨"GET", "/", 11, [⟨"Host", "localhost"⟩], ""⟩
        (page [⟨"Set-Cookie", "a=1"⟩, ⟨"Set-Cookie", "b=2"⟩]) := by
  constructor
  · intro h
    exact absurd (h.request.2.fields.spelled ⟨"X-Trace", "1"⟩ (by decide)) (by decide)
  · intro h
    exact absurd h.response.fields.single (by decide)

end HttpExchange
