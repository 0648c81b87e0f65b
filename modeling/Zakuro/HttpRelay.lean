import Zakuro.HttpAnswers
import Zakuro.HttpExchange

/-!
# The exchanges of a session

A session hands the requests that it does not answer itself to proxies, one each. The
handlers of a proxy, taken out of a run of the session, are a run of one exchange, and
the session shows that exchange: the proxy, its pending operations, and the responses
that the callback of the request has been given.
-/

namespace HttpSession

/-- The session does not answer the request itself if it has a proxy URL. -/
def isProxied (req : HttpRequest) : Bool :=
  !(decide (req.target = "/.ok" ∧ req.method = "GET") || decide (req.target = "/rpc" ∧ req.method = "POST"))

/-- The number of the proxy of a request. -/
def turn (log : List HttpEvent) (n : Nat) : Nat := ((requests log).take n).countP isProxied

def result (k : Nat) : Completion → Option ProxyResult
  | .proxy i r => if i = k then some r else none
  | _ => none

/-- What the operations of a proxy have completed with. -/
def results (k : Nat) (es : List Completion) : List ProxyResult := es.filterMap (result k)

def operation (k : Nat) : SessionOp → Option ProxyOp
  | .proxy i op => if i = k then some op else none
  | _ => none

/-- The pending operations of a proxy. -/
def operations (k : Nat) (pending : List SessionOp) : List ProxyOp := pending.filterMap (operation k)

def response (n : Nat) : HttpEvent → Option HttpResponse
  | .answered m res => if m = n then some res else none
  | _ => none

/-- The responses that the callback of a request has been given. -/
def responses (n : Nat) (log : List HttpEvent) : List HttpResponse := log.filterMap (response n)

/-! ## What the session shows -/

/-- The session shows the exchange of the request `n` in its proxy `k`. -/
structure Shows (s : HttpSession) (k n : Nat) (x : HttpExchange) : Prop where
  proxy : s.proxies[k]? = some x.proxy
  pending : operations k s.pending = x.pending
  delivered : responses n s.log = x.delivered

/-- The proxy `k` and the callback of the request `n` are left as they are. -/
structure Beside (k n : Nat) (s t : HttpSession) : Prop where
  proxy : t.proxies[k]? = s.proxies[k]?
  pending : operations k t.pending = operations k s.pending
  delivered : responses n t.log = responses n s.log

theorem Beside.trans {k n : Nat} {s t u : HttpSession} (h : Beside k n s t) (h' : Beside k n t u) :
    Beside k n s u :=
  ⟨h'.proxy.trans h.proxy, h'.pending.trans h.pending, h'.delivered.trans h.delivered⟩

theorem Shows.beside {s t : HttpSession} {k n : Nat} {x : HttpExchange} (h : Shows s k n x)
    (hst : Beside k n s t) : Shows t k n x :=
  ⟨hst.proxy.trans h.proxy, hst.pending.trans h.pending, hst.delivered.trans h.delivered⟩

theorem results_snoc (k : Nat) (es : List Completion) (c : Completion) :
    results k (es ++ [c]) = results k es ++ (result k c).toList :=
  Replay.filterMap_snoc _ es c

/-- What an operation that begins adds to what is pending of a proxy. -/
theorem operations_snoc (k : Nat) (pending : List SessionOp) (op : SessionOp) :
    operations k (pending ++ [op]) = operations k pending ++ (operation k op).toList :=
  Replay.filterMap_snoc _ pending op

theorem responses_snoc (n : Nat) (log : List HttpEvent) (event : HttpEvent) :
    responses n (log ++ [event]) = responses n log ++ (response n event).toList :=
  Replay.filterMap_snoc _ log event

/-- What a handler of the proxy does to the session, it does to the exchange. -/
theorem Shows.performed {s : HttpSession} {k n : Nat} {x : HttpExchange} (h : Shows s k n x)
    {effect : ProxyEffect} (hcall : ∀ m res, effect = .call m res → m = n) :
    Shows (perform k s effect) k n (x.perform effect) := by
  cases effect with
  | start op =>
    refine ⟨h.proxy, (operations_snoc k _ _).trans ?_, h.delivered⟩
    rw [operation, if_pos rfl, h.pending]
    rfl
  | call m res =>
    obtain rfl := hcall m res rfl
    refine ⟨h.proxy, (operations_snoc k _ _).trans ?_, (responses_snoc m _ _).trans ?_⟩
    · exact (List.append_nil _).trans h.pending
    · rw [response, if_pos rfl, h.delivered]
      rfl

theorem Shows.foldl {s : HttpSession} {k n : Nat} {x : HttpExchange} (h : Shows s k n x)
    {effects : List ProxyEffect} (hcall : ∀ m res, .call m res ∈ effects → m = n) :
    Shows (effects.foldl (perform k) s) k n (effects.foldl HttpExchange.perform x) := by
  induction effects generalizing s x with
  | nil => exact h
  | cons effect effects ih =>
    refine ih (h.performed fun m res he => hcall m res (he ▸ List.mem_cons_self)) ?_
    exact fun m res he => hcall m res (List.mem_cons_of_mem _ he)

/-- What a handler of another proxy does is done beside. -/
theorem perform_beside {k n i : Nat} (s : HttpSession) (hi : i ≠ k) {effect : ProxyEffect}
    (hcall : ∀ m res, effect = .call m res → m ≠ n) : Beside k n s (s.perform i effect) := by
  cases effect with
  | start op =>
    refine ⟨rfl, (operations_snoc k _ _).trans ?_, rfl⟩
    rw [operation, if_neg hi]
    exact List.append_nil _
  | call m res =>
    refine ⟨rfl, (operations_snoc k _ _).trans (List.append_nil _), (responses_snoc n _ _).trans ?_⟩
    rw [response, if_neg (hcall m res rfl)]
    exact List.append_nil _

theorem foldl_beside {k n i : Nat} (s : HttpSession) (hi : i ≠ k) {effects : List ProxyEffect}
    (hcall : ∀ m res, .call m res ∈ effects → m ≠ n) : Beside k n s (effects.foldl (perform i) s) := by
  induction effects generalizing s with
  | nil => exact ⟨rfl, rfl, rfl⟩
  | cons effect effects ih =>
    have hfirst := perform_beside (k := k) (n := n) s hi
      fun m res he => hcall m res (he ▸ List.mem_cons_self)
    exact hfirst.trans (ih _ fun m res he => hcall m res (List.mem_cons_of_mem _ he))

theorem foldl_same (effects : List ProxyEffect) (i : Nat) (s : HttpSession) :
    (effects.foldl (perform i) s).uiRemoteUrl = s.uiRemoteUrl ∧
      (effects.foldl (perform i) s).proxies = s.proxies ∧
      requests (effects.foldl (perform i) s).log = requests s.log := by
  induction effects generalizing s with
  | nil => exact ⟨rfl, rfl, rfl⟩
  | cons effect effects ih =>
    obtain ⟨hurl, hproxies, hrequests⟩ := ih (perform i s effect)
    cases effect with
    | start op => exact ⟨hurl, hproxies, hrequests⟩
    | call m res =>
      refine ⟨hurl, hproxies, hrequests.trans ?_⟩
      exact (Replay.filterMap_snoc _ s.log _).trans (List.append_nil _)

theorem responses_nil {n : Nat} {log : List HttpEvent} (h : n ∉ answers log) : responses n log = [] := by
  refine List.filterMap_eq_nil_iff.mpr fun event hevent => ?_
  cases event with
  | answered m res =>
    refine if_neg fun hm => h ?_
    exact List.mem_filterMap.mpr ⟨_, hevent, congrArg some hm⟩
  | _ => rfl

/-! ## The proxies of the requests -/

theorem getElem?_snoc {α : Type} {l : List α} {a b : α} {n : Nat} (h : (l ++ [a])[n]? = some b) :
    n < l.length ∧ l[n]? = some b ∨ n = l.length ∧ b = a := by
  rcases Nat.lt_or_ge n l.length with hlt | hge
  · rw [List.getElem?_append_left hlt] at h
    exact .inl ⟨hlt, h⟩
  · rw [List.getElem?_append_right hge, List.getElem?_singleton] at h
    split at h
    next hzero => exact .inr ⟨by omega, (Option.some.inj h).symm⟩
    next => cases h

theorem turn_append {log log' : List HttpEvent} {more : List HttpRequest}
    (h : requests log' = requests log ++ more) {n : Nat} (hn : n ≤ (requests log).length) :
    turn log' n = turn log n := by
  rw [turn, turn, h, List.take_append_of_le_length hn]

theorem turn_lt {log : List HttpEvent} {n m : Nat} {req : HttpRequest} (hreq : (requests log)[n]? = some req)
    (hproxied : isProxied req = true) (hnm : n < m) : turn log n < turn log m := by
  have hle : turn log (n + 1) ≤ turn log m :=
    (List.take_sublist_take_left hnm).countP_le
  have hone : turn log (n + 1) = turn log n + 1 := by
    rw [turn, List.take_add_one, hreq, List.countP_append]
    simp [turn, hproxied]
  omega

theorem turn_lt_count {log : List HttpEvent} {n : Nat} {req : HttpRequest}
    (hreq : (requests log)[n]? = some req) (hproxied : isProxied req = true) :
    turn log n < (requests log).countP isProxied := by
  have h := turn_lt hreq hproxied (List.getElem?_eq_some_iff.mp hreq).1
  rwa [turn, turn, List.take_length] at h

theorem turn_inj {log : List HttpEvent} {n m : Nat} {req req' : HttpRequest}
    (hn : (requests log)[n]? = some req) (hreq : isProxied req = true) (hm : (requests log)[m]? = some req')
    (hreq' : isProxied req' = true) (h : turn log n = turn log m) : n = m := by
  rcases Nat.lt_trichotomy n m with hlt | heq | hgt
  · exact absurd h (Nat.ne_of_lt (turn_lt hn hreq hlt))
  · exact heq
  · exact absurd h (Nat.ne_of_gt (turn_lt hm hreq' hgt))

/-- The proxy `i` is the one of the request `n`. -/
def Numbered (log : List HttpEvent) (i n : Nat) : Prop :=
  i = turn log n ∧ ∃ req, (requests log)[n]? = some req ∧ isProxied req = true

theorem Numbered.append {log log' : List HttpEvent} {i n : Nat} (h : Numbered log i n)
    {more : List HttpRequest} (hmore : requests log' = requests log ++ more) : Numbered log' i n := by
  obtain ⟨hi, req, hreq, hproxied⟩ := h
  have hn := (List.getElem?_eq_some_iff.mp hreq).1
  refine ⟨hi.trans (turn_append hmore (Nat.le_of_lt hn)).symm, req, ?_, hproxied⟩
  rw [hmore, List.getElem?_append_left hn, hreq]

/-! ## The run -/

section Run

variable {B : Beast} {rpc : HttpRequest → HttpResponse} {url : String} {es : List Completion}
  {s t : HttpSession} {c : Completion}

variable (B) in
/-- The request `n` has gone through an exchange, which the session shows. -/
def Relayed (url : String) (es : List Completion) (s : HttpSession) (n : Nat) (req : HttpRequest) : Prop :=
  ∃ x₀ x, HttpExchange.begun B url req n = .ok x₀ ∧
    (HttpExchange.machine B).Run x₀ (results (turn s.log n) es) x ∧ Shows s (turn s.log n) n x

variable (B) in
structure Relays (url : String) (es : List Completion) (s : HttpSession) : Prop where
  remote : s.uiRemoteUrl = some url
  count : s.proxies.length = (requests s.log).countP isProxied
  numbered : ∀ i p n, s.proxies[i]? = some p → p.onResponse = some n → Numbered s.log i n
  fresh : ∀ k, s.proxies.length ≤ k → results k es = []
  relayed : ∀ n req, (requests s.log)[n]? = some req → isProxied req = true → Relayed B url es s n req

theorem Relays.turn_length (h : Relays B url es s) : turn s.log (requests s.log).length = s.proxies.length := by
  rw [h.count, turn, List.take_length]

/-- A request whose proxy and callback are left as they are is relayed as before. -/
theorem Relays.beside (h : Relays B url es s) {more : List HttpRequest}
    (hrequests : requests t.log = requests s.log ++ more) {n : Nat} {req : HttpRequest}
    (hreq : (requests s.log)[n]? = some req) (hproxied : isProxied req = true)
    (hresult : result (turn s.log n) c = none) (hbeside : Beside (turn s.log n) n s t) :
    Relayed B url (es ++ [c]) t n req := by
  obtain ⟨x₀, x, hbegun, hrun, hshows⟩ := h.relayed n req hreq hproxied
  have hn := (List.getElem?_eq_some_iff.mp hreq).1
  have hturn : turn t.log n = turn s.log n := turn_append hrequests (Nat.le_of_lt hn)
  refine ⟨x₀, x, hbegun, ?_, ?_⟩
  · rw [hturn, results_snoc, hresult]
    simpa using hrun
  · rw [hturn]
    exact hshows.beside hbeside

/-- A handler that asks no proxy and gives nothing to the callback of an earlier request. -/
theorem Relays.other (h : Relays B url es s) (log : List HttpEvent) (hlog : t.log = s.log ++ log)
    (hurl : t.uiRemoteUrl = s.uiRemoteUrl) (hproxies : t.proxies = s.proxies)
    (hpending : ∀ k, operations k t.pending = operations k s.pending)
    (hrequests : (requests log).countP isProxied = 0)
    (hresponses : ∀ n < (requests s.log).length, responses n log = [])
    (hresult : ∀ k, result k c = none) : Relays B url (es ++ [c]) t := by
  have hmore : requests t.log = requests s.log ++ requests log := by
    rw [hlog, requests, List.filterMap_append]
    rfl
  refine ⟨hurl.trans h.remote, ?_, fun i p n hi hp => ?_, fun k hk => ?_, fun n req hreq hproxied => ?_⟩
  · rw [hproxies, h.count, hmore, List.countP_append, hrequests]
    rfl
  · rw [hproxies] at hi
    exact (h.numbered i p n hi hp).append hmore
  · rw [hproxies] at hk
    rw [results_snoc, h.fresh k hk, hresult]
    rfl
  · rw [hmore] at hreq
    rcases Nat.lt_or_ge n (requests s.log).length with hn | hn
    · rw [List.getElem?_append_left hn] at hreq
      refine h.beside hmore hreq hproxied (hresult _) ⟨by rw [hproxies], hpending _, ?_⟩
      have hnone : log.filterMap (response n) = [] := hresponses n hn
      rw [hlog, responses, List.filterMap_append, hnone, List.append_nil]
      rfl
    · rw [List.getElem?_append_right hn] at hreq
      have hmem := List.mem_of_getElem? hreq
      exact absurd hproxied (List.countP_eq_zero.mp hrequests req hmem)

/-- A request has come in, and there is a proxy for it. -/
def taken (s : HttpSession) (req : HttpRequest) (p : HttpProxy) : HttpSession :=
  { s.emit (.request req) with proxies := s.proxies ++ [p] }

theorem taken_requests (s : HttpSession) (req : HttpRequest) (p : HttpProxy) :
    requests (s.taken req p).log = requests s.log ++ [req] :=
  Replay.filterMap_snoc _ s.log _

theorem taken_responses (s : HttpSession) (req : HttpRequest) (p : HttpProxy) (n : Nat) :
    responses n (s.taken req p).log = responses n s.log :=
  (Replay.filterMap_snoc _ s.log _).trans (List.append_nil _)

/-- The session makes a proxy for a request. -/
theorem Relays.asked (h : Relays B url es s) (hpending : s.pending = []) {req : HttpRequest}
    (hproxied : isProxied req = true) (hnone : responses (requests s.log).length s.log = [])
    {handled : HttpProxy × List ProxyEffect}
    (hhandled : HttpProxy.asyncHandleRequest B { uiRemoteUrl := url } req (requests s.log).length = .ok handled)
    (hresult : ∀ k, result k c = none) :
    Relays B url (es ++ [c]) (handled.2.foldl (perform s.proxies.length) (s.taken req handled.1)) := by
  have hadvanced := HttpProxy.asyncHandleRequest_advanced hhandled
  have hcall : ∀ m res, .call m res ∈ handled.2 → m = (requests s.log).length :=
    fun m res hm => hadvanced.call hm
  obtain ⟨hurl, hproxies, hlog⟩ := foldl_same handled.2 s.proxies.length (s.taken req handled.1)
  have hproxies : _ = s.proxies ++ [handled.1] := hproxies
  have hmore := hlog.trans (s.taken_requests req handled.1)
  have hlast := (turn_append hmore (Nat.le_refl _)).trans (h.turn_length)
  refine ⟨hurl.trans h.remote, ?_, fun i p n hi hp => ?_, fun k hk => ?_, fun n req' hreq hproxied' => ?_⟩
  · rw [hproxies, hmore, List.countP_append, List.length_append, h.count]
    simp [hproxied]
  · rw [hproxies] at hi
    rcases getElem?_snoc hi with ⟨-, hi⟩ | ⟨rfl, rfl⟩
    · exact (h.numbered i p n hi hp).append hmore
    · obtain rfl := hadvanced.onResponse hp
      exact ⟨hlast.symm, req, by rw [hmore, List.getElem?_concat_length], hproxied⟩
  · rw [hproxies, List.length_append] at hk
    rw [results_snoc, h.fresh k (by omega), hresult]
    rfl
  · rw [hmore] at hreq
    rcases getElem?_snoc hreq with ⟨hn, hreq⟩ | ⟨rfl, rfl⟩
    · have hk : turn s.log n < s.proxies.length := h.count ▸ turn_lt_count hreq hproxied'
      refine h.beside hmore hreq hproxied' (hresult _) (Beside.trans ?_ (foldl_beside _ (by omega) ?_))
      · exact ⟨List.getElem?_append_left hk, rfl, s.taken_responses req handled.1 n⟩
      · intro m res hm
        rw [hcall m res hm]
        omega
    · have hbegun : HttpExchange.begun B url req' (requests s.log).length =
          .ok (HttpExchange.handle ⟨{ uiRemoteUrl := url }, [], [], []⟩ handled) := by
        rw [HttpExchange.begun, hhandled]
        rfl
      refine ⟨_, HttpExchange.handle ⟨{ uiRemoteUrl := url }, [], [], []⟩ handled, hbegun, ?_, ?_⟩
      · rw [hlast, results_snoc, h.fresh _ (Nat.le_refl _), hresult]
        exact .nil _
      · rw [hlast]
        refine Shows.foldl ⟨List.getElem?_concat_length, ?_, ?_⟩ hcall
        · change operations _ s.pending = _
          rw [hpending]
          rfl
        · rw [taken_responses, hnone]

/-- A session behind a handler of its proxy `i`. -/
def handled (B : Beast) (s : HttpSession) (i : Nat) (p : HttpProxy) (r : ProxyResult) : HttpSession :=
  (p.complete B r).2.foldl (perform i) { s with pending := [], proxies := s.proxies.set i (p.complete B r).1 }

/-- The handler is the next one of the exchange that the session shows. -/
theorem Shows.handled {k n : Nat} {x : HttpExchange} (h : Shows s k n x) {p : HttpProxy} {r : ProxyResult}
    (hpending : s.pending = [.proxy k r.op]) (hk : s.proxies[k]? = some p)
    (hcall : ∀ m res, .call m res ∈ (p.complete B r).2 → m = n) :
    ∃ y, (HttpExchange.machine B).Run x [r] y ∧ Shows (s.handled B k p r) k n y := by
  obtain rfl : p = x.proxy := Option.some.inj (hk.symm.trans h.proxy)
  have hx : x.pending = [r.op] := by
    rw [← h.pending, hpending]
    simp [operations, operation]
  have he : (HttpExchange.machine B).enabled x r := by
    change r.op ∈ x.pending
    rw [hx]
    exact List.mem_singleton_self _
  have hfirst : Shows { s with pending := [], proxies := s.proxies.set k (x.proxy.complete B r).1 } k n
      { x with proxy := (x.proxy.complete B r).1, pending := x.pending.erase r.op } := by
    refine ⟨List.getElem?_set_self (List.getElem?_eq_some_iff.mp hk).1, ?_, h.delivered⟩
    rw [hx, List.erase_cons_head]
    rfl
  exact ⟨_, .single he rfl, hfirst.foldl hcall⟩

theorem handled_beside {k n i : Nat} {p : HttpProxy} {r : ProxyResult} (hpending : s.pending = [.proxy i r.op])
    (hi : i ≠ k) (hcall : ∀ m res, .call m res ∈ (p.complete B r).2 → m ≠ n) :
    Beside k n s (s.handled B i p r) := by
  have hfirst : Beside k n s { s with pending := [], proxies := s.proxies.set i (p.complete B r).1 } := by
    refine ⟨List.getElem?_set_ne hi, ?_, rfl⟩
    rw [hpending]
    simp [operations, operation, hi]
  exact hfirst.trans (foldl_beside _ hi hcall)

/-- A handler of a proxy takes the exchange of its request on. -/
theorem Relays.handled (h : Relays B url es s) {i n : Nat} {p : HttpProxy} {r : ProxyResult}
    (hpending : s.pending = [.proxy i r.op]) (hi : s.proxies[i]? = some p) (hp : p.onResponse = some n) :
    Relays B url (es ++ [.proxy i r]) (s.handled B i p r) := by
  have hadvanced := HttpProxy.complete_advanced (B := B) hp r
  have hcall : ∀ m res, .call m res ∈ (p.complete B r).2 → m = n := fun m res hm => hadvanced.call hm
  obtain ⟨hturn, req, hreq, hproxied⟩ := h.numbered i p n hi hp
  have hlt := (List.getElem?_eq_some_iff.mp hi).1
  obtain ⟨hurl, hproxies, hlog⟩ := foldl_same (p.complete B r).2 i
    { s with pending := [], proxies := s.proxies.set i (p.complete B r).1 }
  have hproxies : (s.handled B i p r).proxies = s.proxies.set i (p.complete B r).1 := hproxies
  have hlog : requests (s.handled B i p r).log = requests s.log := hlog
  have hmore := hlog.trans (List.append_nil _).symm
  refine ⟨hurl.trans h.remote, ?_, fun j q m hj hq => ?_, fun k hk => ?_, fun m req' hreq' hproxied' => ?_⟩
  · rw [hproxies, hlog, List.length_set, h.count]
  · rw [hproxies] at hj
    by_cases hij : i = j
    · subst hij
      rw [List.getElem?_set_self hlt] at hj
      obtain rfl := Option.some.inj hj
      obtain rfl := hadvanced.onResponse hq
      exact (h.numbered i p m hi hp).append hmore
    · rw [List.getElem?_set_ne hij] at hj
      exact (h.numbered j q m hj hq).append hmore
  · rw [hproxies, List.length_set] at hk
    rw [results_snoc, h.fresh k hk, result, if_neg (by omega)]
    rfl
  · rw [hlog] at hreq'
    by_cases hm : m = n
    · subst hm
      obtain ⟨x₀, x, hbegun, hrun, hshows⟩ := h.relayed m req' hreq' hproxied'
      have hturn' := turn_append hmore (Nat.le_of_lt (List.getElem?_eq_some_iff.mp hreq').1)
      rw [← hturn] at hrun hshows hturn'
      obtain ⟨y, hy, hshows'⟩ := hshows.handled hpending hi hcall
      refine ⟨x₀, y, hbegun, ?_, ?_⟩
      · rw [hturn', results_snoc, result, if_pos rfl]
        exact hrun.append hy
      · rw [hturn']
        exact hshows'
    · have hik : i ≠ turn s.log m :=
        fun hik => hm (turn_inj hreq' hproxied' hreq hproxied (hik.symm.trans hturn))
      refine h.beside hmore hreq' hproxied' (if_neg hik) (handled_beside hpending hik fun m' res hm' => ?_)
      rw [hcall m' res hm']
      exact Ne.symm hm

theorem asyncHandleRequest_own {req : HttpRequest} {n : Nat} (hproxied : isProxied req = false)
    (hs : s.asyncHandleRequest B rpc req n = .ok t) : ∃ res, s.onResponse n res = t := by
  unfold asyncHandleRequest at hs
  dsimp only at hs
  split at hs
  · exact ⟨_, Except.ok.inj hs⟩
  next hhealth =>
    split at hs
    · exact ⟨_, Except.ok.inj hs⟩
    next hrpc => simp [isProxied, hhealth, hrpc] at hproxied

theorem asyncHandleRequest_proxied {req : HttpRequest} {n : Nat} (hproxied : isProxied req = true)
    (hurl : s.uiRemoteUrl = some url) (hs : s.asyncHandleRequest B rpc req n = .ok t) :
    ∃ handled, HttpProxy.asyncHandleRequest B { uiRemoteUrl := url } req n = .ok handled ∧
      handled.2.foldl (perform s.proxies.length) { s with proxies := s.proxies ++ [handled.1] } = t := by
  unfold asyncHandleRequest at hs
  dsimp only at hs
  split at hs
  next hhealth => simp [isProxied, hhealth] at hproxied
  next =>
    split at hs
    next hrpc => simp [isProxied, hrpc] at hproxied
    next =>
      rw [hurl] at hs
      exact Machine.map_eq_ok hs

/-- A session with nothing of a proxy pending relays as one with nothing pending. -/
theorem Relays.idle (h : Relays B url es s) (hpending : ∀ k, operations k s.pending = []) :
    Relays B url es { s with pending := [] } := by
  refine ⟨h.remote, h.count, h.numbered, h.fresh, fun n req hreq hproxied => ?_⟩
  obtain ⟨x₀, x, hbegun, hrun, hshows⟩ := h.relayed n req hreq hproxied
  exact ⟨x₀, x, hbegun, hrun, hshows.proxy, (hpending _).symm.trans hshows.pending, hshows.delivered⟩

/-- The handler of a reading. -/
theorem Relays.read (h : Relays B url es s) (hpending : s.pending = []) {result : SessionRead}
    (hnone : responses (requests s.log).length s.log = []) (hs : s.onRead B rpc result = .ok t) :
    Relays B url (es ++ [.read result]) t := by
  cases result with
  | endOfStream =>
    obtain rfl := Except.ok.inj hs
    exact h.other [.closed] rfl rfl rfl (fun _ => rfl) rfl (fun _ _ => rfl) fun _ => rfl
  | error message =>
    obtain rfl := Except.ok.inj hs
    exact h.other [] (List.append_nil _).symm rfl rfl (fun _ => rfl) rfl (fun _ _ => rfl) fun _ => rfl
  | request req =>
    rw [onRead] at hs
    cases hproxied : isProxied req with
    | false =>
      obtain ⟨res, rfl⟩ := asyncHandleRequest_own hproxied hs
      have hwrite : ∀ k, operations k (s.pending ++ [.write (requests s.log).length]) = operations k s.pending :=
        fun k => (operations_snoc k _ _).trans (List.append_nil _)
      refine h.other [.request req, .answered (requests s.log).length res] (List.append_assoc _ _ _) rfl rfl
        hwrite ?_ ?_ fun _ => rfl
      · simp [requests, hproxied]
      · intro n hn
        simp [responses, response, Nat.ne_of_gt hn]
    | true =>
      obtain ⟨handled, hhandled, rfl⟩ := asyncHandleRequest_proxied (s := s.emit (.request req)) hproxied h.remote hs
      exact h.asked hpending hproxied hnone hhandled fun _ => rfl

/-- The handler of the writing of a response. -/
theorem Relays.write (h : Relays B url es s) (keepAlive : Bool) (request : Nat) (ec : ErrorCode) :
    Relays B url (es ++ [.write request ec]) (s.onWrite keepAlive request ec) := by
  have hread : ∀ k, operations k (s.pending ++ [.read]) = operations k s.pending :=
    fun k => (operations_snoc k _ _).trans (List.append_nil _)
  cases ec with
  | some message =>
    exact h.other [] (List.append_nil _).symm rfl rfl (fun _ => rfl) rfl (fun _ _ => rfl) fun _ => rfl
  | none =>
    cases keepAlive with
    | false =>
      exact h.other [.written request, .closed] (List.append_assoc _ _ _) rfl rfl (fun _ => rfl) rfl
        (fun _ _ => rfl) fun _ => rfl
    | true =>
      exact h.other [.written request, .reading] (List.append_assoc _ _ _) rfl rfl hread rfl
        (fun _ _ => rfl) fun _ => rfl

/-- A step of the session, in the order of the protocol. -/
theorem Relays.step (h : Relays B url es s) {st : RequestProtocol.State} {left : Nat} (hinv : Inv s st left)
    (hc : (machine B rpc).enabled s c) (ht : (machine B rpc).step s c = .ok t) :
    Relays B url (es ++ [c]) t := by
  obtain ⟨hlog, hstanding⟩ := hinv
  cases hstanding with
  | begun hp =>
    obtain ⟨hop, hstep⟩ := step_pending hp hc
    rw [hstep] at ht
    cases c with
    | start =>
      obtain rfl := Except.ok.inj ht
      exact (h.idle fun k => by rw [hp]; rfl).other [.reading] rfl rfl rfl (fun _ => rfl) rfl
        (fun _ _ => rfl) fun _ => rfl
    | _ => simp [Completion.op] at hop
  | @waiting n hp =>
    obtain ⟨hop, hstep⟩ := step_pending hp hc
    rw [hstep] at ht
    cases c with
    | read result =>
      refine (h.idle fun k => by rw [hp]; rfl).read rfl (responses_nil ?_) ht
      have htracks := RequestProtocol.tracks_of_replay hlog
      rw [requests_length, htracks.requests, ← answers_acts, htracks.answers]
      exact fun hmem => Nat.lt_irrefl _ (List.mem_range.mp hmem)
    | _ => simp [Completion.op] at hop
  | @asked n i op p hp hi hr =>
    obtain ⟨hop, hstep⟩ := step_pending hp hc
    rw [hstep] at ht
    cases c with
    | proxy j r =>
      obtain ⟨rfl, rfl⟩ : j = i ∧ r.op = op := by simpa [Completion.op] using hop
      simp only [complete, hi] at ht
      obtain rfl := Except.ok.inj ht
      exact h.handled hp hi hr
    | _ => simp [Completion.op] at hop
  | @answered n res hp hres =>
    obtain ⟨hop, hstep⟩ := step_pending hp hc
    rw [hstep] at ht
    cases c with
    | write request ec =>
      have hwrite := @complete_write B rpc { s with pending := [] } res hres request ec
      obtain rfl := Except.ok.inj (hwrite.symm.trans ht)
      exact (h.idle fun k => by rw [hp]; rfl).write _ _ _
    | _ => simp [Completion.op] at hop
  | ended hp hphase =>
    have hc : c.op ∈ s.pending := hc
    simp [hp] at hc

theorem runs_relay (h : (machine B rpc).Run (HttpSession.run (some url)) es s) : Relays B url es s := by
  have hboth : (∃ st left, Inv s st left) ∧ Relays B url es s := by
    refine h.history (I := fun es s => (∃ st left, Inv s st left) ∧ Relays B url es s) ?_ ?_
    · rintro es s c t ⟨⟨st, left, hinv⟩, hrelays⟩ hc ht
      obtain ⟨st', left', hinv', -⟩ := step_inv hinv hc ht
      exact ⟨⟨st', left', hinv'⟩, hrelays.step hinv hc ht⟩
    · refine ⟨⟨_, _, run_inv (some url)⟩, rfl, rfl, ?_, fun _ _ => rfl, ?_⟩
      · intro i p n hi
        cases hi
      · intro n req hreq
        cases hreq
  exact hboth.2

/-- In every run of a session with a proxy URL, each request that the session does not
answer itself has a proxy of its own. The handlers of that proxy, taken out of the run,
are a run of one exchange, which the session shows: the proxy, its pending operations,
and the responses that the callback of the request is given. Where the proxy accepts its
URL, the two messages can be copied and none of its operations fails, the exchange ends
with the client's message written and the upstream server's delivered. -/
theorem requests_relayed (h : (machine B rpc).Run (HttpSession.run (some url)) es s) {n : Nat}
    {req : HttpRequest} (hreq : (requests s.log)[n]? = some req) (hproxied : isProxied req = true) :
    (∀ m req', (requests s.log)[m]? = some req' → isProxied req' = true →
      turn s.log m = turn s.log n → m = n) ∧
    ∃ x₀ x, HttpExchange.begun B url req n = .ok x₀ ∧
      (HttpExchange.machine B).Run x₀ (results (turn s.log n) es) x ∧ Shows s (turn s.log n) n x ∧
      ∀ upstream, (HttpProxy.parseUrl { uiRemoteUrl := url } url).isSome = true →
        HttpExchange.RequestCopyable B req → HttpExchange.ResponseCopyable B req.method upstream →
        (∀ r ∈ results (turn s.log n) es, HttpExchange.Succeeds (.ok upstream) r) →
        operations (turn s.log n) s.pending = [] →
        HttpExchange.Forwards B.toFieldTable req upstream.toHttpResponse x := by
  obtain ⟨x₀, x, hbegun, hrun, hshows⟩ := (runs_relay h).relayed n req hreq hproxied
  refine ⟨fun m req' hreq' hproxied' hturn => turn_inj hreq' hproxied' hreq hproxied hturn,
    x₀, x, hbegun, hrun, hshows, fun upstream hurl hrequest hresponse hsucceeds hend => ?_⟩
  have hforwarded := HttpExchange.forwarded_of_copyable hurl hrequest hresponse
  have hreads := (HttpExchange.reads_iff hresponse.takes hresponse.size).mpr rfl
  exact hforwarded.2 _ x hreads ⟨n, x₀, _, hbegun, hrun, hsucceeds, hshows.pending.symm.trans hend⟩

end Run

/-- The handlers of a proxy that fetches a response. -/
def fetched (k : Nat) (upstream : UpstreamResponse) : List Completion :=
  [.proxy k (.resolve none true), .proxy k (.connect none), .proxy k (.write none), .proxy k (.read (.ok upstream))]

def pageRequest (target : String) : HttpRequest := ⟨"GET", target, 11, [⟨"Host", "localhost"⟩], ""⟩

/-- Two pages by way of two proxies, and a request in between that needs none. -/
def twoPages : List Completion :=
  [.start, .read (.request (pageRequest "/"))] ++ fetched 0 (HttpExchange.page []) ++
    [.write 0 none, .read (.request (pageRequest "/.ok")), .write 1 none,
      .read (.request (pageRequest "/app.js"))] ++
    fetched 1 (HttpExchange.page [⟨"Set-Cookie", "a=1"⟩])

theorem requests_relayed_pages : ∃ s x,
    (machine Beast.sample fun _ => ⟨204, 11, [], ""⟩).Run (run (some "http://example.com:8080/ui")) twoPages s ∧
      Shows s 1 2 x ∧ HttpExchange.Forwards Beast.sample.toFieldTable (pageRequest "/app.js")
        (HttpExchange.page [⟨"Set-Cookie", "a=1"⟩]).toHttpResponse x := by
  obtain ⟨s, hs, hend⟩ := Machine.exec_exists (machine Beast.sample fun _ => ⟨204, 11, [], ""⟩)
    (run (some "http://example.com:8080/ui")) twoPages
    (fun s => (requests s.log)[2]? = some (pageRequest "/app.js") ∧ turn s.log 2 = 1 ∧ operations 1 s.pending = [])
    (by decide +kernel)
  obtain ⟨hreq, hturn, hpending⟩ := of_decide_eq_true hend
  obtain ⟨-, x₀, x, -, -, hshows, hforwards⟩ := requests_relayed hs hreq (by decide)
  rw [hturn] at hshows hforwards
  refine ⟨s, x, hs, hshows, hforwards _ (by decide) ⟨by decide, by decide, ⟨by decide, by decide⟩⟩
    ⟨by decide, by decide, by decide, ⟨by decide, by decide⟩⟩ ?_ hpending⟩
  intro r hr
  change r ∈ [ProxyResult.resolve none true, .connect none, .write none,
    .read (.ok (HttpExchange.page [⟨"Set-Cookie", "a=1"⟩]))] at hr
  simp only [List.mem_cons, List.not_mem_nil, or_false] at hr
  rcases hr with rfl | rfl | rfl | rfl
  · exact ⟨rfl, rfl⟩
  · rfl
  · rfl
  · rfl

end HttpSession
