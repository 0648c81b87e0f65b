import Zakuro.Machine
import Zakuro.SteadyTimer
import Zakuro.Json

/-!
# VirtualClient

The client keeps at most one `SoraSignaling` session and a retry timer. The
session is code outside the repository: a client sees only the calls it makes
on it and the `OnDisconnect` and `OnNotify` reports it sends, and all of these
are entries of the client's log. Sessions are numbered in the order of their
creation. `SoraSignaling::Connect` stands last on every path that reaches it,
so it is part of the entry for the creation.

The audio and video tracks, which only `OnSetOffer` reads, are no part of this state.
-/

/-- The members of `VirtualClientConfig` that the connection logic reads. The
retry interval is `(int)(config_.retry_interval * 1000)`. -/
structure VirtualClientConfig where
  maxRetry : Int := 0
  retryIntervalMs : Int := 60000
  channelId : String := ""
  deriving DecidableEq, Repr

/-- What a session answers about itself. -/
structure SignalingStats where
  connectionId : List UInt8
  connectedUrl : String
  datachannelConnected : Bool
  websocketConnected : Bool
  deriving DecidableEq, Repr

structure VirtualClientStats where
  channelId : String := ""
  connectionId : List UInt8 := []
  connectedUrl : String := ""
  websocketConnected : Bool := false
  datachannelConnected : Bool := false
  deriving DecidableEq, Repr

namespace VirtualClient

/-- One thing that happened between a client and its surroundings. -/
inductive Entry (κ : Type) where
  | create : Nat → Entry κ
  | disconnect : Nat → Entry κ
  | sendDataChannel : Nat → String → List UInt8 → Entry κ
  /-- The session reports `OnDisconnect`. -/
  | disconnected : Nat → Entry κ
  /-- A function given to `Close` is called with a message. -/
  | onClose : κ → String → Entry κ
  deriving DecidableEq, Repr

end VirtualClient

open VirtualClient (Entry) in
/-- The client, over the type `κ` of the non-empty functions its callers pass
to `Close`. An empty `std::function` is `none`. -/
structure VirtualClient (κ : Type) where
  closing : Bool := false
  needReconnect : Bool := false
  retryCount : Int := 0
  onClose : Option κ := none
  retryTimer : SteadyTimer := {}
  signaling : Option Nat := none
  /-- `OnDisconnect` has called `on_close_` and the call has not returned. -/
  inOnClose : Bool := false
  /-- The number of sessions created so far, which is the name of the next. -/
  created : Nat := 0
  log : List (Entry κ) := []
  deriving DecidableEq, Repr

namespace VirtualClient

/-- What can be thrown out of a client's handler. -/
inductive Fault where
  /-- `std::bad_function_call`: an empty function was called. -/
  | badFunctionCall
  /-- An exception of `boost::json`. -/
  | json
  deriving DecidableEq, Repr

variable {κ : Type}

def connect (s : VirtualClient κ) : VirtualClient κ :=
  if s.closing then { s with needReconnect := true }
  else match s.signaling with
    | some n =>
      { s with closing := true, needReconnect := true, log := s.log ++ [.disconnect n] }
    | none =>
      { s with
        retryTimer := s.retryTimer.cancel
        signaling := some s.created
        created := s.created + 1
        log := s.log ++ [.create s.created] }

/-- Calling a `std::function` that may be empty. -/
def invoke (cb : Option κ) (message : String) (s : VirtualClient κ) :
    Except Fault (VirtualClient κ) :=
  match cb with
  | some f => .ok { s with log := s.log ++ [.onClose f message] }
  | none => .error .badFunctionCall

def close (cb : Option κ) (s : VirtualClient κ) : Except Fault (VirtualClient κ) :=
  if s.closing then
    match s.onClose with
    | none => .ok { s with onClose := cb }
    | some _ => invoke cb "already closing" s
  else match s.signaling with
    | some n => .ok { s with closing := true, onClose := cb, log := s.log ++ [.disconnect n] }
    | none => invoke cb "already closed" s

def sendMessage (label : String) (data : List UInt8) (s : VirtualClient κ) : VirtualClient κ :=
  match s.signaling with
  | none => s
  | some n =>
    if s.closing then s else { s with log := s.log ++ [.sendDataChannel n label data] }

def getStats (cfg : VirtualClientConfig) (sdk : SignalingStats) (s : VirtualClient κ) :
    VirtualClientStats :=
  match s.signaling with
  | none => {}
  | some _ =>
    { channelId := cfg.channelId
      connectionId := sdk.connectionId
      connectedUrl := sdk.connectedUrl
      datachannelConnected := sdk.datachannelConnected
      websocketConnected := sdk.websocketConnected }

/-- The branch of `OnDisconnect` for a connection lost without a call of
`Connect` or `Close`: retry while the budget lasts. -/
def armRetry (cfg : VirtualClientConfig) (s : VirtualClient κ) : VirtualClient κ :=
  if s.retryCount < cfg.maxRetry then
    { s with
      retryCount := s.retryCount + 1
      retryTimer := (s.retryTimer.expiresAfter cfg.retryIntervalMs).asyncWait }
  else s

/-- The branch of `OnDisconnect` that completes a `Connect` or a `Close`. -/
def finishClosing (s : VirtualClient κ) : VirtualClient κ :=
  if s.needReconnect then
    match s.onClose with
    | none => connect { s with closing := false, needReconnect := false }
    | some _ => { s with closing := false, needReconnect := false }
  else { s with closing := false }

/-- `OnDisconnect` up to and with the call `on_close_(message)`. -/
def onDisconnect (cfg : VirtualClientConfig) (message : String) (s : VirtualClient κ) :
    VirtualClient κ :=
  let s := { s with signaling := none, retryTimer := s.retryTimer.cancel }
  let s := if s.closing then finishClosing s else armRetry cfg s
  match s.onClose with
  | some f => { s with log := s.log ++ [.onClose f message], inOnClose := true }
  | none => s

/-- The rest of `OnDisconnect`, after `on_close_` has returned. -/
def onCloseReturned (s : VirtualClient κ) : VirtualClient κ :=
  { s with onClose := none, inOnClose := false }

/-- The handler of the retry timer when the wait ends without an error. -/
def retry (s : VirtualClient κ) : VirtualClient κ :=
  let s := { s with needReconnect := false }
  match s.onClose with
  | none => connect s
  | some _ => s

/-- `json` is what `boost::json::parse(text)` gives, `none` when it throws. -/
def onNotify (json : Option Json) (s : VirtualClient κ) : Except Fault (VirtualClient κ) :=
  match json.bind fun value => (value.at? "event_type").bind Json.asString? with
  | some eventType =>
    .ok (if eventType = "connection.created" then { s with retryCount := 0 } else s)
  | none => .error .json

/-- What can happen to a client. The calls come from the scenario, from the
keys, or from inside a callback. -/
inductive Event (κ : Type) where
  | connect : Event κ
  | close : Option κ → Event κ
  | sendMessage : String → List UInt8 → Event κ
  | disconnected : Nat → String → Event κ
  | onCloseReturned : Event κ
  | notify : Option Json → Event κ
  /-- The retry timer's expiry passes. -/
  | retryExpired : Event κ
  /-- A queued handler of the retry timer runs, without or with an error. -/
  | retryReady : Event κ
  | retryAborted : Event κ

/-- An explicit `Connect` or `Close` call. -/
def Event.IsCommand : Event κ → Prop
  | .connect | .close _ => True
  | _ => False

instance : DecidablePred (Event.IsCommand (κ := κ))
  | .connect | .close _ => .isTrue trivial
  | .sendMessage _ _ | .disconnected _ _ | .onCloseReturned | .notify _ | .retryExpired | .retryReady
  | .retryAborted => .isFalse id

/-- A session that was created and has not reported `OnDisconnect`. -/
def Live (log : List (Entry κ)) (n : Nat) : Prop := .create n ∈ log ∧ .disconnected n ∉ log

instance [DecidableEq κ] (log : List (Entry κ)) (n : Nat) : Decidable (Live log n) :=
  inferInstanceAs (Decidable (_ ∧ _))

/-- A session reports `OnDisconnect` at most once, and nothing else runs while
a callback of the client does. -/
def Enabled (s : VirtualClient κ) : Event κ → Prop
  | .disconnected n _ => Live s.log n ∧ s.inOnClose = false
  | .onCloseReturned => s.inOnClose = true
  | .notify _ => s.inOnClose = false
  | .retryReady => 0 < s.retryTimer.ready ∧ s.inOnClose = false
  | .retryAborted => 0 < s.retryTimer.aborted ∧ s.inOnClose = false
  | _ => True

instance [DecidableEq κ] (s : VirtualClient κ) : DecidablePred (Enabled s)
  | .disconnected n _ => inferInstanceAs (Decidable (Live s.log n ∧ s.inOnClose = false))
  | .onCloseReturned => inferInstanceAs (Decidable (s.inOnClose = true))
  | .notify _ => inferInstanceAs (Decidable (s.inOnClose = false))
  | .retryReady => inferInstanceAs (Decidable (0 < s.retryTimer.ready ∧ s.inOnClose = false))
  | .retryAborted => inferInstanceAs (Decidable (0 < s.retryTimer.aborted ∧ s.inOnClose = false))
  | .connect | .close _ | .sendMessage _ _ | .retryExpired => .isTrue trivial

def step (cfg : VirtualClientConfig) (s : VirtualClient κ) :
    Event κ → Except Fault (VirtualClient κ)
  | .connect => .ok (connect s)
  | .close cb => close cb s
  | .sendMessage label data => .ok (sendMessage label data s)
  | .disconnected n message =>
    .ok (onDisconnect cfg message { s with log := s.log ++ [.disconnected n] })
  | .onCloseReturned => .ok (onCloseReturned s)
  | .notify json => onNotify json s
  | .retryExpired => .ok { s with retryTimer := s.retryTimer.expire }
  | .retryReady => .ok (retry { s with retryTimer := s.retryTimer.takeReady })
  | .retryAborted => .ok { s with retryTimer := s.retryTimer.takeAborted }

/-- A client as the event loop drives it. -/
def machine (cfg : VirtualClientConfig) : Machine (VirtualClient κ) (Event κ) Fault where
  enabled := Enabled
  step := step cfg

instance [DecidableEq κ] (cfg : VirtualClientConfig) (s : VirtualClient κ) (e : Event κ) :
    Decidable ((machine cfg).enabled s e) :=
  inferInstanceAs (Decidable (Enabled s e))

/-- A client as its constructor leaves it. -/
def init : VirtualClient κ := {}

end VirtualClient
