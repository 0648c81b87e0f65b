import Mathlib.Logic.Function.Basic
import Zakuro.VirtualClient
import Zakuro.ClientInfo
import Zakuro.GameAudio

/-!
# ScenarioPlayer

One instance as its event loop runs it: the main player, the players of the
sub-scenarios below it, the clients and the audio buffers. A handler of the
`io_context` is one event; handlers run in any order, and none after
`io_context::stop()`. A sub-player that has not been made yet is like one that
has just been made, so each player of the tree is there from the start, under
the path of names that leads to it from the main player.
-/

/-- Where a player is: the names of the sub-scenarios, the innermost first. -/
abbrev PlayerPath := List String

structure ScenarioPlayer (n : Nat) where
  clientInfos : Fin n → ClientInfo := fun _ => {}
  dcCounter : String → UInt64 := fun _ => 0

namespace ScenarioPlayer

open CData

/-- What an instance is given: its client configuration, its binary pool, and
what `VoiceNumberReader::Read` gives for each number. -/
structure Env where
  vcConfig : VirtualClientConfig
  pool : BinaryPool
  voice : Int → List Int16

/-- What `OnNext` draws and reads: the number of its engine, the size and the
position of `BinaryPool::Get`, the clock, and what the session answers. -/
structure Draw where
  rand : Nat
  size : Int
  pos : Nat
  time : UInt64
  sdk : SignalingStats

/-- The draws stay in the range of their distribution, where it has one. -/
def Draw.Fits (d : Draw) (pool : BinaryPool) : Op → Prop
  | .sendDataChannelMessage _ minSize maxSize =>
    (toInt (minSize - 48) ≤ toInt (maxSize - 48) →
      toInt (minSize - 48) ≤ d.size ∧ d.size ≤ toInt (maxSize - 48)) ∧ d.pos < pool.bytes.length
  | _ => True

instance (d : Draw) (pool : BinaryPool) : DecidablePred (d.Fits pool)
  | .sendDataChannelMessage _ _ _ => inferInstanceAs (Decidable (_ ∧ _))
  | .sleep _ _ | .playSubScenario _ _ _ | .playVoiceNumberClient | .disconnect | .reconnect | .exit =>
    .isTrue trivial

inductive Fault where
  | client (fault : VirtualClient.Fault)
  /-- `data.ops` is read beside its end. -/
  | outOfRange
  | divisionByZero
  /-- `std::length_error`, thrown by `reserve`. -/
  | lengthError
  /-- There is no `GameAudioManager` to play with. -/
  | noAudio
  deriving DecidableEq, Repr

/-- One operation that `OnNext` has begun to execute. -/
structure Execution (n : Nat) where
  path : PlayerPath
  client : Fin n
  index : Nat
  op : Op

end ScenarioPlayer

open ScenarioPlayer (Execution)

/-- An instance. The function that `OP_EXIT` gives to `Close` is named by the
player and the client it is for. -/
structure World (n : Nat) where
  players : PlayerPath → ScenarioPlayer n := fun _ => {}
  vcs : Fin n → VirtualClient (PlayerPath × Fin n) := fun _ => .init
  gam : Option GameAudioManager := none
  stopped : Bool := false
  executed : List (Execution n) := []

namespace World

open ScenarioPlayer

variable {n : Nat}

def info (w : World n) (p : PlayerPath) (i : Fin n) : ClientInfo := (w.players p).clientInfos i

def setInfo (w : World n) (p : PlayerPath) (i : Fin n) (c : ClientInfo) : World n :=
  { w with
    players := Function.update w.players p
      { w.players p with clientInfos := Function.update (w.players p).clientInfos i c } }

def modifyInfo (w : World n) (p : PlayerPath) (i : Fin n) (f : ClientInfo → ClientInfo) : World n :=
  w.setInfo p i (f (w.info p i))

/-! ## Calls of a client -/

/-- The function given to `Close` by `OP_EXIT`. -/
def onExit (w : World n) (k : PlayerPath × Fin n) : World n :=
  let w := w.modifyInfo k.1 k.2 fun c => { c with exit := true }
  if ∀ j, (w.info k.1 j).exit = true then { w with stopped := true } else w

/-- The functions that were called since the log was `old`. -/
def calledSince (old log : List (VirtualClient.Entry (PlayerPath × Fin n))) : List (PlayerPath × Fin n) :=
  (log.drop old.length).filterMap fun
    | .onClose k _ => some k
    | _ => none

/-- A client has gone over to `vc`: the functions that it called on the way run,
and the call in `OnDisconnect`, if there is one, returns. -/
def react (w : World n) (i : Fin n) (vc : VirtualClient (PlayerPath × Fin n)) : World n :=
  (calledSince (w.vcs i).log vc.log).foldl onExit
    { w with vcs := Function.update w.vcs i (if vc.inOnClose then vc.onCloseReturned else vc) }

def client (env : Env) (i : Fin n) (e : VirtualClient.Event (PlayerPath × Fin n)) (w : World n) :
    Except Fault (World n) :=
  match VirtualClient.step env.vcConfig (w.vcs i) e with
  | .ok vc => .ok (w.react i vc)
  | .error f => .error (.client f)

/-! ## Calls of the player -/

def play (w : World n) (p : PlayerPath) (clientId : Int) (data : List Op) (loopOpIndex : Int) : World n :=
  if h : 0 ≤ clientId ∧ clientId < n then
    w.modifyInfo p ⟨clientId.toNat, by omega⟩ (ClientInfo.play data loopOpIndex)
  else w

def modifyAll (w : World n) (f : ClientInfo → ClientInfo) : World n :=
  { w with
    players := Function.update w.players []
      { w.players [] with clientInfos := fun i => f (w.info [] i) } }

def pauseAll (w : World n) : World n := w.modifyAll ClientInfo.pause

def resumeAll (w : World n) : World n := w.modifyAll ClientInfo.resume

/-- The message that `OP_SEND_DATA_CHANNEL_MESSAGE` builds, without one when
`BinaryPool::Get` throws. -/
def message (env : Env) (p : PlayerPath) (i : Fin n) (d : Draw) (label : String) (w : World n) :
    Option (List UInt8) :=
  (env.pool.get d.size d.pos).map fun data =>
    messageBuffer d.time ((w.players p).dcCounter label)
      ((w.vcs i).getStats env.vcConfig d.sdk).connectionId ++ data

/-- `dc_counter_[label] = counter` -/
def setCounter (p : PlayerPath) (label : String) (counter : UInt64) (w : World n) : World n :=
  { w with
    players := Function.update w.players p
      { w.players p with dcCounter := Function.update (w.players p).dcCounter label counter } }

/-- `OP_SEND_DATA_CHANNEL_MESSAGE` -/
def sendMessage (env : Env) (p : PlayerPath) (i : Fin n) (d : Draw) (label : String) (w : World n) :
    Except Fault (World n) :=
  match w.message env p i d label with
  | none => .error .lengthError
  | some message =>
    (w.client env i (.sendMessage label message)).map
      (setCounter p label ((w.players p).dcCounter label + 1))

/-- The `switch` of `OnNext`. -/
def operate (env : Env) (p : PlayerPath) (i : Fin n) (d : Draw) (w : World n) : Op → Except Fault (World n)
  | .sleep minTimeMs maxTimeMs =>
    match Op.sleepMs d.rand minTimeMs maxTimeMs with
    | none => .error .divisionByZero
    | some ms => .ok (w.modifyInfo p i (ClientInfo.sleep ms))
  | .playSubScenario name data loopOpIndex => .ok (w.play (name :: p) i.val data loopOpIndex)
  | .playVoiceNumberClient =>
    match w.gam with
    | none => .error .noAudio
    | some audios => .ok { w with gam := some (GameAudioManager.play audios i.val (env.voice (i.val + 1))) }
  | .sendDataChannelMessage label _ _ => w.sendMessage env p i d label
  | .disconnect => w.client env i (.close none)
  | .reconnect => w.client env i .connect
  | .exit => w.client env i (.close (some (p, i)))

/-- `OnNext`: only `OP_SLEEP` does not go on with `Next`. -/
def onNext (env : Env) (p : PlayerPath) (i : Fin n) (d : Draw) (w : World n) : Except Fault (World n) :=
  let w := w.modifyInfo p i ClientInfo.takePosted
  match (w.info p i).current with
  | none => .error .outOfRange
  | some op =>
    let execution : Execution n := ⟨p, i, (w.info p i).opIndex, op⟩
    let w := { w with executed := w.executed ++ [execution] }
    (w.operate env p i d op).map fun w =>
      if op.isSleep then w else w.modifyInfo p i ClientInfo.next

/-! ## The event loop -/

/-- What the event loop of an instance runs, or what happens around it. -/
inductive Event (n : Nat) where
  | play (clientId : Int) (data : List Op) (loopOpIndex : Int)
  | pauseAll
  | resumeAll
  | onNext (p : PlayerPath) (i : Fin n) (d : Draw)
  /-- The expiry of a sleep passes, and its handler is queued. -/
  | sleepExpired (p : PlayerPath) (i : Fin n)
  | sleepReady (p : PlayerPath) (i : Fin n)
  | sleepAborted (p : PlayerPath) (i : Fin n)
  /-- The keys for one client. -/
  | keyClose (i : Fin n)
  | keyConnect (i : Fin n)
  /-- A report of a session, or a client's retry timer. -/
  | client (i : Fin n) (e : VirtualClient.Event (PlayerPath × Fin n))

/-- The events of a client that do not come from the instance itself. -/
def External : VirtualClient.Event (PlayerPath × Fin n) → Prop
  | .disconnected _ _ | .notify _ | .retryExpired | .retryReady | .retryAborted => True
  | _ => False

instance : DecidablePred (External (n := n))
  | .disconnected _ _ | .notify _ | .retryExpired | .retryReady | .retryAborted => .isTrue trivial
  | .connect | .close _ | .sendMessage _ _ | .onCloseReturned => .isFalse id

/-- The draws of an `OnNext` suit the operation it will find. -/
def Drawable (env : Env) (w : World n) (p : PlayerPath) (i : Fin n) (d : Draw) : Prop :=
  match (w.info p i).current with
  | some op => d.Fits env.pool op
  | none => True

instance (env : Env) (w : World n) (p : PlayerPath) (i : Fin n) (d : Draw) :
    Decidable (Drawable env w p i d) :=
  match h : (w.info p i).current with
  | some op => decidable_of_iff (d.Fits env.pool op) (by rw [Drawable, h])
  | none => .isTrue (by rw [Drawable, h]; trivial)

def Queued (env : Env) (w : World n) : Event n → Prop
  | .onNext p i d => 0 < (w.info p i).posted ∧ Drawable env w p i d
  | .sleepExpired p i => 0 < (w.info p i).timer.waiting
  | .sleepReady p i => 0 < (w.info p i).timer.ready
  | .sleepAborted p i => 0 < (w.info p i).timer.aborted
  | .client i e => External e ∧ VirtualClient.Enabled (w.vcs i) e
  | _ => True

instance (env : Env) (w : World n) : DecidablePred (Queued env w)
  | .onNext p i d => inferInstanceAs (Decidable (0 < (w.info p i).posted ∧ Drawable env w p i d))
  | .sleepExpired p i => inferInstanceAs (Decidable (0 < (w.info p i).timer.waiting))
  | .sleepReady p i => inferInstanceAs (Decidable (0 < (w.info p i).timer.ready))
  | .sleepAborted p i => inferInstanceAs (Decidable (0 < (w.info p i).timer.aborted))
  | .client i e => inferInstanceAs (Decidable (External e ∧ VirtualClient.Enabled (w.vcs i) e))
  | .play _ _ _ | .pauseAll | .resumeAll | .keyClose _ | .keyConnect _ => .isTrue trivial

def step (env : Env) (w : World n) : Event n → Except Fault (World n)
  | .play clientId data loopOpIndex => .ok (w.play [] clientId data loopOpIndex)
  | .pauseAll => .ok w.pauseAll
  | .resumeAll => .ok w.resumeAll
  | .onNext p i d => w.onNext env p i d
  | .sleepExpired p i => .ok (w.modifyInfo p i fun c => { c with timer := c.timer.expire })
  | .sleepReady p i =>
    .ok (w.modifyInfo p i fun c => ClientInfo.next { c with timer := c.timer.takeReady })
  | .sleepAborted p i =>
    .ok (w.modifyInfo p i fun c => { c with timer := c.timer.takeAborted })
  | .keyClose i => w.client env i (.close none)
  | .keyConnect i => w.client env i .connect
  | .client i e => w.client env i e

def machine (env : Env) : Machine (World n) (Event n) Fault where
  enabled w e := w.stopped = false ∧ Queued env w e
  step := step env

instance (env : Env) (w : World n) (e : Event n) : Decidable ((machine env).enabled w e) :=
  inferInstanceAs (Decidable (_ ∧ _))

end World
