import Zakuro.History
import Zakuro.Machine

/-!
# FakeAudioKeyTrigger

The thread that takes the keys of an instance from their queue and turns them
into commands. A digit is a command of its own, or the end of one that a single
letter has begun: letters are collected until a digit takes them, and are
forgotten a second after the last of them.
-/

/-- `queue_` -/
abbrev GameKey := List UInt8

namespace GameKey

def pushKey (queue : GameKey) (c : UInt8) : GameKey := queue ++ [c]

/-- `PopKey`, with `none` for -1. -/
def popKey : GameKey → Option UInt8 × GameKey
  | [] => (none, [])
  | c :: queue => (some c, queue)

end GameKey

/-- The branches of the thread that a key can take. -/
inductive KeyKind where
  | pause
  | resume
  | letter
  /-- With the number that the digit stands for. -/
  | digit (m : Nat)
  | other
  deriving DecidableEq, Repr

def ascii (c : Char) : UInt8 := c.toUInt8

/-- The conditions on `n`. The digit after 9 is 0. -/
def KeyKind.of (n : UInt8) : KeyKind :=
  if n = ascii 's' then .pause
  else if n = ascii 'S' then .resume
  else if ascii 'a' ≤ n ∧ n ≤ ascii 'z' ∨ ascii 'A' ≤ n ∧ n ≤ ascii 'Z' then .letter
  else if ascii '0' ≤ n ∧ n ≤ ascii '9' then .digit (if n = ascii '0' then 9 else (n - ascii '1').toNat)
  else .other

/-- What is posted to the event loop. -/
inductive KeyCommand (n : Nat) where
  | pauseAll
  | resumeAll
  | close (m : Fin n)
  | connect (m : Fin n)
  deriving DecidableEq, Repr

inductive KeyAction (n : Nat) where
  | post (command : KeyCommand n)
  /-- `gam_->Play(m, voice_reader_.Read(m + 1))` -/
  | play (m : Nat)
  deriving DecidableEq, Repr

/-- The command, where it is one that is posted. -/
def KeyAction.command {n : Nat} : KeyAction n → Option (KeyCommand n)
  | .post command => some command
  | .play _ => none

/-- One pass of the loop: its time, the key that it took, and what it did. -/
structure KeyPass (n : Nat) where
  now : Int
  key : Option UInt8
  actions : List (KeyAction n)
  deriving DecidableEq, Repr

/-- The members of the trigger and the variables of its thread. -/
structure FakeAudioKeyTrigger (n : Nat) where
  /-- `key_` -/
  key : GameKey := []
  seq : List UInt8 := []
  seqTime : Int := 0
  stopped : Bool := false
  running : Bool := true
  passes : List (KeyPass n) := []

namespace FakeAudioKeyTrigger

variable {n : Nat}

/-- A second, in the unit of the clock. -/
def second : Int := 1000000000

/-- What was collected more than a second ago is forgotten. -/
def expire (now : Int) (s : FakeAudioKeyTrigger n) : FakeAudioKeyTrigger n :=
  if now > s.seqTime + second then { s with seq := [], seqTime := now } else s

/-- What `q` or `Q` and a digit do, if there is a client with the number. -/
def ifClient (command : Fin n → KeyCommand n) (m : Nat) : List (KeyAction n) :=
  if h : m < n then [.post (command ⟨m, h⟩)] else []

/-- What a digit does. -/
def strike (seq : List UInt8) (m : Nat) : List (KeyAction n) :=
  (if seq = [] then [.play m] else []) ++
    ((if seq = [ascii 'q'] then ifClient .close m else []) ++
      if seq = [ascii 'Q'] then ifClient .connect m else [])

/-- What a key does. -/
def press (now : Int) (c : UInt8) (s : FakeAudioKeyTrigger n) : List (KeyAction n) × FakeAudioKeyTrigger n :=
  match KeyKind.of c with
  | .pause => ([.post .pauseAll], s)
  | .resume => ([.post .resumeAll], s)
  | .letter => ([], { s with seq := s.seq ++ [c], seqTime := now })
  | .digit m => (strike s.seq m, { s with seq := [], seqTime := now })
  | .other => ([], s)

/-- One pass of the loop after its sleep, with what it does. -/
def pass (now : Int) (s : FakeAudioKeyTrigger n) : List (KeyAction n) × FakeAudioKeyTrigger n :=
  if s.stopped then ([], { s with running := false })
  else
    let s := s.expire now
    match s.key.popKey with
    | (none, _) => ([], { s with passes := s.passes ++ [⟨now, none, []⟩] })
    | (some c, queue) =>
      let pressed := { s with key := queue }.press now c
      (pressed.1, { pressed.2 with passes := s.passes ++ [⟨now, some c, pressed.1⟩] })

inductive Event where
  /-- `PushKey` -/
  | pushKey (c : UInt8)
  | pass (now : Int)
  /-- `Reset` sets `stopped_`. -/
  | reset
  deriving DecidableEq, Repr

def machine (n : Nat) : Machine (FakeAudioKeyTrigger n) Event Empty where
  enabled s
    | .pass _ => s.running = true
    | _ => True
  step s
    | .pushKey c => .ok { s with key := s.key.pushKey c }
    | .pass now => .ok (s.pass now).2
    | .reset => .ok { s with stopped := true }

instance (s : FakeAudioKeyTrigger n) : DecidablePred ((machine n).enabled s)
  | .pass _ => inferInstanceAs (Decidable (_ = true))
  | .pushKey _ | .reset => .isTrue trivial

/-- The keys that have been taken, and those that wait. -/
def received (s : FakeAudioKeyTrigger n) : List UInt8 := s.passes.filterMap KeyPass.key ++ s.key

/-- What has been posted. -/
def issued (s : FakeAudioKeyTrigger n) : List (KeyCommand n) :=
  s.passes.flatMap fun p => p.actions.filterMap KeyAction.command

end FakeAudioKeyTrigger
