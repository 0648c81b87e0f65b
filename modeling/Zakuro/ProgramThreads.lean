import Mathlib.Algebra.BigOperators.Fin
import Zakuro.ConnectionStats
import Zakuro.Progress
import Zakuro.Projection

/-!
# The threads of the program

`main` starts a thread that writes the stats file and one thread for each
instance, and joins them all. The threads share a mutex, a condition variable and
a count of the instances that have not returned. Here each of them takes its
steps by itself; between two steps of one thread the others take theirs.
-/

/-- Where the thread of an instance is. -/
inductive InstanceThread where
  /-- Not yet started, or in its `sleep_for`. -/
  | hatching
  | running
  /-- `Run` has returned; the thread is about to lock the mutex. -/
  | returned
  | holding
  /-- It has counted itself and still holds the mutex. -/
  | counted
  | done
  deriving DecidableEq, Repr

/-- Where the stats thread is. -/
inductive StatsThread where
  /-- There is no file to write, and no thread. -/
  | absent
  | top
  /-- It holds the mutex and is about to evaluate the predicate of `wait_for`,
  after a timeout or not. -/
  | test (timedOut : Bool)
  | asleep
  | woken (timedOut : Bool)
  /-- It is about to take the stats and to write them. -/
  | snapshot
  | writing (report : Json)
  /-- The mutex is about to go out of scope, at a `break` or at the end of the loop. -/
  | unlocking (exits : Bool)
  | exited

/-- What `notify_all` does: a thread that does not wait takes no notice of it. -/
def StatsThread.notified : StatsThread → StatsThread
  | .asleep => .woken false
  | t => t

/-- The owner of the mutex. -/
inductive ThreadId (m : Nat) where
  | zakuro (i : Fin m)
  | stats
  deriving DecidableEq, Repr

variable {m : Nat} {size : Fin m → Nat}

structure Program (size : Fin m → Nat) where
  fleet : Fleet size
  owner : Option (ThreadId m) := none
  /-- `stats_countdown` -/
  countdown : Int := m
  instances : Fin m → InstanceThread := fun _ => .hatching
  statsThread : StatsThread
  /-- The number of instance threads that have been joined. -/
  joined : Nat := 0
  mainReturned : Bool := false

namespace Program

inductive Event (size : Fin m → Nat) where
  | hatch (i : Fin m)
  | run (i : Fin m) (e : World.Event (size i))
  | statsTimer (i : Fin m) (sdk : Fin (size i) → SignalingStats) (now : Nat)
  | leave (i : Fin m)
  | lock (i : Fin m)
  /-- `if (--stats_countdown == 0) stats_cv.notify_all()` -/
  | count (i : Fin m)
  | unlock (i : Fin m)
  | statsLock
  | statsTest
  /-- The wait ends, at the timeout or for no reason. -/
  | wake (timedOut : Bool)
  | statsGet
  | statsWrite
  | statsUnlock
  | joinInstance
  | joinStats

def Event.isWake : Event size → Bool
  | .wake _ => true
  | _ => false

def Enabled (cfg : Fin m → InstanceConfig) (s : Program size) : Event size → Prop
  | .hatch i => s.instances i = .hatching
  | .run i e => s.instances i = .running ∧ (World.machine (cfg i).env).enabled (s.fleet.instances i) e
  | .statsTimer i _ _ => s.instances i = .running ∧ (s.fleet.instances i).stopped = false
  | .leave i => s.instances i = .running
  | .lock i => s.instances i = .returned ∧ s.owner = none
  | .count i => s.instances i = .holding
  | .unlock i => s.instances i = .counted
  | .statsLock => (s.statsThread = .top ∨ ∃ b, s.statsThread = .woken b) ∧ s.owner = none
  | .statsTest => ∃ b, s.statsThread = .test b
  | .wake _ => s.statsThread = .asleep
  | .statsGet => s.statsThread = .snapshot
  | .statsWrite => ∃ r, s.statsThread = .writing r
  | .statsUnlock => ∃ b, s.statsThread = .unlocking b
  | .joinInstance => ∃ h : s.joined < m, s.instances ⟨s.joined, h⟩ = .done
  | .joinStats =>
    s.joined = m ∧ (s.statsThread = .exited ∨ s.statsThread = .absent) ∧ s.mainReturned = false

def moveTo (s : Program size) (i : Fin m) (t : InstanceThread) : Program size :=
  { s with instances := Function.update s.instances i t }

/-- A step of an instance itself. -/
def fleetStep (cfg : Fin m → InstanceConfig) (s : Program size) (e : Fleet.Event size) :
    Except ScenarioPlayer.Fault (Program size) :=
  (Fleet.step cfg s.fleet e).map fun fleet => { s with fleet := fleet }

def count (s : Program size) (i : Fin m) : Program size :=
  { s.moveTo i .counted with
    fleet := { s.fleet with returned := Function.update s.fleet.returned i true }
    countdown := s.countdown - 1
    statsThread := if s.countdown - 1 = 0 then s.statsThread.notified else s.statsThread }

def statsLock (s : Program size) : Program size :=
  { s with
    owner := some .stats
    statsThread := match s.statsThread with
      | .woken timedOut => .test timedOut
      | _ => .test false }

/-- The predicate of `wait_for`. Waiting gives the mutex back. -/
def statsTest (s : Program size) : Program size :=
  match s.statsThread with
  | .test timedOut =>
    if s.countdown = 0 then { s with statsThread := .unlocking true }
    else if timedOut then { s with statsThread := .snapshot }
    else { s with statsThread := .asleep, owner := none }
  | _ => s

def statsWrite (s : Program size) : Program size :=
  match s.statsThread with
  | .writing report =>
    { s with fleet := { s.fleet with file := some report }, statsThread := .unlocking false }
  | _ => s

def statsUnlock (s : Program size) : Program size :=
  match s.statsThread with
  | .unlocking exits => { s with owner := none, statsThread := if exits then .exited else .top }
  | _ => s

def step (cfg : Fin m → InstanceConfig) (s : Program size) :
    Event size → Except ScenarioPlayer.Fault (Program size)
  | .hatch i => .ok (s.moveTo i .running)
  | .run i e => s.fleetStep cfg (.run i e)
  | .statsTimer i sdk now => s.fleetStep cfg (.statsTimer i sdk now)
  | .leave i => .ok (s.moveTo i .returned)
  | .lock i => .ok { s.moveTo i .holding with owner := some (.zakuro i) }
  | .count i => .ok (s.count i)
  | .unlock i => .ok { s.moveTo i .done with owner := none }
  | .statsLock => .ok s.statsLock
  | .statsTest => .ok s.statsTest
  | .wake timedOut => .ok { s with statsThread := .woken timedOut }
  | .statsGet => .ok { s with statsThread := .writing (ZakuroStats.connectionReport s.fleet.stats.get) }
  | .statsWrite => .ok s.statsWrite
  | .statsUnlock => .ok s.statsUnlock
  | .joinInstance => .ok { s with joined := s.joined + 1 }
  | .joinStats => .ok { s with mainReturned := true }

def machine (cfg : Fin m → InstanceConfig) : Machine (Program size) (Event size) ScenarioPlayer.Fault where
  enabled := Enabled cfg
  step := step cfg

/-- `main` when its threads are started. -/
def start (fleet : Fleet size) (statsFile : Bool) : Program size where
  fleet := fleet
  statsThread := if statsFile then .top else .absent

end Program
