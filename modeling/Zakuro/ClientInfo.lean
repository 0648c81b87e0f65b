import Zakuro.ScenarioData
import Zakuro.SteadyTimer

/-!
# ClientInfo

What a `ScenarioPlayer` keeps for one client, with the number of `OnNext`
handlers that are posted for it. What `Play`, `PauseAll`, `ResumeAll`, `Next`
and `DoNext` do to one client are functions on it. Members without an initial
value in the source are zero here; nothing runs for a client before its first
`Play` unless `ResumeAll` is called, and then `OnNext` finds no operation.
-/

structure ClientInfo where
  data : List Op := []
  opIndex : Nat := 0
  loopOpIndex : Nat := 0
  timer : SteadyTimer := {}
  paused : Bool := false
  exit : Bool := false
  /-- The posted `OnNext` handlers of this client that have not run. -/
  posted : Nat := 0

namespace ClientInfo

/-- `info.data.ops[info.op_index]` -/
def current (c : ClientInfo) : Option Op := c.data[c.opIndex]?

def doNext (c : ClientInfo) : ClientInfo := { c with posted := c.posted + 1 }

def next (c : ClientInfo) : ClientInfo :=
  if c.paused then c
  else if c.opIndex + 1 = c.data.length then doNext { c with opIndex := c.loopOpIndex }
  else doNext { c with opIndex := c.opIndex + 1 }

/-- The guard of `Play` on its data and loop index. -/
def Playable (data : List Op) (loopOpIndex : Int) : Prop :=
  data ≠ [] ∧ 0 ≤ loopOpIndex ∧ loopOpIndex < data.length

instance (data : List Op) (loopOpIndex : Int) : Decidable (Playable data loopOpIndex) :=
  decidable_of_iff (data.isEmpty = false ∧ 0 ≤ loopOpIndex ∧ loopOpIndex < data.length) (by
    simp [Playable])

def play (data : List Op) (loopOpIndex : Int) (c : ClientInfo) : ClientInfo :=
  if Playable data loopOpIndex then
    doNext { c with
      data := data
      opIndex := 0
      loopOpIndex := loopOpIndex.toNat
      timer := c.timer.cancel
      paused := false
      exit := false }
  else c

def pause (c : ClientInfo) : ClientInfo := { c with timer := c.timer.cancel, paused := true }

def resume (c : ClientInfo) : ClientInfo := doNext { c with paused := false }

/-- A posted `OnNext` leaves the queue to run. -/
def takePosted (c : ClientInfo) : ClientInfo := { c with posted := c.posted - 1 }

/-- `OP_SLEEP` -/
def sleep (ms : Int) (c : ClientInfo) : ClientInfo :=
  { c with timer := (c.timer.expiresAfter ms).asyncWait }

/-- The handlers that will go on with the client: posted ones, outstanding
waits, and waits that have ended without an error. -/
def pending (c : ClientInfo) : Nat := c.posted + c.timer.waiting + c.timer.ready

/-- All but the `exit` flag, which only the callbacks of `OP_EXIT` set. -/
def control (c : ClientInfo) : ClientInfo := { c with exit := false }

/-! ## One client on its own -/

/-- What can happen to one client of one player. -/
inductive Event where
  | play (data : List Op) (loopOpIndex : Int)
  /-- `OnNext` runs; the duration is for `OP_SLEEP`. -/
  | onNext (ms : Int)
  | sleepExpired
  | sleepReady
  | sleepAborted
  | pause
  | resume

/-- `OnNext`, as far as it is about the client's own place in its program. -/
def onNext (ms : Int) (c : ClientInfo) : ClientInfo :=
  match c.current with
  | none => c
  | some (.sleep _ _) => c.takePosted.sleep ms
  | some _ => c.takePosted.next

def step (c : ClientInfo) : Event → ClientInfo
  | .play data loopOpIndex => c.play data loopOpIndex
  | .onNext ms => c.onNext ms
  | .sleepExpired => { c with timer := c.timer.expire }
  | .sleepReady => next { c with timer := c.timer.takeReady }
  | .sleepAborted => { c with timer := c.timer.takeAborted }
  | .pause => c.pause
  | .resume => c.resume

def Enabled (c : ClientInfo) : Event → Prop
  | .onNext _ => 0 < c.posted ∧ c.current.isSome
  | .sleepExpired => 0 < c.timer.waiting
  | .sleepReady => 0 < c.timer.ready
  | .sleepAborted => 0 < c.timer.aborted
  | _ => True

/-! ## `Next` and `OnNext` -/

theorem next_of_running {c : ClientInfo} (hp : c.paused = false) :
    c.next.posted = c.posted + 1 ∧ c.next.timer = c.timer ∧ c.next.paused = false := by
  rw [next, if_neg (by simp [hp])]
  split <;> exact ⟨rfl, rfl, hp⟩

theorem next_of_paused {c : ClientInfo} (hp : c.paused = true) : c.next = c := by
  rw [next, if_pos hp]

theorem next_of_end {c : ClientInfo} (hp : c.paused = false) (hend : c.opIndex + 1 = c.data.length) :
    c.next = doNext { c with opIndex := c.loopOpIndex } := by
  rw [next, if_neg (by simp [hp]), if_pos hend]

theorem onNext_of_awake {c : ClientInfo} {op : Op} (h : c.current = some op)
    (hsleep : op.isSleep = false) (ms : Int) : c.onNext ms = c.takePosted.next := by
  rw [onNext, h]
  cases op with
  | sleep minTimeMs maxTimeMs => simp [Op.isSleep] at hsleep
  | _ => rfl

theorem onNext_of_asleep {c : ClientInfo} {op : Op} (h : c.current = some op)
    (hsleep : op.isSleep = true) (ms : Int) : c.onNext ms = c.takePosted.sleep ms := by
  rw [onNext, h]
  cases op with
  | sleep minTimeMs maxTimeMs => rfl
  | _ => simp [Op.isSleep] at hsleep

/-- Only `PauseAll` pauses. -/
theorem paused_step {c : ClientInfo} (h : c.paused = false) {e : Event} (he : e ≠ .pause) :
    (c.step e).paused = false := by
  have hnext : ∀ d : ClientInfo, d.paused = false → d.next.paused = false :=
    fun d hd => (next_of_running hd).2.2
  cases e with
  | pause => exact absurd rfl he
  | play data l =>
    rw [step, play]
    split
    · rfl
    · exact h
  | onNext ms =>
    rw [step, onNext]
    split
    · exact h
    · exact h
    · exact hnext _ h
  | sleepReady => exact hnext _ h
  | resume => rfl
  | _ => exact h

/-! ## The handlers that go on with a client -/

theorem pending_of_posted {c : ClientInfo} (h : 0 < c.posted) : c.pending ≠ 0 := by
  rw [pending]
  omega

theorem pending_next_le (c : ClientInfo) : c.next.pending ≤ c.pending + 1 := by
  cases hp : c.paused with
  | true =>
    rw [next_of_paused hp]
    exact Nat.le_succ _
  | false =>
    obtain ⟨hposted, htimer, -⟩ := next_of_running hp
    rw [pending, pending, hposted, htimer]
    omega

theorem pending_sleep_le (ms : Int) (c : ClientInfo) : (c.sleep ms).pending ≤ c.pending + 1 := by
  simp only [pending, sleep, SteadyTimer.asyncWait_waiting, SteadyTimer.asyncWait_ready,
    SteadyTimer.expiresAfter_waiting, SteadyTimer.expiresAfter_ready]
  omega

theorem pending_takePosted {c : ClientInfo} (h : 0 < c.posted) : c.takePosted.pending + 1 = c.pending := by
  simp only [pending, takePosted]
  omega

theorem pending_pause_le (c : ClientInfo) : c.pause.pending ≤ c.pending := by
  simp only [pending, pause, SteadyTimer.cancel_waiting, SteadyTimer.cancel_ready]
  omega

theorem pending_resume (c : ClientInfo) : c.resume.pending = c.pending + 1 := by
  simp only [pending, resume, doNext]
  omega

theorem pending_onNext_le {c : ClientInfo} (h : 0 < c.posted) (ms : Int) :
    (c.onNext ms).pending ≤ c.pending := by
  have htaken := pending_takePosted h
  have hsleep := pending_sleep_le ms c.takePosted
  have hnext := pending_next_le c.takePosted
  rw [onNext]
  split
  · exact Nat.le_refl _
  · omega
  · omega

theorem pending_sleepReady_le {c : ClientInfo} (h : 0 < c.timer.ready) :
    (c.step .sleepReady).pending ≤ c.pending := by
  have hnext := pending_next_le { c with timer := c.timer.takeReady }
  simp only [pending, SteadyTimer.takeReady_waiting, SteadyTimer.takeReady_ready] at hnext ⊢
  rw [step]
  omega

/-- Only `Play` and `ResumeAll` add a continuation to those of a client. -/
theorem pending_step_le {c : ClientInfo} {e : Event} (he : c.Enabled e)
    (hplay : ∀ data l, e ≠ .play data l) (hresume : e ≠ .resume) : (c.step e).pending ≤ c.pending := by
  cases e with
  | play data l => exact absurd rfl (hplay data l)
  | resume => exact absurd rfl hresume
  | onNext ms => exact pending_onNext_le he.1 ms
  | sleepReady => exact pending_sleepReady_le he
  | sleepAborted => exact Nat.le_refl _
  | pause => exact pending_pause_le c
  | sleepExpired =>
    simp only [step, pending, SteadyTimer.expire_waiting, SteadyTimer.expire_ready]
    omega

/-- Only `PauseAll` takes the last one away. -/
theorem pending_step_pos {c : ClientInfo} {e : Event} (he : c.Enabled e) (hrunning : c.paused = false)
    (hpause : e ≠ .pause) (h : c.pending ≠ 0) : (c.step e).pending ≠ 0 := by
  have hnext : ∀ d : ClientInfo, d.paused = false → d.next.pending ≠ 0 := by
    intro d hd
    apply pending_of_posted
    rw [(next_of_running hd).1]
    exact Nat.succ_pos _
  cases e with
  | pause => exact absurd rfl hpause
  | play data l =>
    rw [step, play]
    split
    · exact pending_of_posted (Nat.succ_pos _)
    · exact h
  | onNext ms =>
    rw [step, onNext]
    split
    · exact h
    · simp only [pending, sleep, SteadyTimer.asyncWait_waiting]
      omega
    · exact hnext _ hrunning
  | sleepReady => exact hnext _ hrunning
  | sleepAborted => exact h
  | resume => exact pending_of_posted (Nat.succ_pos _)
  | sleepExpired =>
    have hwaiting : 0 < c.timer.waiting := he
    simp only [step, pending, SteadyTimer.expire_waiting, SteadyTimer.expire_ready]
    omega

/-- Without a continuation nothing but a call happens to a client. -/
theorem not_enabled_of_pending {c : ClientInfo} (h : c.pending = 0) :
    (∀ ms, ¬ c.Enabled (.onNext ms)) ∧ ¬ c.Enabled .sleepExpired ∧ ¬ c.Enabled .sleepReady := by
  rw [pending] at h
  refine ⟨fun ms he => ?_, fun he => ?_, fun he => ?_⟩
  · have hposted : 0 < c.posted := he.1
    omega
  · have hwaiting : 0 < c.timer.waiting := he
    omega
  · have hready : 0 < c.timer.ready := he
    omega

end ClientInfo
