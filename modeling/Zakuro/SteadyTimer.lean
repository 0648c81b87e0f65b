/-!
# Waiting on a steady timer

What a single-threaded `io_context` knows of one `boost::asio::steady_timer`:
how many waits are outstanding, and how many handlers it has already queued,
without an error or with `operation_aborted`. Setting a new expiry or
cancelling aborts the outstanding waits, but a handler that was queued when the
timer expired stays queued and runs without an error.
-/

structure SteadyTimer where
  /-- The duration last given to `expires_after`, in milliseconds. -/
  duration : Int := 0
  waiting : Nat := 0
  ready : Nat := 0
  aborted : Nat := 0
  deriving DecidableEq, Repr

namespace SteadyTimer

def cancel (t : SteadyTimer) : SteadyTimer :=
  { t with waiting := 0, aborted := t.aborted + t.waiting }

def expiresAfter (t : SteadyTimer) (ms : Int) : SteadyTimer := { t.cancel with duration := ms }

def asyncWait (t : SteadyTimer) : SteadyTimer := { t with waiting := t.waiting + 1 }

/-- The expiry passes: every outstanding wait completes without an error. -/
def expire (t : SteadyTimer) : SteadyTimer :=
  { t with waiting := 0, ready := t.ready + t.waiting }

/-- A handler queued without an error leaves the queue to run. -/
def takeReady (t : SteadyTimer) : SteadyTimer := { t with ready := t.ready - 1 }

/-- A handler queued with `operation_aborted` leaves the queue to run. -/
def takeAborted (t : SteadyTimer) : SteadyTimer := { t with aborted := t.aborted - 1 }

@[simp] theorem cancel_waiting (t : SteadyTimer) : t.cancel.waiting = 0 := rfl
@[simp] theorem cancel_ready (t : SteadyTimer) : t.cancel.ready = t.ready := rfl
@[simp] theorem expiresAfter_waiting (t : SteadyTimer) (ms : Int) :
    (t.expiresAfter ms).waiting = 0 := rfl
@[simp] theorem expiresAfter_ready (t : SteadyTimer) (ms : Int) :
    (t.expiresAfter ms).ready = t.ready := rfl
@[simp] theorem asyncWait_waiting (t : SteadyTimer) : t.asyncWait.waiting = t.waiting + 1 := rfl
@[simp] theorem asyncWait_ready (t : SteadyTimer) : t.asyncWait.ready = t.ready := rfl
@[simp] theorem expire_waiting (t : SteadyTimer) : t.expire.waiting = 0 := rfl
@[simp] theorem expire_ready (t : SteadyTimer) : t.expire.ready = t.ready + t.waiting := rfl
@[simp] theorem takeReady_waiting (t : SteadyTimer) : t.takeReady.waiting = t.waiting := rfl
@[simp] theorem takeReady_ready (t : SteadyTimer) : t.takeReady.ready = t.ready - 1 := rfl
@[simp] theorem takeAborted_waiting (t : SteadyTimer) : t.takeAborted.waiting = t.waiting := rfl
@[simp] theorem takeAborted_ready (t : SteadyTimer) : t.takeAborted.ready = t.ready := rfl

end SteadyTimer
