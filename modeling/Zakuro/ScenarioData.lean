import Zakuro.CData

/-!
# Scenarios

The operations of a scenario and the values they compute without touching a
client: how long `OP_SLEEP` waits, and the message that
`OP_SEND_DATA_CHANNEL_MESSAGE` sends, with the pool its random part is from.
-/

open CData

/-- `ScenarioData::operation_t`. The data of a sub-scenario is its list of
operations. -/
inductive Op where
  | sleep (minTimeMs maxTimeMs : Int)
  | playSubScenario (name : String) (data : List Op) (loopOpIndex : Int)
  | playVoiceNumberClient
  | sendDataChannelMessage (label : String) (minSize maxSize : Int)
  | disconnect
  | reconnect
  | exit

namespace Op

def isSleep : Op → Bool
  | .sleep _ _ => true
  | _ => false

/-- `engine_() % (max_time_ms - min_time_ms + 1) + min_time_ms`, an `unsigned
long`, as the `rep` of `std::chrono::milliseconds`; `none` for a division by
zero. -/
def sleepMs (rand : Nat) (minTimeMs maxTimeMs : Int) : Option Int :=
  let range := toSize (toInt (maxTimeMs - minTimeMs + 1))
  if range = 0 then none else some (toInt64 ((rand % range : Nat) + minTimeMs))

theorem sleepMs_fixed (rand : Nat) (ms : Int) : ∃ d, sleepMs rand ms ms = some d := by
  have h : toSize (toInt (ms - ms + 1)) = 1 := by
    rw [Int.sub_self]
    decide
  exact ⟨_, by rw [sleepMs, h, if_neg (by decide)]⟩

end Op

/-! ## The binary pool -/

structure BinaryPool where
  bytes : List UInt8
  nonempty : 0 < bytes.length

namespace BinaryPool

/-- The loop of `Get`: the bytes from `pos` on, from the first byte again behind
the last. -/
def copy (pool : BinaryPool) (pos size : Nat) : List UInt8 :=
  if size = 0 then []
  else
    let start := pos % pool.bytes.length
    let n := min size (pool.bytes.length - start)
    (pool.bytes.drop start).take n ++ copy pool (pos + n) (size - n)
termination_by size
decreasing_by
  have hstart := Nat.mod_lt pos pool.nonempty
  omega

/-- `Get` with the numbers that it draws. A negative size is too much for
`reserve`, which throws. -/
def get (pool : BinaryPool) (size : Int) (pos : Nat) : Option (List UInt8) :=
  if size < 0 then none else some (pool.copy pos size.toNat)

end BinaryPool

/-! ## DataChannel messages -/

/-- The eight bytes of a number, the highest first. -/
def bigEndian (x : UInt64) : List UInt8 :=
  (List.range 8).map fun i => (x >>> (UInt64.ofNat ((7 - i) * 8)) &&& 0xff).toUInt8

/-- Assignments of bytes to a buffer from a place on. -/
def putBytes (buf : List UInt8) (p : Nat) : List UInt8 → List UInt8
  | [] => buf
  | b :: bytes => putBytes (buf.set p b) (p + 1) bytes

/-- `buf`, the 48 bytes before the random part. The source casts the size of the id
to an `int`, which changes no size below 2 GiB. -/
def messageBuffer (time counter : UInt64) (connectionId : List UInt8) : List UInt8 :=
  let buf := asciiBytes "ZAKURO" ++ List.replicate 42 0
  let buf := putBytes buf 6 (bigEndian time)
  let buf := putBytes buf 14 (bigEndian counter)
  putBytes buf 22 (connectionId.take (min connectionId.length 26))
