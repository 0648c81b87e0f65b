import Zakuro.Attempt
import Zakuro.Json

/-!
# ParseDataChannels

How `Zakuro::Run` reads the value of `data-channels`: a list of objects whose
members are looked up one after the other. Some members are checked before they
are converted and some are not. The members that are erased on the way are not
looked up again, so they stay here.
-/

/-- A channel that the instance sends on. -/
structure DataChannel where
  label : String
  interval : Int
  sizeMin : Int
  sizeMax : Int
  deriving DecidableEq, Repr

/-- `sora::SoraSignalingConfig::DataChannel` -/
structure SignalingDataChannel where
  label : String
  direction : String
  ordered : Option Bool
  maxPacketLifeTime : Option Int
  maxRetransmits : Option Int
  protocol : Option String
  compress : Option Bool
  deriving DecidableEq, Repr

structure DataChannels where
  channels : List DataChannel := []
  schannels : List SignalingDataChannel := []
  deriving DecidableEq, Repr

namespace DataChannels

def messageSizeMin : Int := 48
def messageSizeMax : Int := 256 * 1000

abbrev Members := List (String × Json)

/-- A member that has to be there and to be a string. -/
def readString (member : Option Json) : Attempt String :=
  match member with
  | some (.string text) => .value text
  | _ => .refused

/-- A number that is checked to be one, converted, and then checked again. -/
def readNumber (accepted : Int → Bool) (default : Int) (member : Option Json) : Attempt Int :=
  match member with
  | none => .value default
  | some value =>
    if value.isNumber then
      match value.asInt? with
      | none => .thrown
      | some x => if accepted x then .value x else .refused
    else .refused

/-- A member that is converted without a check. -/
def readOptional {α : Type} (convert : Json → Option α) (member : Option Json) : Attempt (Option α) :=
  match member with
  | none => .value none
  | some value =>
    match convert value with
    | none => .thrown
    | some a => .value (some a)

def label (obj : Members) : Option Json := obj.lookup "label"
def direction (obj : Members) : Option Json := obj.lookup "direction"
def interval (obj : Members) : Option Json := obj.lookup "interval"
def sizeMin (obj : Members) : Option Json := (obj.lookup "size-min").or (obj.lookup "size_min")
def sizeMax (obj : Members) : Option Json := (obj.lookup "size-max").or (obj.lookup "size_max")

def readInterval (obj : Members) : Attempt Int := readNumber (fun x => !(x ≤ 0)) 500 (interval obj)

def sizeAllowed (x : Int) : Bool := !(x < messageSizeMin || x > messageSizeMax)

def readSizeMin (obj : Members) : Attempt Int := readNumber sizeAllowed messageSizeMin (sizeMin obj)

def readSizeMax (obj : Members) : Attempt Int := readNumber sizeAllowed messageSizeMin (sizeMax obj)

/-- One pass of the loop over the channels, for an object. -/
def readChannel (obj : Members) : Attempt (DataChannel × SignalingDataChannel) := do
  let label ← readString (label obj)
  let direction ← readString (direction obj)
  let interval ← readInterval obj
  let sizeMin ← readSizeMin obj
  let sizeMax ← readSizeMax obj
  let sizeMax := if sizeMin > sizeMax then sizeMin else sizeMax
  let ordered ← readOptional Json.asBool? (obj.lookup "ordered")
  let maxPacketLifeTime ← readOptional Json.asInt? (obj.lookup "max_packet_life_time")
  let maxRetransmits ← readOptional Json.asInt? (obj.lookup "max_retransmits")
  let protocol ← readOptional Json.asString? (obj.lookup "protocol")
  let compress ← readOptional Json.asBool? (obj.lookup "compress")
  pure (⟨label, interval, sizeMin, sizeMax⟩,
    ⟨label, direction, ordered, maxPacketLifeTime, maxRetransmits, protocol, compress⟩)

/-- The channels of a client that is to send. -/
def sends (direction : String) : Bool := direction == "sendonly" || direction == "sendrecv"

def add (m : DataChannels) (ch : DataChannel) (sch : SignalingDataChannel) : DataChannels where
  channels := if sends sch.direction then m.channels ++ [ch] else m.channels
  schannels := m.schannels ++ [sch]

def readChannels (m : DataChannels) : List Json → Attempt DataChannels
  | [] => .value m
  | .object obj :: js => do
    let r ← readChannel obj
    readChannels (m.add r.1 r.2) js
  | _ :: _ => .refused

/-- `ParseDataChannels`. The caller does not read what it leaves in `m` where it
returns false. -/
def parseDataChannels : Json → Attempt DataChannels
  | .array js => readChannels {} js
  | _ => .refused

/-- The data channels of `Run`, which returns 2 where they are refused. -/
def ofConfig : Json → Attempt DataChannels
  | .null => .value {}
  | value => parseDataChannels value

end DataChannels
