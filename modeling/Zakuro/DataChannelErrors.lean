import Zakuro.DataChannels

/-!
# Which data channels are reported

`ParseDataChannels` converts five members of a channel without a check, and the
numbers after a check that lets other numbers than `int` values pass. It throws
at the first of these that it comes to, so a value is reported, as accepted or
refused, exactly when every member before the first that is refused can be
converted.
-/

namespace DataChannels

open Attempt

/-! ## One member -/

/-- A number, where the member is one, is an `int`. -/
def NumberConverts (member : Option Json) : Prop :=
  ∀ value, member = some value → value.isNumber = true → value.asInt? ≠ none

def NumberAccepted (accepted : Int → Bool) (member : Option Json) : Prop :=
  ∀ value, member = some value →
    value.isNumber = true ∧ ∃ x, value.asInt? = some x ∧ accepted x = true

def StringAccepted (member : Option Json) : Prop := ∃ text, member = some (.string text)

/-- The member, where it is there, is of the kind it is converted to. -/
def OptionalConverts {α : Type} (convert : Json → Option α) (member : Option Json) : Prop :=
  ∀ value, member = some value → convert value ≠ none

theorem readString_ne_thrown (member : Option Json) : readString member ≠ .thrown ↔ True := by
  unfold readString
  split <;> simp

theorem readString_value (member : Option Json) :
    (∃ text, readString member = .value text) ↔ StringAccepted member := by
  unfold readString StringAccepted
  split
  next text => exact ⟨fun _ => ⟨text, rfl⟩, fun _ => ⟨text, rfl⟩⟩
  next hne =>
    constructor
    · exact fun ⟨_, h⟩ => nomatch h
    · exact fun ⟨text, h⟩ => absurd h (hne text)

theorem readNumber_ne_thrown (accepted : Int → Bool) (default : Int) (member : Option Json) :
    readNumber accepted default member ≠ .thrown ↔ NumberConverts member := by
  cases member with
  | none => simp [readNumber, NumberConverts]
  | some value =>
    simp only [readNumber, NumberConverts, Option.some.injEq, forall_eq']
    cases hn : value.isNumber with
    | false => simp
    | true =>
      cases hx : value.asInt? with
      | none => simp
      | some x => by_cases ha : accepted x <;> simp [ha]

theorem readNumber_value (accepted : Int → Bool) (default : Int) (member : Option Json) :
    (∃ x, readNumber accepted default member = .value x) ↔ NumberAccepted accepted member := by
  cases member with
  | none => simp [readNumber, NumberAccepted]
  | some value =>
    simp only [readNumber, NumberAccepted, Option.some.injEq, forall_eq']
    cases hn : value.isNumber with
    | false => simp
    | true =>
      cases hx : value.asInt? with
      | none => simp
      | some x => by_cases ha : accepted x <;> simp [ha]

section Optional

variable {α : Type} (convert : Json → Option α) (member : Option Json)

theorem readOptional_ne_thrown :
    readOptional convert member ≠ .thrown ↔ OptionalConverts convert member := by
  cases member with
  | none => simp [readOptional, OptionalConverts]
  | some value =>
    simp only [readOptional, OptionalConverts, Option.some.injEq, forall_eq']
    cases convert value <;> simp

theorem readOptional_value :
    (∃ a, readOptional convert member = .value a) ↔ OptionalConverts convert member := by
  cases member with
  | none => simp [readOptional, OptionalConverts]
  | some value =>
    simp only [readOptional, OptionalConverts, Option.some.injEq, forall_eq']
    cases convert value <;> simp

end Optional

/-! ## One channel -/

/-- For each member in the order in which they are read: that it can be
converted, and that it is accepted. -/
def steps (obj : Members) : List (Prop × Prop) :=
  [(True, StringAccepted (label obj)),
    (True, StringAccepted (direction obj)),
    (NumberConverts (interval obj), NumberAccepted (fun x => !(x ≤ 0)) (interval obj)),
    (NumberConverts (sizeMin obj), NumberAccepted sizeAllowed (sizeMin obj)),
    (NumberConverts (sizeMax obj), NumberAccepted sizeAllowed (sizeMax obj)),
    (OptionalConverts Json.asBool? (obj.lookup "ordered"),
      OptionalConverts Json.asBool? (obj.lookup "ordered")),
    (OptionalConverts Json.asInt? (obj.lookup "max_packet_life_time"),
      OptionalConverts Json.asInt? (obj.lookup "max_packet_life_time")),
    (OptionalConverts Json.asInt? (obj.lookup "max_retransmits"),
      OptionalConverts Json.asInt? (obj.lookup "max_retransmits")),
    (OptionalConverts Json.asString? (obj.lookup "protocol"),
      OptionalConverts Json.asString? (obj.lookup "protocol")),
    (OptionalConverts Json.asBool? (obj.lookup "compress"),
      OptionalConverts Json.asBool? (obj.lookup "compress"))]

theorem readChannel_ne_thrown (obj : Members) : readChannel obj ≠ .thrown ↔ InOrder (steps obj) := by
  rw [readChannel, steps]
  apply bind_inOrder (readString_ne_thrown _) (readString_value _)
  intro label
  apply bind_inOrder (readString_ne_thrown _) (readString_value _)
  intro direction
  apply bind_inOrder (readNumber_ne_thrown _ _ _) (readNumber_value _ _ _)
  intro interval
  apply bind_inOrder (readNumber_ne_thrown _ _ _) (readNumber_value _ _ _)
  intro sizeMin
  apply bind_inOrder (readNumber_ne_thrown _ _ _) (readNumber_value _ _ _)
  intro sizeMax
  apply bind_inOrder (readOptional_ne_thrown _ _) (readOptional_value _ _)
  intro ordered
  apply bind_inOrder (readOptional_ne_thrown _ _) (readOptional_value _ _)
  intro maxPacketLifeTime
  apply bind_inOrder (readOptional_ne_thrown _ _) (readOptional_value _ _)
  intro maxRetransmits
  apply bind_inOrder (readOptional_ne_thrown _ _) (readOptional_value _ _)
  intro protocol
  apply bind_inOrder (readOptional_ne_thrown _ _) (readOptional_value _ _)
  intro compress
  simp [InOrder, pure_eq]

theorem readChannel_value (obj : Members) :
    (∃ r, readChannel obj = .value r) ↔ Accepted (steps obj) := by
  rw [readChannel, steps]
  apply bind_accepted (readString_value _)
  intro label
  apply bind_accepted (readString_value _)
  intro direction
  apply bind_accepted (readNumber_value _ _ _)
  intro interval
  apply bind_accepted (readNumber_value _ _ _)
  intro sizeMin
  apply bind_accepted (readNumber_value _ _ _)
  intro sizeMax
  apply bind_accepted (readOptional_value _ _)
  intro ordered
  apply bind_accepted (readOptional_value _ _)
  intro maxPacketLifeTime
  apply bind_accepted (readOptional_value _ _)
  intro maxRetransmits
  apply bind_accepted (readOptional_value _ _)
  intro protocol
  apply bind_accepted (readOptional_value _ _)
  intro compress
  simp [Accepted, pure_eq]

/-! ## The list -/

/-- The two conditions for a whole channel. -/
def channelStep : Json → Prop × Prop
  | .object obj => (InOrder (steps obj), Accepted (steps obj))
  | _ => (True, False)

/-- Every member that is read before the first that is refused can be converted. -/
def Convertible : Json → Prop
  | .array js => InOrder (js.map channelStep)
  | _ => True

theorem readChannels_ne_thrown (m : DataChannels) (js : List Json) :
    readChannels m js ≠ .thrown ↔ InOrder (js.map channelStep) := by
  induction js generalizing m with
  | nil => simp [readChannels, InOrder]
  | cons j js ih =>
    cases j with
    | object obj =>
      rw [readChannels, List.map_cons, channelStep]
      exact bind_inOrder (readChannel_ne_thrown obj) (readChannel_value obj) fun r => ih _
    | _ => simp [readChannels, channelStep, InOrder]

/-- `ParseDataChannels` returns exactly where every conversion that it comes to
can be made. -/
theorem parseDataChannels_ne_thrown (value : Json) :
    parseDataChannels value ≠ .thrown ↔ Convertible value := by
  cases value with
  | array js => exact readChannels_ne_thrown {} js
  | _ => simp [parseDataChannels, Convertible]

/-- A channel whose `ordered` is a number ends the program. -/
theorem parseDataChannels_ordered_number :
    parseDataChannels (.array [.object [("label", .string "#a"), ("direction", .string "sendonly"),
      ("ordered", .int64 1)]]) = .thrown := by
  rfl

/-- So does an interval that is no whole number. -/
example : parseDataChannels (.array [.object [("label", .string "#a"), ("direction", .string "sendonly"),
    ("interval", .double (1 / 2))]]) = .thrown := by
  decide +kernel

end DataChannels
