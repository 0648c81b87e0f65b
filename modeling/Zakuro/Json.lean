import Mathlib.Data.Rat.Init

/-!
# JSON values

The value type of `boost::json`, with the three number kinds its parser
produces. An object keeps its members in order.
-/

inductive Json where
  | null : Json
  | bool : Bool → Json
  | int64 : Int → Json
  | uint64 : Nat → Json
  | double : ℚ → Json
  | string : String → Json
  | array : List Json → Json
  | object : List (String × Json) → Json

namespace Json

/-- `value.at(key)`: the member's value, or a throw when the value is no object
or has no such member. -/
def at? (key : String) : Json → Option Json
  | .object members => members.lookup key
  | _ => none

/-- `value.as_string()`, which throws on any other kind. -/
def asString? : Json → Option String
  | .string text => some text
  | _ => none

def isNumber : Json → Bool
  | .int64 _ | .uint64 _ | .double _ => true
  | _ => false

/-- `value_to<int>(value)`, which throws unless the value is a number that is
an `int`. -/
def asInt? (value : Json) : Option Int :=
  let exact : Option Int :=
    match value with
    | .int64 x => some x
    | .uint64 x => some x
    | .double q => if q.den = 1 then some q.num else none
    | _ => none
  exact.filter fun x => -2147483648 ≤ x && x ≤ 2147483647

theorem asInt?_range {value : Json} {x : Int} (h : value.asInt? = some x) :
    -2147483648 ≤ x ∧ x ≤ 2147483647 := by
  unfold asInt? at h
  rw [Option.filter_eq_some_iff] at h
  simpa using h.2

/-- `value_to<bool>(value)` -/
def asBool? : Json → Option Bool
  | .bool b => some b
  | _ => none

end Json
