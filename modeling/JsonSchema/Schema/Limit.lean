import JsonSchema.Fault
import JsonSchema.Json.Equality

/-!
# Limits

A limit is the bound of `minimum` or `maximum` together with what the exclusive keyword of the same
side says: since draft 6 a bound of its own, before that a flag that makes the one bound exclusive.
Numbers compare by exact value, whatever their kind. A truth value as a bound counts as zero or one;
comparing with anything else is a fault, and so is comparing a NaN with a decimal.
-/

namespace JsonSchema

/-- A bound and an exclusive bound, at least one of them; the flag makes the first exclusive too. -/
structure Limit where
  bound : Option Json
  exclusive : Bool
  exclusiveBound : Option Json

namespace Limit

/-- A limit with some bound, and with a bound under the flag if that is set. -/
def make (bound : Option Json) (exclusive : Bool) (exclusiveBound : Option Json) :
    Except Fault Limit :=
  if bound.isNone && exclusiveBound.isNone then .error .emptyLimit
  else if exclusive && bound.isNone then .error .flagWithoutBound
  else .ok { bound, exclusive, exclusiveBound }

/-- A comparison of a number with a bound, or the fault of one that does not compare. -/
def compare (operator : String) (test : Number → Number → Bool) (value : Number) (bound : Json) :
    Except Fault Bool :=
  match bound.plainNumber? with
  | some n => if value.compares n then .ok (test value n) else .error .invalidOperation
  | none => .error (.unordered operator (Json.number value).typeName bound.typeName)

/-- Whether a number is equal to a bound. -/
def meets (value : Number) (bound : Json) : Bool :=
  match bound.plainNumber? with
  | some n => value.equals n
  | none => false

/-- The first bound that a number violates, and whether it is exclusive. -/
def violation (strictOperator looseOperator : String) (beyond : Number → Number → Bool)
    (limit : Limit) (value : Number) : Except Fault (Option (Json × Bool)) := do
  if let some bound := limit.bound then
    let outside ← compare strictOperator beyond value bound
    if outside || (limit.exclusive && meets value bound) then return some (bound, limit.exclusive)
  if let some bound := limit.exclusiveBound then
    let outside ← compare looseOperator (fun x y => beyond x y || x.equals y) value bound
    if outside then return some (bound, true)
  return none

/-- The bound that a number falls below. -/
def lowerViolation : Limit → Number → Except Fault (Option (Json × Bool)) :=
  violation "<" "<=" Number.less

/-- The bound that a number exceeds. -/
def upperViolation : Limit → Number → Except Fault (Option (Json × Bool)) :=
  violation ">" ">=" fun x y => y.less x

end Limit

end JsonSchema
