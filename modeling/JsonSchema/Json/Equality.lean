import JsonSchema.Json.Basic

/-!
# Equality of JSON values

`Json.equals` is equality of JSON values: numbers compare by value, truth values are no numbers, and
the order of members does not matter. `Json.freeze?` gives the form under which values are put into
tables; two forms are the same when their objects have the same set of frozen members. The two
notions agree on all values without NaN. `Json.coincides` is the coarser equality of plain values,
in which truth values are the numbers zero and one.
-/

namespace JsonSchema

namespace Json

mutual

/-- Equality of JSON values. -/
def equals : Json → Json → Bool
  | .null, .null => true
  | .bool a, .bool b => a = b
  | .number a, .number b => a.equals b
  | .string a, .string b => a = b
  | .array xs, .array ys => equalItems xs ys
  | .object xs, .object ys => xs.length = ys.length && membersIn xs ys
  | .bytes a, .bytes b => a = b
  | _, _ => false

/-- Equality of lists of values, position by position. -/
def equalItems : List Json → List Json → Bool
  | [], [] => true
  | x :: xs, y :: ys => equals x y && equalItems xs ys
  | _, _ => false

/-- Whether each member has an equal one of its name among the others. -/
def membersIn : List (String × Json) → List (String × Json) → Bool
  | [], _ => true
  | (name, x) :: xs, ys =>
    (match ys.lookup name with
      | some y => equals x y
      | none => false) && membersIn xs ys

end

/-- The number that a value is, truth values counted as zero and one. -/
def plainNumber? : Json → Option Number
  | .number n => some n
  | .bool b => some (.int (if b then 1 else 0))
  | _ => none

mutual

/-- Equality of plain values. -/
def coincides : Json → Json → Bool
  | .null, .null => true
  | .string a, .string b => a = b
  | .array xs, .array ys => coincideItems xs ys
  | .object xs, .object ys => xs.length = ys.length && coincideMembers xs ys
  | .bytes a, .bytes b => a = b
  | x, y =>
    match plainNumber? x, plainNumber? y with
    | some a, some b => a.equals b
    | _, _ => false

/-- Equality of lists of plain values, position by position. -/
def coincideItems : List Json → List Json → Bool
  | [], [] => true
  | x :: xs, y :: ys => coincides x y && coincideItems xs ys
  | _, _ => false

/-- Whether each member coincides with the one of its name among the others. -/
def coincideMembers : List (String × Json) → List (String × Json) → Bool
  | [], _ => true
  | (name, x) :: xs, ys =>
    (match ys.lookup name with
      | some y => coincides x y
      | none => false) && coincideMembers xs ys

end

end Json

/-- A value in the form in which tables hold it. -/
inductive Frozen where
  | literal (value : Option Bool)
  | number (value : Number)
  | string (value : String)
  | array (items : List Frozen)
  | object (members : List (String × Frozen))

namespace Frozen

mutual

/-- Sameness of frozen values: objects are sets of members. -/
def same : Frozen → Frozen → Bool
  | .literal a, .literal b => a = b
  | .number a, .number b => a.equals b
  | .string a, .string b => a = b
  | .array xs, .array ys => sameItems xs ys
  | .object xs, .object ys => xs.length = ys.length && subset xs ys
  | _, _ => false

/-- Sameness position by position. -/
def sameItems : List Frozen → List Frozen → Bool
  | [], [] => true
  | x :: xs, y :: ys => same x y && sameItems xs ys
  | _, _ => false

/-- Whether each member is the same as some member of the other set. -/
def subset : List (String × Frozen) → List (String × Frozen) → Bool
  | [], _ => true
  | (name, x) :: xs, ys => (ys.any fun (other, y) => other = name && same x y) && subset xs ys

end

end Frozen

namespace Json

mutual

/-- The frozen form of a JSON value; a value that holds a byte string has none. -/
def freeze? : Json → Option Frozen
  | .null => some (.literal none)
  | .bool b => some (.literal (some b))
  | .number n => some (.number n)
  | .string s => some (.string s)
  | .array items => (freezeItems? items).map .array
  | .object members => (freezeMembers? members).map .object
  | .bytes _ => none

/-- The frozen forms of a list of items. -/
def freezeItems? : List Json → Option (List Frozen)
  | [] => some []
  | item :: rest => do
    let frozen ← freeze? item
    let others ← freezeItems? rest
    return frozen :: others

/-- The frozen forms of a list of members. -/
def freezeMembers? : List (String × Json) → Option (List (String × Frozen))
  | [] => some []
  | (name, value) :: rest => do
    let frozen ← freeze? value
    let others ← freezeMembers? rest
    return (name, frozen) :: others

end

end Json

end JsonSchema
