import JsonSchema.Format.Registry
import JsonSchema.Schema.Basic
import JsonSchema.Validation.Violation

/-!
# Compiled schemas

A compiled schema is a list of checks, one for each keyword that can be violated. Checks that go on
to other schemas name them by their place in a table, so the compiled form of a cyclic graph is a
finite table.
-/

namespace JsonSchema

/-- The place of a compiled schema in its table. -/
structure ValidatorId where
  index : Nat
  deriving DecidableEq, Repr, Inhabited

/-- What a check demands of a value. -/
inductive Rule where
  | type (types : List InstanceType)
  | disallow (types : List InstanceType)
  | enum (values : List Json)
  | const (value : Json)
  | allOf (schemas : List ValidatorId)
  | anyOf (schemas : List ValidatorId)
  | oneOf (schemas : List ValidatorId)
  | not (schema : ValidatorId)
  | reference (target : ValidatorId)
  /-- The divisor as it is shown and as the fraction that its text stands for. -/
  | multipleOf (divisor : Json) (fraction : Rat)
  | minimum (limit : Limit)
  | maximum (limit : Limit)
  | minLength (least : Int)
  | maxLength (most : Int)
  | pattern (source : String) (search : String → Bool)
  | format (name : String) (test : FormatTest)
  | items (every : Option ValidatorId) (each : Option (List ValidatorId))
    (additional : Option ValidatorId) (forbidAdditional : Bool) (additionalPlace : String)
  | minItems (least : Int)
  | maxItems (most : Int)
  | uniqueItems
  | contains (schema : ValidatorId)
  /-- Schemas by name, and the names that must be there with the places that say so. -/
  | properties (schemas : List (String × ValidatorId)) (required : List (String × String))
  | patternProperties (schemas : List ((String → Bool) × ValidatorId))
  | additionalProperties (schema : ValidatorId) (forbid : Bool) (declared : List String)
    (patterns : List (String → Bool))
  | required (names : List String)
  | minProperties (least : Int)
  | maxProperties (most : Int)
  | propertyNames (schema : ValidatorId)
  | dependencies (names : List (String × List String)) (schemas : List (String × ValidatorId))
  | nothing
  /-- A keyword value of another kind than the keyword works with. -/
  | unfit (kind : KeywordKind)

/-- A rule of a keyword at a place of a schema; the rule of a schema that accepts nothing has no
keyword. -/
structure Check where
  keyword : Option Keyword
  location : String
  rule : Rule

/-- The key of the keyword of a check. -/
def Check.key (check : Check) : String :=
  (check.keyword.map (·.key)).getD ""

/-- A compiled schema, without checks as long as it is being compiled. -/
structure Validator where
  location : String
  checks : Option (List Check)

namespace Validator

/-- A compiled schema that is still without checks. -/
def unfilled (location : String) : Validator :=
  { location, checks := none }

/-- Gives a compiled schema its checks, which is possible once. -/
def fill (validator : Validator) (checks : List Check) : Except Fault Validator :=
  match validator.checks with
  | some _ => .error (.validatorFilled validator.location)
  | none => .ok { validator with checks := some checks }

/-- The checks of a compiled schema. -/
def checkList (validator : Validator) : List Check :=
  validator.checks.getD []

/-- A compiled schema in messages. -/
def text (validator : Validator) : String :=
  let keys := validator.checkList.map fun check => if check.key.isEmpty then "false" else check.key
  "SchemaValidator(" ++ validator.location ++ ": " ++ ", ".intercalate keys ++ ")"

end Validator

end JsonSchema
