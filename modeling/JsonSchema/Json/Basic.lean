import JsonSchema.Members
import JsonSchema.Number
import JsonSchema.Text.Utf8

/-!
# JSON values

Schema documents and instances are values of one type. Objects keep the order of their members,
which decides the order of everything reported about them. Besides JSON itself an instance may hold
a byte string, which is no JSON value and has no shape.
-/

namespace JsonSchema

/-- A document or an instance. -/
inductive Json where
  | null
  | bool (value : Bool)
  | number (value : Number)
  | string (value : String)
  | array (items : List Json)
  | object (members : List (String × Json))
  /-- A byte string, which no JSON text can hold. -/
  | bytes (text : String)
  deriving Inhabited

/-- The shapes of JSON values. -/
inductive Shape where
  | object | array | string | number | boolean | null
  deriving DecidableEq, Repr, Inhabited

/-- The instance types that schemas name; an integer is a number without a fractional part. -/
inductive InstanceType where
  | null | boolean | object | array | number | integer | string
  deriving DecidableEq, Repr, Inhabited

namespace Shape

/-- Every shape. -/
def all : List Shape := [.object, .array, .string, .number, .boolean, .null]

/-- The name of a shape. -/
def name : Shape → String
  | .object => "object"
  | .array => "array"
  | .string => "string"
  | .number => "number"
  | .boolean => "boolean"
  | .null => "null"

/-- The shape with a name. -/
def ofName? (name : String) : Option Shape :=
  all.find? (·.name = name)

/-- The names of a set of shapes in alphabetical order. -/
def sortedNames (shapes : List Shape) : List String :=
  ["array", "boolean", "null", "number", "object", "string"].filter fun n => shapes.any (·.name = n)

end Shape

namespace InstanceType

/-- Every instance type. -/
def all : List InstanceType := [.null, .boolean, .object, .array, .number, .integer, .string]

/-- The name of an instance type. -/
def name : InstanceType → String
  | .null => "null"
  | .boolean => "boolean"
  | .object => "object"
  | .array => "array"
  | .number => "number"
  | .integer => "integer"
  | .string => "string"

/-- The instance type with a name. -/
def ofName? (name : String) : Option InstanceType :=
  all.find? (·.name = name)

/-- The names of a set of types in alphabetical order. -/
def sortedNames (types : List InstanceType) : List String :=
  ["array", "boolean", "integer", "null", "number", "object", "string"].filter fun n =>
    types.any (·.name = n)

/-- Whether a set of types admits a type; `number` admits integers. -/
def admittedBy (type : InstanceType) (types : List InstanceType) : Bool :=
  types.contains type || (type = .integer && types.contains .number)

end InstanceType

namespace Json

/-- The value of the member with the given name. -/
def member? (name : String) : Json → Option Json
  | .object members => members.lookup name
  | _ => none

/-- Whether a value is a number of any kind. -/
def isNumber : Json → Bool
  | .number _ => true
  | _ => false

/-- Whether a value is a number without a fractional part. -/
def isIntegral : Json → Bool
  | .number n => n.isIntegral
  | _ => false

/-- The shape of a value; a byte string has none. -/
def shape? : Json → Option Shape
  | .null => some .null
  | .bool _ => some .boolean
  | .number _ => some .number
  | .string _ => some .string
  | .array _ => some .array
  | .object _ => some .object
  | .bytes _ => none

/-- The instance type of a value; a byte string has none. -/
def instanceType? : Json → Option InstanceType
  | .null => some .null
  | .bool _ => some .boolean
  | .number n => some (if n.isIntegral then .integer else .number)
  | .string _ => some .string
  | .array _ => some .array
  | .object _ => some .object
  | .bytes _ => none

/-- Whether a value counts as true: it is not null, zero or empty. -/
def isTruthy : Json → Bool
  | .null => false
  | .bool b => b
  | .number n => !n.equals (.int 0)
  | .string text => !text.isEmpty
  | .array items => !items.isEmpty
  | .object members => !members.isEmpty
  | .bytes text => !text.isEmpty

/-- The name of the kind of value that messages give for what should have been something else. -/
def typeName : Json → String
  | .null => "NoneType"
  | .bool _ => "bool"
  | .number (.int _) => "int"
  | .number (.double _) => "float"
  | .number (.decimal _) => "Decimal"
  | .string _ => "str"
  | .array _ => "list"
  | .object _ => "dict"
  | .bytes _ => "bytes"

/-- The shape of a value, or its type name if it is no JSON value. -/
def shapeName (value : Json) : String :=
  match value.shape? with
  | some shape => shape.name
  | none => value.typeName

/-- The characters of a text, as texts. -/
def characters (text : String) : List Json :=
  text.toList.map fun c => .string (String.singleton c)

/-- The numbers of the bytes of a text. -/
def byteNumbers (text : String) : List Json :=
  (text.toList.flatMap Text.utf8Bytes).map fun (byte : Nat) => .number (.int byte)

mutual

/-- The number of values in a value, itself included. -/
def size : Json → Nat
  | .array items => 1 + sizeOfItems items
  | .object members => 1 + sizeOfMembers members
  | _ => 1

/-- The number of values in a list of items. -/
def sizeOfItems : List Json → Nat
  | [] => 0
  | item :: rest => size item + sizeOfItems rest

/-- The number of values in a list of members. -/
def sizeOfMembers : List (String × Json) → Nat
  | [] => 0
  | (_, value) :: rest => size value + sizeOfMembers rest

end

mutual

/-- The number of nested levels of a value; a scalar has one. -/
def depth : Json → Nat
  | .array items => 1 + depthOfItems items
  | .object members => 1 + depthOfMembers members
  | _ => 1

/-- The greatest depth among items. -/
def depthOfItems : List Json → Nat
  | [] => 0
  | item :: rest => max (depth item) (depthOfItems rest)

/-- The greatest depth among members. -/
def depthOfMembers : List (String × Json) → Nat
  | [] => 0
  | (_, value) :: rest => max (depth value) (depthOfMembers rest)

end

end Json

end JsonSchema
