/-!
# Codes of violations

Every violation has a code: that of the keyword it violates, or one of the two that belong to
schemas as a whole.
-/

namespace JsonSchema

/-- The code of a violation. -/
inductive ErrorCode where
  /-- Several keywords of one schema are violated. -/
  | schema
  /-- The schema accepts nothing. -/
  | schemaFalse
  | keyword (key : String)
  deriving DecidableEq, Repr, Inhabited

namespace ErrorCode

/-- The keywords that can be violated. -/
def keywordKeys : List String :=
  ["type", "disallow", "enum", "const", "allOf", "anyOf", "oneOf", "not", "extends", "$ref",
    "format", "multipleOf", "divisibleBy", "minimum", "maximum", "minLength", "maxLength",
    "pattern", "items", "additionalItems", "minItems", "maxItems", "uniqueItems", "contains",
    "additionalProperties", "required", "minProperties", "maxProperties", "propertyNames",
    "dependencies"]

/-- The start of the codes of keywords. -/
def keywordStart : String := "validation.keyword."

/-- The name of a code. -/
def name : ErrorCode → String
  | .schema => "validation.schema"
  | .schemaFalse => "validation.schema.false"
  | .keyword key => keywordStart ++ key

/-- All codes. -/
def all : List ErrorCode :=
  [.schema, .schemaFalse] ++ keywordKeys.map .keyword

/-- The code with a name. -/
def ofName? (name : String) : Option ErrorCode :=
  all.find? (·.name = name)

end ErrorCode

end JsonSchema
