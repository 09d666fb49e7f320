import JsonSchema.Draft
import JsonSchema.Json.Basic

/-!
# Keywords

A `Keyword` describes one keyword of schemas: the drafts it belongs to, the shapes its value may
take, the instance types it constrains and the kind of value it has. Where a draft takes other
shapes, a variant says so. Sets are kept as lists in the order of their type, so that keywords with
equal sets are equal (`Keyword.make`).
-/

namespace JsonSchema

/-- The kinds of keyword values. -/
inductive KeywordKind where
  | string | number | boolean | stringSet | jsonArray | jsonValue
  | schema | schemaList | schemaMap | type | limit | items | dependencies | reference
  deriving DecidableEq, Repr, Inhabited

namespace KeywordKind

/-- Every kind. -/
def all : List KeywordKind :=
  [.string, .number, .boolean, .stringSet, .jsonArray, .jsonValue, .schema, .schemaList, .schemaMap,
    .type, .limit, .items, .dependencies, .reference]

/-- The name of a kind. -/
def name : KeywordKind → String
  | .string => "string"
  | .number => "number"
  | .boolean => "boolean"
  | .stringSet => "string_set"
  | .jsonArray => "json_array"
  | .jsonValue => "json_value"
  | .schema => "schema"
  | .schemaList => "schema_list"
  | .schemaMap => "schema_map"
  | .type => "type"
  | .limit => "limit"
  | .items => "items"
  | .dependencies => "dependencies"
  | .reference => "reference"

/-- The name that messages give to a value of the kind. -/
def valueName : KeywordKind → String
  | .string => "StringKeyword"
  | .number => "NumberKeyword"
  | .boolean => "BooleanKeyword"
  | .stringSet => "StringSetKeyword"
  | .jsonArray => "JsonArrayKeyword"
  | .jsonValue => "JsonValueKeyword"
  | .schema => "SingleSchemaKeyword"
  | .schemaList => "SchemaListKeyword"
  | .schemaMap => "SchemaMapKeyword"
  | .type => "TypeKeyword"
  | .limit => "LimitKeyword"
  | .items => "ItemsKeyword"
  | .dependencies => "DependenciesKeyword"
  | .reference => "ReferenceKeyword"

/-- The kind with a name. -/
def ofName? (name : String) : Option KeywordKind :=
  all.find? (·.name = name)

end KeywordKind

/-- The kind and shapes of a keyword in some drafts. -/
structure KeywordVariant where
  drafts : List Draft
  kind : KeywordKind
  expects : List Shape
  deriving DecidableEq, Repr, Inhabited

/-- The description of a keyword. -/
structure Keyword where
  key : String
  kind : KeywordKind
  drafts : List Draft
  /-- The instance types it constrains; none means all. -/
  appliesTo : List InstanceType
  expects : List Shape
  variants : List KeywordVariant
  /-- The keyword whose value takes this one in. -/
  mergedInto : Option String
  deriving DecidableEq, Repr, Inhabited

namespace Keyword

/-- The elements of a set in the order of `all`. -/
def ordered {α : Type} [DecidableEq α] (all set : List α) : List α :=
  all.filter set.contains

/-- A variant with its sets in order. -/
def variant (drafts : List Draft) (kind : KeywordKind) (expects : List Shape) : KeywordVariant :=
  { drafts := ordered Draft.all drafts, kind, expects := ordered Shape.all expects }

/-- A keyword with its sets in order; a keyword needs a key. -/
def make? (key : String) (kind : KeywordKind) (drafts : List Draft) (appliesTo : List InstanceType)
    (expects : List Shape) (variants : List KeywordVariant) (mergedInto : Option String) :
    Option Keyword :=
  if key.isEmpty then none
  else
    some {
      key, kind, variants, mergedInto
      drafts := ordered Draft.all drafts
      appliesTo := ordered InstanceType.all appliesTo
      expects := ordered Shape.all expects }

/-- Whether a draft has the keyword. -/
def isApplicable (keyword : Keyword) (draft : Draft) : Bool :=
  keyword.drafts.contains draft

/-- Whether the keyword constrains instances of a type; one for numbers constrains integers. -/
def appliesToType (keyword : Keyword) (type : InstanceType) : Bool :=
  keyword.appliesTo.isEmpty || type.admittedBy keyword.appliesTo

/-- The kind and shapes of the keyword in a draft. -/
def variantFor (keyword : Keyword) (draft : Draft) : KeywordVariant :=
  (keyword.variants.find? (·.drafts.contains draft)).getD
    { drafts := keyword.drafts, kind := keyword.kind, expects := keyword.expects }

end Keyword

end JsonSchema
