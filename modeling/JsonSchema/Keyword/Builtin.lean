import JsonSchema.Keyword.Basic

/-!
# The keywords of the drafts

Every keyword of drafts 3, 4 and 6, in the order of `Builtin.all`.
-/

namespace JsonSchema.Builtin

open Keyword (ordered variant)

/-- A keyword of some drafts whose value has some of the given shapes, any shape if none is
given. -/
def describe (key : String) (kind : KeywordKind) (expects : List Shape) (drafts : List Draft)
    (appliesTo : List InstanceType) (variants : List KeywordVariant) (mergedInto : Option String) :
    Keyword :=
  { key, kind, appliesTo, variants, mergedInto
    drafts := ordered Draft.all drafts
    expects := if expects.isEmpty then Shape.all else ordered Shape.all expects }

/-- Drafts since draft 4. -/
def sinceDraft4 : List Draft := Draft.since .draft4

/-- Drafts since draft 6. -/
def sinceDraft6 : List Draft := Draft.since .draft6

/-- Drafts up to draft 4. -/
def untilDraft4 : List Draft := Draft.upTo .draft4

/-- Drafts up to draft 3. -/
def untilDraft3 : List Draft := Draft.upTo .draft3

/-- The types of numbers. -/
def numeric : List InstanceType := [.number, .integer]

/-- A schema is an object, and since draft 6 a truth value as well. -/
def schemaVariant : KeywordVariant :=
  variant sinceDraft6 .schema [.object, .boolean]

/-- An exclusive bound is a number of its own since draft 6. -/
def exclusiveVariant : KeywordVariant :=
  variant sinceDraft6 .number [.number]

def schemaUri : Keyword := describe "$schema" .string [.string] Draft.all [] [] none
def ref : Keyword := describe "$ref" .reference [.string] Draft.all [] [] none
def dollarId : Keyword := describe "$id" .string [.string] sinceDraft6 [] [] none
def id : Keyword := describe "id" .string [.string] untilDraft4 [] [] none

def title : Keyword := describe "title" .string [.string] Draft.all [] [] none
def description : Keyword := describe "description" .string [.string] Draft.all [] [] none
def default : Keyword := describe "default" .jsonValue [] Draft.all [] [] none
def examples : Keyword := describe "examples" .jsonArray [.array] sinceDraft6 [] [] none
def definitions : Keyword := describe "definitions" .schemaMap [.object] Draft.all [] [] none

def type : Keyword := describe "type" .type [.string, .array] Draft.all [] [] none
def disallow : Keyword := describe "disallow" .type [.string, .array] untilDraft3 [] [] none
def enum : Keyword := describe "enum" .jsonArray [.array] Draft.all [] [] none
def const : Keyword := describe "const" .jsonValue [] sinceDraft6 [] [] none

def allOf : Keyword := describe "allOf" .schemaList [.array] sinceDraft4 [] [] none
def anyOf : Keyword := describe "anyOf" .schemaList [.array] sinceDraft4 [] [] none
def oneOf : Keyword := describe "oneOf" .schemaList [.array] sinceDraft4 [] [] none
def not : Keyword := describe "not" .schema [.object] sinceDraft4 [] [schemaVariant] none
def extending : Keyword := describe "extends" .schemaList [.object, .array] untilDraft3 [] [] none

def format : Keyword := describe "format" .string [.string] Draft.all [.string] [] none

def multipleOf : Keyword := describe "multipleOf" .number [.number] sinceDraft4 numeric [] none
def divisibleBy : Keyword := describe "divisibleBy" .number [.number] untilDraft3 numeric [] none
def minimum : Keyword := describe "minimum" .limit [.number] Draft.all numeric [] none
def maximum : Keyword := describe "maximum" .limit [.number] Draft.all numeric [] none
def exclusiveMinimum : Keyword :=
  describe "exclusiveMinimum" .boolean [.boolean] Draft.all numeric [exclusiveVariant]
    (some "minimum")
def exclusiveMaximum : Keyword :=
  describe "exclusiveMaximum" .boolean [.boolean] Draft.all numeric [exclusiveVariant]
    (some "maximum")

def minLength : Keyword := describe "minLength" .number [.number] Draft.all [.string] [] none
def maxLength : Keyword := describe "maxLength" .number [.number] Draft.all [.string] [] none
def pattern : Keyword := describe "pattern" .string [.string] Draft.all [.string] [] none

def items : Keyword :=
  describe "items" .items [.object, .array] Draft.all [.array]
    [variant sinceDraft6 .items [.object, .array, .boolean]] none
def additionalItems : Keyword :=
  describe "additionalItems" .schema [.object, .boolean] Draft.all [.array] [] (some "items")
def minItems : Keyword := describe "minItems" .number [.number] Draft.all [.array] [] none
def maxItems : Keyword := describe "maxItems" .number [.number] Draft.all [.array] [] none
def uniqueItems : Keyword := describe "uniqueItems" .boolean [.boolean] Draft.all [.array] [] none
def contains : Keyword :=
  describe "contains" .schema [.object] sinceDraft6 [.array] [schemaVariant] none

def properties : Keyword := describe "properties" .schemaMap [.object] Draft.all [.object] [] none
def patternProperties : Keyword :=
  describe "patternProperties" .schemaMap [.object] Draft.all [.object] [] none
def additionalProperties : Keyword :=
  describe "additionalProperties" .schema [.object, .boolean] Draft.all [.object] [] none
def required : Keyword :=
  describe "required" .stringSet [.array] Draft.all [.object]
    [variant untilDraft3 .boolean [.boolean]] none
def minProperties : Keyword :=
  describe "minProperties" .number [.number] sinceDraft4 [.object] [] none
def maxProperties : Keyword :=
  describe "maxProperties" .number [.number] sinceDraft4 [.object] [] none
def propertyNames : Keyword :=
  describe "propertyNames" .schema [.object] sinceDraft6 [.object] [schemaVariant] none
def dependencies : Keyword :=
  describe "dependencies" .dependencies [.object] Draft.all [.object] [] none

/-- Every keyword of the drafts. -/
def all : List Keyword :=
  [schemaUri, ref, dollarId, id, title, description, default, examples, definitions, type, disallow,
    enum, const, allOf, anyOf, oneOf, not, extending, format, multipleOf, divisibleBy, minimum,
    maximum, exclusiveMinimum, exclusiveMaximum, minLength, maxLength, pattern, items,
    additionalItems, minItems, maxItems, uniqueItems, contains, properties, patternProperties,
    additionalProperties, required, minProperties, maxProperties, propertyNames, dependencies]

/-- The keys whose values count something. -/
def countKeys : List String :=
  ["minLength", "maxLength", "minItems", "maxItems", "minProperties", "maxProperties"]

end JsonSchema.Builtin
