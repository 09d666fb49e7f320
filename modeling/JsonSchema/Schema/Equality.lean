import JsonSchema.Schema.Basic

/-!
# Equality of schemas

Two schemas are equal if they have the same keywords with equal values, whatever their order, their
places and drafts. References compare by their text, so that comparing ends on cyclic graphs too. A
value that has no frozen form cannot be compared; `Schema.checkTabled` says whether a schema can be
put into a table, which comparing maps of schemas needs.
-/

namespace JsonSchema

namespace Json

/-- The frozen form of a value, a fault if it has none. -/
def freeze (value : Json) : Except Fault Frozen :=
  match value.freeze? with
  | some frozen => .ok frozen
  | none => .error (.notJson (Json.bytes "").typeName)

/-- Whether a plain value can be put into a table. -/
def checkPlain : Json → Except Fault Unit
  | .array items => .error (.unhashable (Json.array items).typeName)
  | .object members => .error (.unhashable (Json.object members).typeName)
  | _ => .ok ()

end Json

/-- The two frozen forms of what may be missing. -/
def freezeOptional (value : Option Json) : Except Fault (Option Frozen) :=
  match value with
  | some v => v.freeze.map some
  | none => .ok none

/-- Sameness of frozen forms that may be missing. -/
def Frozen.sameOptional : Option Frozen → Option Frozen → Bool
  | none, none => true
  | some a, some b => a.same b
  | _, _ => false

namespace Limit

/-- The frozen forms of the two bounds. -/
def freeze (limit : Limit) : Except Fault (Option Frozen × Option Frozen) := do
  let bound ← freezeOptional limit.bound
  let exclusiveBound ← freezeOptional limit.exclusiveBound
  return (bound, exclusiveBound)

/-- Equality of limits. -/
def equals (a b : Limit) : Except Fault Bool := do
  let (boundA, exclusiveBoundA) ← a.freeze
  let (boundB, exclusiveBoundB) ← b.freeze
  return Frozen.sameOptional boundA boundB && a.exclusive = b.exclusive
    && Frozen.sameOptional exclusiveBoundA exclusiveBoundB

end Limit

/-- Whether two lists have the same elements. -/
def sameElements {α : Type} [DecidableEq α] (xs ys : List α) : Bool :=
  xs.all ys.contains && ys.all xs.contains

/-- Whether two maps to lists have the same names with the same elements. -/
def sameNames (xs ys : List (String × List String)) : Bool :=
  xs.length = ys.length && ys.all fun (name, names) =>
    match xs.lookup name with
    | some others => sameElements others names
    | none => false

mutual

/-- Whether a schema can be put into a table. -/
def Schema.checkTabled : Schema → Except Fault Unit
  | .always => .ok ()
  | .never => .ok ()
  | .node _ _ _ keywords => KeywordValue.checkKeywordsTabled keywords

/-- Whether a keyword value can be put into a table. -/
def KeywordValue.checkTabled : KeywordValue → Except Fault Unit
  | .literal .string value => value.checkPlain
  | .literal .boolean value => value.checkPlain
  | .literal .number value => value.freeze.map fun _ => ()
  | .literal .any value => value.freeze.map fun _ => ()
  | .stringSet _ => .ok ()
  | .jsonArray values => (values.mapM Json.freeze).map fun _ => ()
  | .schema schema => schema.checkTabled
  | .schemaList schemas => Schema.checkListTabled schemas
  | .schemaMap schemas => Schema.checkMapTabled schemas
  | .types _ => .ok ()
  | .limit limit => limit.freeze.map fun _ => ()
  | .items form additional => do
    form.checkTabled
    Schema.checkOptionTabled additional
  | .dependencies _ schemas => Schema.checkMapTabled schemas
  | .reference .. => .ok ()

/-- Whether keywords can be put into a table. -/
def KeywordValue.checkKeywordsTabled : List (Keyword × KeywordValue) → Except Fault Unit
  | [] => .ok ()
  | (_, value) :: rest => do
    value.checkTabled
    KeywordValue.checkKeywordsTabled rest

/-- Whether what `items` says can be put into a table. -/
def ItemsForm.checkTabled : ItemsForm → Except Fault Unit
  | .absent => .ok ()
  | .every schema => schema.checkTabled
  | .each schemas => Schema.checkListTabled schemas

/-- Whether a list of schemas can be put into a table. -/
def Schema.checkListTabled : List Schema → Except Fault Unit
  | [] => .ok ()
  | schema :: rest => do
    schema.checkTabled
    Schema.checkListTabled rest

/-- Whether a map of schemas can be put into a table. -/
def Schema.checkMapTabled : List (String × Schema) → Except Fault Unit
  | [] => .ok ()
  | (_, schema) :: rest => do
    schema.checkTabled
    Schema.checkMapTabled rest

/-- Whether a schema that may be missing can be put into a table. -/
def Schema.checkOptionTabled : Option Schema → Except Fault Unit
  | none => .ok ()
  | some schema => schema.checkTabled

end

mutual

/-- Equality of schemas. -/
def Schema.equals (a : Schema) : Schema → Except Fault Bool
  | .always => .ok a.keywords.isEmpty
  | .never => .ok a.isAlwaysInvalid
  | .node id location draft keywords =>
    if a.isSame (.node id location draft keywords) then .ok true
    else if a.keywords.length = keywords.length then KeywordValue.equalKeywords a.keywords keywords
    else .ok false

/-- Whether each keyword has an equal value among the others. -/
def KeywordValue.equalKeywords (others : List (Keyword × KeywordValue)) :
    List (Keyword × KeywordValue) → Except Fault Bool
  | [] => .ok true
  | (keyword, value) :: rest =>
    match others.lookup keyword with
    | none => .ok false
    | some other => do
      let same ← KeywordValue.equals other value
      if same then KeywordValue.equalKeywords others rest else return false

/-- Equality of keyword values. -/
def KeywordValue.equals (a : KeywordValue) : KeywordValue → Except Fault Bool
  | .literal .string value =>
    match a with
    | .literal .string other => .ok (other.coincides value)
    | _ => .ok false
  | .literal .boolean value =>
    match a with
    | .literal .boolean other => .ok (other.coincides value)
    | _ => .ok false
  | .literal .number value =>
    match a with
    | .literal .number other => do return (← other.freeze).same (← value.freeze)
    | _ => .ok false
  | .literal .any value =>
    match a with
    | .literal .any other => do return (← other.freeze).same (← value.freeze)
    | _ => .ok false
  | .stringSet names =>
    match a with
    | .stringSet others => .ok (sameElements others names)
    | _ => .ok false
  | .jsonArray values =>
    match a with
    | .jsonArray others =>
      do return Frozen.sameItems (← others.mapM Json.freeze) (← values.mapM Json.freeze)
    | _ => .ok false
  | .schema schema =>
    match a with
    | .schema other => Schema.equals other schema
    | _ => .ok false
  | .schemaList schemas =>
    match a with
    | .schemaList others => Schema.equalLists others schemas
    | _ => .ok false
  | .schemaMap schemas =>
    match a with
    | .schemaMap others => do
      Schema.checkMapTabled others
      Schema.checkMapTabled schemas
      if others.length = schemas.length then Schema.equalMaps others schemas else return false
    | _ => .ok false
  | .types types =>
    match a with
    | .types others => .ok (sameElements others types)
    | _ => .ok false
  | .limit limit =>
    match a with
    | .limit other => other.equals limit
    | _ => .ok false
  | .items form additional =>
    match a with
    | .items otherForm otherAdditional => do
      let same ← ItemsForm.equals otherForm form
      if same then Schema.equalOptions otherAdditional additional else return false
    | _ => .ok false
  | .dependencies names schemas =>
    match a with
    | .dependencies otherNames otherSchemas => do
      Schema.checkMapTabled otherSchemas
      Schema.checkMapTabled schemas
      if sameNames otherNames names && otherSchemas.length = schemas.length then
        Schema.equalMaps otherSchemas schemas
      else return false
    | _ => .ok false
  | .reference ref _ _ =>
    match a with
    | .reference other _ _ => .ok (other = ref)
    | _ => .ok false

/-- Equality of what two `items` say. -/
def ItemsForm.equals (a : ItemsForm) : ItemsForm → Except Fault Bool
  | .absent =>
    match a with
    | .absent => .ok true
    | _ => .ok false
  | .every schema =>
    match a with
    | .every other => Schema.equals other schema
    | _ => .ok false
  | .each schemas =>
    match a with
    | .each others => Schema.equalLists others schemas
    | _ => .ok false

/-- Equality of lists of schemas, position by position. -/
def Schema.equalLists (others : List Schema) : List Schema → Except Fault Bool
  | [] => .ok others.isEmpty
  | schema :: rest =>
    match others with
    | [] => .ok false
    | other :: otherRest => do
      let same ← Schema.equals other schema
      if same then Schema.equalLists otherRest rest else return false

/-- Whether each schema has an equal one of its name among the others. -/
def Schema.equalMaps (others : List (String × Schema)) : List (String × Schema) → Except Fault Bool
  | [] => .ok true
  | (name, schema) :: rest =>
    match others.lookup name with
    | none => .ok false
    | some other => do
      let same ← Schema.equals other schema
      if same then Schema.equalMaps others rest else return false

/-- Equality of schemas that may be missing. -/
def Schema.equalOptions (a : Option Schema) : Option Schema → Except Fault Bool
  | none => .ok a.isNone
  | some schema =>
    match a with
    | none => .ok false
    | some other => Schema.equals other schema

end

end JsonSchema
