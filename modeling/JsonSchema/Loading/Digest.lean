import JsonSchema.Schema.Basic

/-!
# Keyword values of documents

How the value that a document gives to a keyword becomes a keyword value, for the keywords that hold
no schemas. The shape of the value was checked before; what is checked here depends on the keyword
and the draft.
-/

namespace JsonSchema

namespace Json

/-- What a value holds when it is gone through: items, names of members, characters or bytes. -/
def elements : Json → Except Fault (List Json)
  | .array items => .ok items
  | .object members => .ok (members.map fun (name, _) => .string name)
  | .string text => .ok (characters text)
  | .bytes text => .ok (byteNumbers text)
  | value => .error (.notIterable value.typeName)

/-- The texts of values, if all are texts. -/
def texts? : List Json → Option (List String)
  | [] => some []
  | .string text :: rest => (texts? rest).map (text :: ·)
  | _ => none

end Json

namespace Digest

/-- Whether no element of a list occurs twice. -/
def isDistinct : List String → Bool
  | [] => true
  | x :: rest => !rest.contains x && isDistinct rest

/-- A plain value of one of the kinds that hold plain values. -/
def leaf (key : String) (kind : KeywordKind) (value : Json) : Except Fault KeywordValue :=
  match kind with
  | .string => .ok (.literal .string value)
  | .number => .ok (.literal .number value)
  | .boolean => .ok (.literal .boolean value)
  | .jsonValue => .ok (.literal .any value)
  | .jsonArray => do return .jsonArray (← value.elements)
  | _ => .error (.keywordValue key (.notLeaf kind))

/-- Adds the type that a value names. In draft 3 the name `any` adds all types and a name may come
twice. -/
def addType (key : String) (draft : Draft) (types : List InstanceType) (value : Json) :
    Except Fault (List InstanceType) :=
  match value with
  | .string name =>
    if name = "any" && draft = .draft3 then .ok InstanceType.all
    else
      match InstanceType.ofName? name with
      | none => .error (.keywordValue key (.unknownType name))
      | some type =>
        if types.contains type then
          if draft = .draft3 then .ok types else .error (.keywordValue key (.typeTwice name))
        else .ok (types ++ [type])
  | _ => .error (.keywordValue key (.typeNotText value))

/-- A type or a list of types; since draft 4 the list is not empty. -/
def types (key : String) (value : Json) (draft : Draft) : Except Fault KeywordValue := do
  let named ←
    match value with
    | .string _ => pure [value]
    | _ => value.elements
  if named.isEmpty && draft ≠ .draft3 then throw (.keywordValue key .noTypes)
  let types ← named.foldlM (addType key draft) []
  return .types (Keyword.ordered InstanceType.all types)

/-- A list of distinct texts. -/
def names (key : String) (value : Json) (allowEmpty : Bool) : Except Fault (List String) :=
  match value with
  | .array items =>
    if items.isEmpty && !allowEmpty then .error (.keywordValue key .noNames)
    else
      match Json.texts? items with
      | none => .error (.keywordValue key (.namesNotTexts value))
      | some texts =>
        if isDistinct texts then .ok texts else .error (.keywordValue key (.namesTwice value))
  | _ => .error (.keywordValue key (.namesNotArray value))

/-- A flag, or a list of names, which draft 4 wants not to be empty. -/
def required (key : String) (value : Json) (draft : Draft) : Except Fault KeywordValue :=
  match value with
  | .bool _ => .ok (.literal .boolean value)
  | _ => do return .stringSet (← names key value (draft ≠ .draft4))

/-- The names that a property depends on; draft 3 takes a single text as well. -/
def dependency (key name : String) (value : Json) (draft : Draft) : Except Fault (List String) :=
  match value, draft with
  | .string text, .draft3 => .ok [text]
  | _, _ => names (key ++ "/" ++ name) value true

/-- Checks that a list of schemas is not empty. -/
def checkSchemaList (key : String) (value : Json) : Except Fault Unit :=
  if value.isTruthy then .ok () else .error (.keywordValue key .noSchemas)

/-- A bound that a flag may make exclusive; the flag alone is a fault. -/
def flaggedLimit (key exclusiveKey : String) (bound exclusive : Option Json) :
    Except Fault (Option Limit) :=
  match bound, exclusive with
  | none, none => .ok none
  | none, some _ => .error (.keywordValue exclusiveKey (.boundMissing exclusiveKey key))
  | some _, _ => do return some (← Limit.make bound ((exclusive.map Json.isTruthy).getD false) none)

/-- A bound and an exclusive bound, each of which may be missing. -/
def twoLimits (bound exclusive : Option Json) : Except Fault (Option Limit) :=
  match bound, exclusive with
  | none, none => .ok none
  | _, _ => do return some (← Limit.make bound false exclusive)

/-- A value that is there; null is not. -/
def present (value : Option Json) : Option Json :=
  value.filter fun v => match v with | .null => false | _ => true

/-- The limit of a bound and its exclusive companion, as the draft reads them. -/
def limit (key exclusiveKey : String) (bound exclusive : Option Json) (draft : Draft) :
    Except Fault (Option Limit) :=
  let bound := present bound
  let exclusive := present exclusive
  match bound.filter (!·.isNumber) with
  | some value => .error (.keywordValue key (.boundNotNumber value))
  | none =>
    match draft with
    | .draft6 => twoLimits bound exclusive
    | _ => flaggedLimit key exclusiveKey bound exclusive

end Digest

end JsonSchema
