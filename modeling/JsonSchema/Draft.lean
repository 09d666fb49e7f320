import JsonSchema.Text.Cut

/-!
# Drafts of JSON Schema

The supported drafts in order of release, with the URI that names each and the keyword that declares
identifiers in it.
-/

namespace JsonSchema

/-- A supported draft. -/
inductive Draft where
  | draft3 | draft4 | draft6
  deriving DecidableEq, Repr, Inhabited

namespace Draft

/-- All drafts in order of release. -/
def all : List Draft := [.draft3, .draft4, .draft6]

/-- The number of a draft. -/
def number : Draft → Nat
  | .draft3 => 3
  | .draft4 => 4
  | .draft6 => 6

/-- The draft with a number. -/
def ofNumber? (n : Int) : Option Draft :=
  all.find? fun draft => (draft.number : Int) = n

/-- The URI that names the draft in a document. -/
def schemaUri (draft : Draft) : String :=
  "http://json-schema.org/draft-0" ++ toString draft.number ++ "/schema#"

/-- The keyword that declares an identifier. -/
def idKey : Draft → String
  | .draft6 => "$id"
  | _ => "id"

/-- Whether a text occurs in another one. -/
def occursIn (part : List Char) : List Char → Bool
  | [] => part.isEmpty
  | c :: rest => Text.startsWith (c :: rest) part || occursIn part rest

/-- The draft that a schema URI names, the earliest if it names several. -/
def ofSchemaUri? (uri : String) : Option Draft :=
  all.find? fun draft => occursIn ("draft-0" ++ toString draft.number).toList uri.toList

/-- The draft and all later ones. -/
def since (draft : Draft) : List Draft :=
  all.filter fun d => draft.number ≤ d.number

/-- The draft and all earlier ones. -/
def upTo (draft : Draft) : List Draft :=
  all.filter fun d => d.number ≤ draft.number

end Draft

end JsonSchema
