import JsonSchema.Schema.Limit

/-!
# Schemas

A schema is a tree of keyword values. Cycles go through references, which name their target by a
handle instead of holding it; what a handle stands for is kept in a `SchemaGraph`. Each node carries
an identity, so that one and the same node can be told from an equal one. The schemas that accept
everything and nothing have no identity of their own.
-/

namespace JsonSchema

/-- The identity of a node. -/
structure SchemaId where
  index : Nat
  deriving DecidableEq, Repr, Inhabited

/-- The name of a schema that may still have to be loaded. -/
structure HandleId where
  index : Nat
  deriving DecidableEq, Repr, Inhabited

/-- The kinds of keyword values that are plain JSON values. -/
inductive LiteralKind where
  | string | number | boolean | any
  deriving DecidableEq, Repr, Inhabited

/-- A literal kind among all kinds. -/
def LiteralKind.keywordKind : LiteralKind → KeywordKind
  | .string => .string
  | .number => .number
  | .boolean => .boolean
  | .any => .jsonValue

mutual

/-- A schema. -/
inductive Schema where
  /-- The schema that accepts everything. -/
  | always
  /-- The schema that accepts nothing. -/
  | never
  | node (id : SchemaId) (location : Option Location) (draft : Draft)
    (keywords : List (Keyword × KeywordValue))

/-- The value of a keyword in a schema. -/
inductive KeywordValue where
  | literal (kind : LiteralKind) (value : Json)
  | stringSet (names : List String)
  | jsonArray (values : List Json)
  | schema (schema : Schema)
  | schemaList (schemas : List Schema)
  | schemaMap (schemas : List (String × Schema))
  | types (types : List InstanceType)
  | limit (limit : Limit)
  | items (form : ItemsForm) (additional : Option Schema)
  | dependencies (names : List (String × List String)) (schemas : List (String × Schema))
  | reference (ref uri : String) (target : HandleId)

/-- What `items` says about the items of an array. -/
inductive ItemsForm where
  | absent
  /-- One schema for all items. -/
  | every (schema : Schema)
  /-- A schema for each position; the rest is for the additional items. -/
  | each (schemas : List Schema)

end

instance : Inhabited Schema := ⟨.always⟩
instance : Inhabited KeywordValue := ⟨.stringSet []⟩
instance : Inhabited ItemsForm := ⟨.absent⟩

namespace KeywordValue

/-- The kind of a keyword value. -/
def kind : KeywordValue → KeywordKind
  | .literal kind _ => kind.keywordKind
  | .stringSet _ => .stringSet
  | .jsonArray _ => .jsonArray
  | .schema _ => .schema
  | .schemaList _ => .schemaList
  | .schemaMap _ => .schemaMap
  | .types _ => .type
  | .limit _ => .limit
  | .items .. => .items
  | .dependencies .. => .dependencies
  | .reference .. => .reference

/-- The plain value that a keyword value holds. -/
def literal? : KeywordValue → Option Json
  | .literal _ value => some value
  | _ => none

/-- The value of `dependencies`: a property has names or a schema, not both. -/
def makeDependencies (names : List (String × List String)) (schemas : List (String × Schema)) :
    Except Fault KeywordValue :=
  match (Members.keys names).filter (Members.keys schemas).contains with
  | [] => .ok (.dependencies names schemas)
  | both => .error (.dependenciesTwice (both.mergeSort fun a b => decide (a ≤ b)))

/-- The value of `items`: one schema or one for each position, not both. -/
def makeItems (every : Option Schema) (each : Option (List Schema)) (additional : Option Schema) :
    Except Fault KeywordValue :=
  match every, each with
  | some _, some _ => .error .bothItemForms
  | some single, none => .ok (.items (.every single) additional)
  | none, some listed => .ok (.items (.each listed) additional)
  | none, none => .ok (.items .absent additional)

end KeywordValue

namespace Schema

/-- The keywords of a schema with their values, in order. -/
def keywords : Schema → List (Keyword × KeywordValue)
  | .always => []
  | .never => [(Builtin.not, .schema .always)]
  | .node _ _ _ keywords => keywords

/-- Where a schema was loaded from. -/
def location? : Schema → Option Location
  | .node _ location _ _ => location
  | _ => none

/-- The draft under which a schema was read. -/
def draft? : Schema → Option Draft
  | .node _ _ draft _ => some draft
  | _ => none

/-- The value of a keyword. -/
def get? (schema : Schema) (keyword : Keyword) : Option KeywordValue :=
  schema.keywords.lookup keyword

/-- Whether a schema has a keyword. -/
def has (schema : Schema) (keyword : Keyword) : Bool :=
  (schema.get? keyword).isSome

/-- Whether a schema refers to another one. -/
def isReference (schema : Schema) : Bool :=
  schema.has Builtin.ref

/-- Whether a schema has no keywords. -/
def isAlwaysValid (schema : Schema) : Bool :=
  schema.keywords.isEmpty

/-- Whether the one keyword of a schema is the negation of a schema without keywords. -/
def isAlwaysInvalid (schema : Schema) : Bool :=
  match schema.keywords with
  | [(keyword, .schema inner)] => keyword = Builtin.not && inner.isAlwaysValid
  | _ => false

/-- The schema that a truth value stands for. -/
def ofBool (value : Bool) : Schema :=
  if value then .always else .never

/-- Whether two schemas are one and the same. -/
def isSame : Schema → Schema → Bool
  | .always, .always => true
  | .never, .never => true
  | .node a _ _ _, .node b _ _ _ => a = b
  | _, _ => false

/-- A schema in messages: its keywords and its place. -/
def text (schema : Schema) : Except Fault String := do
  let place ←
    match schema.location? with
    | some location => do
      let uri ← location.absoluteUri.mapError .badUri
      pure (" at " ++ uri)
    | none => pure ""
  return "Schema(" ++ ", ".intercalate (schema.keywords.map (·.1.key)) ++ ")" ++ place

end Schema

end JsonSchema
