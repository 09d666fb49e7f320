import JsonSchema.Pattern.Parser
import JsonSchema.Schema.Graph

/-!
# Building schemas

A builder gathers the keywords of one schema. Every operation checks what it adds and gives a new
builder or a fault, so a fault leaves the builder as it was. Kept values have a kind of their
keyword, counts are whole numbers from zero, divisors are not negative or zero, and patterns are
regular expressions.
-/

namespace JsonSchema

/-- The keywords gathered for one schema. -/
structure SchemaBuilder where
  location : Option Location
  draft : Draft
  keywords : List (Keyword × KeywordValue)

namespace SchemaBuilder

/-- A builder without keywords. -/
def empty (location : Option Location) (draft : Draft) : SchemaBuilder :=
  { location, draft, keywords := [] }

/-- The value of a keyword. -/
def get? (builder : SchemaBuilder) (keyword : Keyword) : Option KeywordValue :=
  builder.keywords.lookup keyword

/-- Whether a keyword takes values of a kind in some draft. -/
def takesKind (keyword : Keyword) (kind : KeywordKind) : Bool :=
  kind = keyword.kind || keyword.variants.any (·.kind = kind)

/-- The plain value that a keyword value holds, nothing being null. -/
def plain (value : KeywordValue) : Json :=
  value.literal?.getD .null

/-- Whether a value is a whole number from zero. -/
def isCount : Json → Bool
  | .number n => n.isIntegral && !n.less (.int 0)
  | _ => false

/-- Whether a value is a number that is neither negative nor zero. -/
def isDivisor : Json → Bool
  | .number n => !n.atMost (.int 0)
  | _ => false

/-- Checks that a text is a regular expression. A repetition that is too large is a fault of its
own. -/
def checkPattern (key pattern : String) : Except Fault Unit :=
  match Pattern.Regex.parse pattern with
  | .ok _ => .ok ()
  | .error .hugeRepetition => .error (.notAPattern .hugeRepetition)
  | .error fault => .error (.badPattern key pattern fault)

/-- Checks that a plain value is a regular expression. -/
def checkPatternValue (key : String) : Json → Except Fault Unit
  | .string pattern => checkPattern key pattern
  | .bytes pattern => checkPattern key pattern
  | .array items => .error (.unhashable (Json.array items).typeName)
  | .object members => .error (.unhashable (Json.object members).typeName)
  | _ => .error .patternNotText

/-- Checks a value of a keyword. -/
def check (keyword : Keyword) (value : KeywordValue) : Except Fault Unit :=
  if !takesKind keyword value.kind then .error (.wrongKind keyword.key value.kind)
  else if Builtin.countKeys.contains keyword.key then
    if isCount (plain value) then .ok () else .error (.notACount keyword.key (plain value))
  else if keyword = Builtin.multipleOf || keyword = Builtin.divisibleBy then
    if isDivisor (plain value) then .ok () else .error (.notPositive keyword.key (plain value))
  else if keyword = Builtin.pattern then
    match value.literal? with
    | some pattern => checkPatternValue keyword.key pattern
    | none => .ok ()
  else if keyword = Builtin.patternProperties then
    match value with
    | .schemaMap schemas => (Members.keys schemas).forM (checkPattern keyword.key)
    | _ => .ok ()
  else .ok ()

/-- Adds a keyword, or replaces its value. -/
def put (builder : SchemaBuilder) (keyword : Keyword) (value : KeywordValue) :
    Except Fault SchemaBuilder := do
  check keyword value
  return { builder with keywords := Members.put builder.keywords keyword value }

/-- Sets the instance types. -/
def types (builder : SchemaBuilder) (types : List InstanceType) : Except Fault SchemaBuilder :=
  builder.put Builtin.type (.types types)

/-- Adds a property. -/
def property (builder : SchemaBuilder) (name : String) (schema : Schema) :
    Except Fault SchemaBuilder :=
  let known :=
    match builder.get? Builtin.properties with
    | some (.schemaMap schemas) => schemas
    | _ => []
  builder.put Builtin.properties (.schemaMap (Members.put known name schema))

/-- Adds names of required properties. -/
def required (builder : SchemaBuilder) (names : List String) : Except Fault SchemaBuilder :=
  let known :=
    match builder.get? Builtin.required with
    | some (.stringSet known) => known
    | _ => []
  builder.put Builtin.required (.stringSet (known ++ names.filter fun name => !known.contains name))

/-- Sets the schema for all items or those for each position, and keeps that for additional
items. -/
def items (builder : SchemaBuilder) (every : Option Schema) (each : Option (List Schema)) :
    Except Fault SchemaBuilder := do
  let (form, additional) :=
    match builder.get? Builtin.items with
    | some (.items form additional) => (form, additional)
    | _ => (.absent, none)
  match form with
  | .each _ => if every.isSome then throw (.keywordConflict Builtin.items.key .otherFormGiven)
  | .every _ => if each.isSome then throw (.keywordConflict Builtin.items.key .otherFormGiven)
  | .absent => pure ()
  match KeywordValue.makeItems every each additional with
  | .ok value => builder.put Builtin.items value
  | .error _ => throw (.keywordConflict Builtin.items.key .bothFormsGiven)

/-- Sets the schema for additional items, and keeps what is said about the others. -/
def additionalItems (builder : SchemaBuilder) (schema : Schema) : Except Fault SchemaBuilder :=
  let form :=
    match builder.get? Builtin.items with
    | some (.items form _) => form
    | _ => .absent
  builder.put Builtin.items (.items form (some schema))

/-- The schema of what was gathered so far. -/
def build (builder : SchemaBuilder) (graph : SchemaGraph) : Schema × SchemaGraph :=
  graph.addNode builder.location builder.draft builder.keywords

end SchemaBuilder

end JsonSchema
