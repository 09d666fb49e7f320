import JsonSchema.Pattern.Matcher
import JsonSchema.Schema.Equality
import JsonSchema.Schema.Graph
import JsonSchema.Validation.Check
import JsonSchema.Validation.Place

/-!
# Compiling schemas

Compiling turns a schema into checks. Every node of a graph is compiled once: its place in the table
is taken before its keywords are compiled, so a reference back to it leads to that place. The
schemas that accept everything and nothing are compiled for each use, at the place where they are
used.
-/

namespace JsonSchema

/-- The keywords that have a check. -/
inductive Assertion where
  | type | disallow | enum | const | allOf | extending | anyOf | oneOf | not | ref | format
  | multipleOf | divisibleBy | minimum | maximum | minLength | maxLength | pattern | items
  | minItems | maxItems | uniqueItems | contains | properties | patternProperties
  | additionalProperties | required | minProperties | maxProperties | propertyNames | dependencies
  deriving DecidableEq, Repr, Inhabited

namespace Assertion

/-- Every assertion. -/
def all : List Assertion :=
  [.type, .disallow, .enum, .const, .allOf, .extending, .anyOf, .oneOf, .not, .ref, .format,
    .multipleOf, .divisibleBy, .minimum, .maximum, .minLength, .maxLength, .pattern, .items,
    .minItems, .maxItems, .uniqueItems, .contains, .properties, .patternProperties,
    .additionalProperties, .required, .minProperties, .maxProperties, .propertyNames, .dependencies]

/-- The keyword of an assertion. -/
def keyword : Assertion → Keyword
  | .type => Builtin.type
  | .disallow => Builtin.disallow
  | .enum => Builtin.enum
  | .const => Builtin.const
  | .allOf => Builtin.allOf
  | .extending => Builtin.extending
  | .anyOf => Builtin.anyOf
  | .oneOf => Builtin.oneOf
  | .not => Builtin.not
  | .ref => Builtin.ref
  | .format => Builtin.format
  | .multipleOf => Builtin.multipleOf
  | .divisibleBy => Builtin.divisibleBy
  | .minimum => Builtin.minimum
  | .maximum => Builtin.maximum
  | .minLength => Builtin.minLength
  | .maxLength => Builtin.maxLength
  | .pattern => Builtin.pattern
  | .items => Builtin.items
  | .minItems => Builtin.minItems
  | .maxItems => Builtin.maxItems
  | .uniqueItems => Builtin.uniqueItems
  | .contains => Builtin.contains
  | .properties => Builtin.properties
  | .patternProperties => Builtin.patternProperties
  | .additionalProperties => Builtin.additionalProperties
  | .required => Builtin.required
  | .minProperties => Builtin.minProperties
  | .maxProperties => Builtin.maxProperties
  | .propertyNames => Builtin.propertyNames
  | .dependencies => Builtin.dependencies

/-- The assertion of the keyword with a key. -/
def ofKey? (key : String) : Option Assertion :=
  all.find? (·.keyword.key = key)

end Assertion

/-- What compiling works with: the tests of formats, and how a pattern becomes a search. -/
structure Compiler where
  formats : FormatRegistry
  search : String → Except Pattern.PatternFault (String → Bool)

/-- The compiler with the formats of the drafts and regular expressions as patterns. -/
def Compiler.default : Compiler where
  formats := .default
  search pattern := (Pattern.Regex.parse pattern).map Pattern.Regex.search

/-- The schemas compiled so far: the table, and where the nodes are in it. -/
structure Compilation where
  validators : Array Validator
  known : List (SchemaId × ValidatorId)

/-- The table without schemas. -/
def Compilation.empty : Compilation := { validators := #[], known := [] }

/-- A computation that compiles. -/
abbrev Compile := ExceptT Fault (StateM Compilation)

namespace Compile

/-- The value of a check, whose fault stops compiling. -/
def check {α : Type} : Except Fault α → Compile α
  | .ok value => pure value
  | .error fault => throw fault

/-- Where a node is in the table. -/
def known? (schema : Schema) : Compile (Option ValidatorId) := do
  match schema with
  | .node id _ _ _ => return (← get).known.lookup id
  | _ => return none

/-- Takes a place in the table for a schema; only a node is found there again. -/
def enter (schema : Schema) (location : String) : Compile ValidatorId := do
  let state ← get
  let id : ValidatorId := ⟨state.validators.size⟩
  let known :=
    match schema with
    | .node node _ _ _ => state.known ++ [(node, id)]
    | _ => state.known
  set { state with validators := state.validators.push (.unfilled location), known }
  return id

/-- Gives the schema at a place of the table its checks. -/
def fill (id : ValidatorId) (checks : List Check) : Compile Unit := do
  let state ← get
  match state.validators[id.index]? with
  | none => throw .exhausted
  | some validator =>
    let filled ← check (validator.fill checks)
    set { state with validators := state.validators.set! id.index filled }

/-- A function that compiles a schema that is used at a place. -/
abbrev SchemaCompiler := Schema → String → Compile ValidatorId

/-- Compiles the schemas of a list. -/
def list (recur : SchemaCompiler) (schemas : List Schema) (place : String) :
    Compile (List ValidatorId) :=
  schemas.zipIdx.mapM fun (schema, position) => recur schema (Place.join place [toString position])

/-- Compiles the schemas of a map. -/
def map (recur : SchemaCompiler) (schemas : List (String × Schema)) (place : String) :
    Compile (List (String × ValidatorId)) :=
  schemas.mapM fun (name, schema) => do return (name, ← recur schema (Place.join place [name]))

/-- Compiles a schema that may be missing. -/
def optional (recur : SchemaCompiler) (schema : Option Schema) (place : String) :
    Compile (Option ValidatorId) := do
  match schema with
  | some schema => return some (← recur schema place)
  | none => return none

/-- The search of a pattern. -/
def searchOf (compiler : Compiler) (pattern : String) : Compile (String → Bool) :=
  check ((compiler.search pattern).mapError .notAPattern)

/-- The names of the properties that must be there, with the places that say so: those whose schemas
have the flag that draft 3 puts there. -/
def flaggedNames (schemas : List (String × Schema)) (place : String) : List (String × String) :=
  schemas.filterMap fun (name, schema) =>
    match schema.get? Builtin.required with
    | some (.literal .boolean flag) =>
      if flag.isTruthy then some (name, Place.join place [name, Builtin.required.key]) else none
    | _ => none

/-- The names in the map of schemas that a schema has under a keyword. -/
def namesUnder (schema : Schema) (keyword : Keyword) : List String :=
  match schema.get? keyword with
  | some (.schemaMap schemas) => Members.keys schemas
  | _ => []

/-- The rule of an integer bound. -/
def countRule (key : String) (rule : Int → Rule) (value : KeywordValue) : Compile (Option Rule) :=
  match value with
  | .literal kind (.number n) =>
    match n.truncate? with
    | some bound => return some (rule bound)
    | none => throw (.unfit key kind.keywordKind)
  | other => throw (.unfit key other.kind)

/-- The rule of items and additional items. Additional items that nothing is accepted for are
forbidden. -/
def itemsRule (recur : SchemaCompiler) (form : ItemsForm) (additional : Option Schema)
    (place : String) : Compile (Option Rule) := do
  let additionalPlace := Place.join (Place.owner place) [Builtin.additionalItems.key]
  let every ←
    match form with
    | .every schema => some <$> recur schema place
    | _ => pure none
  let each ←
    match form with
    | .each schemas => some <$> list recur schemas place
    | _ => pure none
  let forbid := (additional.map (·.isAlwaysInvalid)).getD false
  let additional ← optional recur (additional.filter (!·.isAlwaysInvalid)) additionalPlace
  return some (.items every each additional forbid additionalPlace)

/-- The rule of additional properties of a schema; none is needed if they may be anything. -/
def additionalRule (compiler : Compiler) (recur : SchemaCompiler) (owner schema : Schema)
    (place : String) : Compile (Option Rule) := do
  if schema.isAlwaysValid then return none
  let id ← recur schema place
  let patterns ← (namesUnder owner Builtin.patternProperties).mapM (searchOf compiler)
  let declared := namesUnder owner Builtin.properties
  return some (.additionalProperties id schema.isAlwaysInvalid declared patterns)

/-- The rule of a keyword value, if it has one. `owner` is the schema that has the keyword. -/
def ruleOf (compiler : Compiler) (graph : SchemaGraph) (recur : SchemaCompiler) (owner : Schema)
    (assertion : Assertion) (value : KeywordValue) (place : String) : Compile (Option Rule) := do
  let key := assertion.keyword.key
  match assertion, value with
  | .type, .types types => return some (.type types)
  | .type, other => return some (.unfit other.kind)
  | .disallow, .types types => return some (.disallow types)
  | .disallow, other => return some (.unfit other.kind)
  | .enum, .jsonArray values => return some (.enum values)
  | .enum, .stringSet names => return some (.enum (names.map .string))
  | .const, .literal _ constant => return some (.const constant)
  | .allOf, .schemaList schemas => return some (.allOf (← list recur schemas place))
  | .extending, .schemaList schemas => return some (.allOf (← list recur schemas place))
  | .anyOf, .schemaList schemas => return some (.anyOf (← list recur schemas place))
  | .oneOf, .schemaList schemas => return some (.oneOf (← list recur schemas place))
  | .not, .schema schema => return some (.not (← recur schema place))
  | .ref, .reference _ uri target =>
    let schema ← check (graph.target target)
    return some (.reference (← recur schema uri))
  | .format, .literal _ (.string name) => return (compiler.formats.lookup name).map (.format name)
  | .format, .literal _ other =>
    check other.checkPlain
    return none
  | .multipleOf, .literal _ (.number n) =>
    return some (.multipleOf (.number n) (← check (n.fraction.mapError .noFraction)))
  | .divisibleBy, .literal _ (.number n) =>
    return some (.multipleOf (.number n) (← check (n.fraction.mapError .noFraction)))
  | .minimum, .limit limit => return some (.minimum limit)
  | .minimum, other => return some (.unfit other.kind)
  | .maximum, .limit limit => return some (.maximum limit)
  | .maximum, other => return some (.unfit other.kind)
  | .minLength, value => countRule key .minLength value
  | .maxLength, value => countRule key .maxLength value
  | .minItems, value => countRule key .minItems value
  | .maxItems, value => countRule key .maxItems value
  | .minProperties, value => countRule key .minProperties value
  | .maxProperties, value => countRule key .maxProperties value
  | .pattern, .literal _ (.string pattern) =>
    return some (.pattern pattern (← searchOf compiler pattern))
  | .items, .items form additional => itemsRule recur form additional place
  | .uniqueItems, .literal _ flag => return if flag.isTruthy then some .uniqueItems else none
  | .contains, .schema schema => return some (.contains (← recur schema place))
  | .properties, .schemaMap schemas =>
    return some (.properties (← map recur schemas place) (flaggedNames schemas place))
  | .patternProperties, .schemaMap schemas =>
    let compiled ← map recur schemas place
    let searches ← compiled.mapM fun (pattern, id) => do return (← searchOf compiler pattern, id)
    return some (.patternProperties searches)
  | .additionalProperties, .schema schema => additionalRule compiler recur owner schema place
  | .required, .stringSet names => return some (.required names)
  | .required, _ => return none
  | .propertyNames, .schema schema => return some (.propertyNames (← recur schema place))
  | .dependencies, .dependencies names schemas =>
    return some (.dependencies names (← map recur schemas place))
  | _, other => throw (.unfit key other.kind)

/-- The check of a keyword, if it has one. -/
def checkOf (compiler : Compiler) (graph : SchemaGraph) (recur : SchemaCompiler) (owner : Schema)
    (location : String) (keyword : Keyword) (value : KeywordValue) : Compile (Option Check) := do
  match Assertion.ofKey? keyword.key with
  | none => return none
  | some assertion =>
    let place := Place.join location [keyword.key]
    let rule ← ruleOf compiler graph recur owner assertion value place
    return rule.map fun rule => { keyword := some keyword, location := place, rule }

/-- Compiles a schema; `fallback` is its place if it has none of its own. -/
def schemaWith (compiler : Compiler) (graph : SchemaGraph) (recur : SchemaCompiler)
    (schema : Schema) (fallback : String) : Compile ValidatorId := do
  match ← known? schema with
  | some id => return id
  | none =>
    let location ←
      match schema.location? with
      | some location => check (location.absoluteUri.mapError .badUri)
      | none => pure fallback
    let id ← enter schema location
    if schema.isAlwaysInvalid then fill id [{ keyword := none, location, rule := .nothing }]
    else
      let checks ← schema.keywords.mapM fun (keyword, value) =>
        checkOf compiler graph recur schema location keyword value
      fill id (checks.filterMap fun check => check)
    return id

/-- The checks of a schema: one that nothing passes, or those of its keywords in their order. -/
def checksOf (compiler : Compiler) (graph : SchemaGraph) (recur : SchemaCompiler)
    (schema : Schema) (location : String) : Compile (List Check) := do
  if schema.isAlwaysInvalid then return [{ keyword := none, location, rule := .nothing }]
  let checks ← schema.keywords.mapM fun entry =>
    checkOf compiler graph recur schema location entry.1 entry.2
  return checks.filterMap fun check => check

/-- What compiling does with a schema that has no place yet. -/
def placeAt (compiler : Compiler) (graph : SchemaGraph) (recur : SchemaCompiler)
    (schema : Schema) (location : String) : Compile ValidatorId := do
  let id ← enter schema location
  let checks ← checksOf compiler graph recur schema location
  fill id checks
  return id

/-- Compiling a schema finds its place, or takes a place and works out the checks for it. -/
theorem schemaWith_eq (compiler : Compiler) (graph : SchemaGraph) (recur : SchemaCompiler)
    (schema : Schema) (fallback : String) :
    schemaWith compiler graph recur schema fallback = (do
      match ← known? schema with
      | some id => return id
      | none =>
        let location ←
          match schema.location? with
          | some location => check (location.absoluteUri.mapError .badUri)
          | none => pure fallback
        placeAt compiler graph recur schema location) := by
  unfold schemaWith placeAt checksOf
  cases schema.isAlwaysInvalid <;>
    simp only [Bool.false_eq_true, ↓reduceIte, bind_assoc, pure_bind]

/-- Compiles a schema, at most `depth` schemas deep. -/
def schemaWithin (compiler : Compiler) (graph : SchemaGraph) (depth : Nat) (schema : Schema)
    (fallback : String) : Compile ValidatorId :=
  match depth with
  | 0 => throw .exhausted
  | depth + 1 => schemaWith compiler graph (schemaWithin compiler graph depth) schema fallback

/-- Compiles a schema and everything that it leads to. On the way down each node of the graph comes
at most once. -/
def schema (compiler : Compiler) (graph : SchemaGraph) (root : Schema) : Compile ValidatorId :=
  schemaWithin compiler graph (graph.nextNode + 2) root "#"

end Compile

end JsonSchema
