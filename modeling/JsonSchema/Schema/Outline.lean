import JsonSchema.Keyword.Form
import JsonSchema.Schema.Graph

/-!
# Outlines of schemas

An outline shows a schema as a JSON value. References are not followed inside it: what they stand
for is listed behind it, each place once, in the order in which the references come
(`Schema.outlineWithTargets`).
-/

namespace JsonSchema

/-- What an outline has come across: the handles of references, in order, and the places of
schemas. -/
structure OutlineState where
  handles : List HandleId
  places : List String

/-- A computation that makes outlines. -/
abbrev Outlining := StateT OutlineState (Except Fault)

namespace Outlining

/-- Notes the place of a schema. -/
def note (place : String) : Outlining Unit :=
  modify fun state => { state with places := place :: state.places }

/-- Notes the handle of a reference. -/
def meet (handle : HandleId) : Outlining Unit :=
  modify fun state => { state with handles := state.handles ++ [handle] }

/-- The outline of a location. -/
def ofLocation (location : Location) : Outlining Json := do
  let absolute ← (location.absoluteUri.mapError .badUri : Except Fault String)
  let canonical ← (location.canonicalUri.mapError .badUri : Except Fault String)
  note absolute
  return .object [("absolute", .string absolute), ("canonical", .string canonical),
    ("scope", .string location.scope)]

end Outlining

/-- An outline of a kind with its parts. -/
def outlineOf (kind : KeywordKind) (parts : List (String × Json)) : Json :=
  .object (("kind", .string kind.name) :: parts)

mutual

/-- The outline of a schema. -/
def Schema.outline (graph : SchemaGraph) : Schema → Outlining Json
  | .always => return .bool true
  | .never => return .bool false
  | .node _ location draft keywords => do
    let place ←
      match location with
      | some location => Outlining.ofLocation location
      | none => pure .null
    let values ← KeywordValue.outlines graph keywords
    return .object [("location", place), ("version", draft.form), ("keywords", .array values)]

/-- The outlines of keywords. -/
def KeywordValue.outlines (graph : SchemaGraph) :
    List (Keyword × KeywordValue) → Outlining (List Json)
  | [] => return []
  | (keyword, value) :: rest => do
    let first ← value.outline graph
    let others ← KeywordValue.outlines graph rest
    return .array [.string keyword.key, first] :: others

/-- The outline of a keyword value. -/
def KeywordValue.outline (graph : SchemaGraph) : KeywordValue → Outlining Json
  | .literal kind value => return outlineOf kind.keywordKind [("value", value)]
  | .stringSet names => return outlineOf .stringSet [("values", .ofTexts names)]
  | .jsonArray values => return outlineOf .jsonArray [("values", .array values)]
  | .schema schema => do
    let inner ← schema.outline graph
    return outlineOf .schema [("schema", inner)]
  | .schemaList schemas => do
    let inner ← Schema.outlineList graph schemas
    return outlineOf .schemaList [("schemas", .array inner)]
  | .schemaMap schemas => do
    let inner ← Schema.outlineMap graph schemas
    return outlineOf .schemaMap [("schemas", .array inner)]
  | .types types => return outlineOf .type [("types", .ofTexts (InstanceType.sortedNames types))]
  | .limit limit =>
    return outlineOf .limit [("limit", limit.bound.getD .null),
      ("exclusive", .bool limit.exclusive), ("exclusive_limit", limit.exclusiveBound.getD .null)]
  | .items form additional => do
    let (every, each) ← form.outline graph
    let additional ← Schema.outlineOption graph additional
    return outlineOf .items [("all_items", every), ("index_schemas", each),
      ("additional_items", additional)]
  | .dependencies names schemas => do
    let inner ← Schema.outlineMap graph schemas
    return outlineOf .dependencies [
      ("properties", .array (names.map fun (name, needed) =>
        .array [.string name, .ofTexts needed])),
      ("schemas", .array inner)]
  | .reference ref uri target => do
    Outlining.meet target
    let place ← (graph.handleUri target : Except Fault String)
    return outlineOf .reference [("ref", .string ref), ("absolute_uri", .string uri),
      ("target", .string place), ("bound", .bool (graph.schema? target).isSome)]

/-- The outlines of the schema for all items and of those for each position. -/
def ItemsForm.outline (graph : SchemaGraph) : ItemsForm → Outlining (Json × Json)
  | .absent => return (.null, .null)
  | .every schema => do
    let inner ← schema.outline graph
    return (inner, .null)
  | .each schemas => do
    let inner ← Schema.outlineList graph schemas
    return (.null, .array inner)

/-- The outlines of a list of schemas. -/
def Schema.outlineList (graph : SchemaGraph) : List Schema → Outlining (List Json)
  | [] => return []
  | schema :: rest => do
    let first ← schema.outline graph
    let others ← Schema.outlineList graph rest
    return first :: others

/-- The outlines of a map of schemas. -/
def Schema.outlineMap (graph : SchemaGraph) : List (String × Schema) → Outlining (List Json)
  | [] => return []
  | (name, schema) :: rest => do
    let first ← schema.outline graph
    let others ← Schema.outlineMap graph rest
    return .array [.string name, first] :: others

/-- The outline of a schema that may be missing. -/
def Schema.outlineOption (graph : SchemaGraph) : Option Schema → Outlining Json
  | none => return .null
  | some schema => schema.outline graph

end

namespace Schema

/-- The outlines of what handles stand for, of each place that was not shown before. -/
def outlineTargets (graph : SchemaGraph) : List HandleId → Outlining (List Json)
  | [] => return []
  | handle :: rest => do
    let place ← (graph.handleUri handle : Except Fault String)
    match graph.schema? handle with
    | none => outlineTargets graph rest
    | some schema =>
      if (← get).places.contains place then outlineTargets graph rest
      else
        Outlining.note place
        let target ← schema.outline graph
        let others ← outlineTargets graph rest
        return .array [.string place, target] :: others

/-- The outlines of what the noted handles stand for, of what those lead to, and so on. Every round
but the last shows a handle that no round before has shown. -/
def outlineRounds (graph : SchemaGraph) : Nat → Outlining (List Json)
  | 0 => return []
  | rounds + 1 => do
    let handles := (← get).handles
    if handles.isEmpty then return []
    modify fun state => { state with handles := [] }
    let targets ← outlineTargets graph handles
    let others ← outlineRounds graph rounds
    return targets ++ others

/-- The outline of a schema with the outlines of the schemas that its references lead to. -/
def outlineWithTargets (graph : SchemaGraph) (schema : Schema) :
    Except Fault (Json × List Json) := do
  let both : Outlining (Json × List Json) := do
    let root ← schema.outline graph
    let targets ← outlineRounds graph (graph.handles.size + 1)
    return (root, targets)
  return (← both.run { handles := [], places := [] }).1

end Schema

end JsonSchema
