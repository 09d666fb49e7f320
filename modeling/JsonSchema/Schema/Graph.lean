import JsonSchema.Schema.Basic

/-!
# Graphs of schemas

The graph gives out identities for nodes and handles and keeps what each handle stands for. A handle
is unbound until its schema is finished; after that it keeps the schema it was bound to
(`SchemaGraph.bind`).
-/

namespace JsonSchema

/-- A schema to be: its place, and the schema once it is finished. -/
structure Handle where
  location : Location
  schema : Option Schema

/-- The handles that were given out, and the identity for the next node. -/
structure SchemaGraph where
  handles : Array Handle
  nextNode : Nat

namespace SchemaGraph

/-- The graph that has given out nothing. -/
def empty : SchemaGraph := { handles := #[], nextNode := 0 }

/-- A handle by its name. -/
def handle? (graph : SchemaGraph) (id : HandleId) : Option Handle :=
  graph.handles[id.index]?

/-- The schema that a handle is bound to. -/
def schema? (graph : SchemaGraph) (id : HandleId) : Option Schema :=
  (graph.handle? id).bind (·.schema)

/-- Adds an unbound handle. -/
def addHandle (graph : SchemaGraph) (location : Location) : HandleId × SchemaGraph :=
  (⟨graph.handles.size⟩, { graph with handles := graph.handles.push { location, schema := none } })

/-- Adds a node that was not there before. -/
def addNode (graph : SchemaGraph) (location : Option Location) (draft : Draft)
    (keywords : List (Keyword × KeywordValue)) : Schema × SchemaGraph :=
  (.node ⟨graph.nextNode⟩ location draft keywords, { graph with nextNode := graph.nextNode + 1 })

/-- The URI of the place that a handle stands for. -/
def handleUri (graph : SchemaGraph) (id : HandleId) : Except Fault String :=
  match graph.handle? id with
  | some handle => handle.location.absoluteUri.mapError .badUri
  | none => .ok ""

/-- Binds a handle to a finished schema. Binding it again is no change for the same schema and a
fault for another. -/
def bind (graph : SchemaGraph) (id : HandleId) (schema : Schema) : Except Fault SchemaGraph := do
  match graph.schema? id with
  | some old =>
    if old.isSame schema then return graph
    throw (.handleBound (← graph.handleUri id))
  | none =>
    let bound := fun (handle : Handle) => { handle with schema := some schema }
    return { graph with handles := graph.handles.modify id.index bound }

/-- The schema that a handle is bound to, a fault if there is none. -/
def target (graph : SchemaGraph) (id : HandleId) : Except Fault Schema := do
  match graph.schema? id with
  | some schema => return schema
  | none => throw (.unresolved (← graph.handleUri id))

/-- A handle in messages: its place, and whether it is bound. -/
def handleText (graph : SchemaGraph) (id : HandleId) : Except Fault String := do
  let uri ← graph.handleUri id
  return "SchemaHandle(" ++ uri ++ ", "
    ++ (if (graph.schema? id).isSome then "bound" else "pending") ++ ")"

end SchemaGraph

end JsonSchema
