import JsonSchema.Keyword.Registry
import JsonSchema.Loading.Cache
import JsonSchema.Loading.Issue
import JsonSchema.Loading.Options

/-!
# Sessions

A session loads documents into one cache and gathers its issues in one report. Loading is a
computation that changes the session and either gives a value or stops; what was done before it
stopped stays done. In strict mode an error stops it, a fatal issue always does.
-/

namespace JsonSchema

/-- What loading works with: options, keywords, a client for further documents, and documents known
beforehand. -/
structure Loader where
  options : Options
  registry : Registry
  client : DocumentClient
  preloaded : List (String × Document)

/-- What loading has done so far. The graph and the list of fetched URIs outlast a session. -/
structure Session where
  graph : SchemaGraph
  fetched : List String
  cache : Cache
  report : LoadReport

/-- A session that has done nothing. -/
def Session.empty : Session :=
  { graph := .empty, fetched := [], cache := .empty, report := .empty }

/-- A computation that loads. -/
abbrev Load := ExceptT Stop (StateM Session)

namespace Load

/-- The value of a check, whose fault stops loading. -/
def check {α : Type} : Except Fault α → Load α
  | .ok value => pure value
  | .error fault => throw (.fault fault)

/-- The value of a computation on URIs. -/
def checkUri {α : Type} (result : Except Uri.UriFault α) : Load α :=
  check (result.mapError .badUri)

/-- Adds an issue to the report; in strict mode an error ends the session, and so does a fatal issue
in any mode. -/
def record (strict : Bool) (issue : Issue) : Load Unit := do
  modify fun session => { session with report := session.report.add issue }
  if issue.isFatal || (issue.isError && strict) then throw (.rejected (← get).report)

/-- Adds an issue to the report and ends the session. -/
def fail {α : Type} (issue : Issue) : Load α := do
  modify fun session => { session with report := session.report.add issue }
  throw (.rejected (← get).report)

/-- The report of a session that ends without errors. -/
def finalize : Load LoadReport := do
  let report := (← get).report
  if report.hasErrors then throw (.rejected report)
  return report

/-- The issue of a problem at a location. -/
def issueAt (code : IssueCode) (level : IssueLevel) (location : Location) (problem : Problem) :
    Load Issue := do
  return { code, level, location := ← checkUri location.absoluteUri, problem }

/-- Records an error at a location. -/
def recordError (loader : Loader) (code : IssueCode) (location : Location) (problem : Problem) :
    Load Unit := do
  record loader.options.strict (← issueAt code .error location problem)

/-- Records a warning at a location. -/
def recordWarning (loader : Loader) (code : IssueCode) (location : Location) (problem : Problem) :
    Load Unit := do
  record loader.options.strict (← issueAt code .warn location problem)

/-- Ends the session with an error at a location. -/
def failAt {α : Type} (code : IssueCode) (location : Location) (problem : Problem) : Load α := do
  fail (← issueAt code .error location problem)

/-- The value of a computation, or none if a fault about an unusable value stopped it. Such a fault
becomes an issue at the location. -/
def recordingFaults {α : Type} (loader : Loader) (location : Location) (act : Load α) :
    Load (Option α) :=
  tryCatch (some <$> act) fun stop =>
    match stop with
    | .fault fault =>
      if fault.isValueFault then do
        record loader.options.strict (.ofFault (← checkUri location.absoluteUri) fault)
        return none
      else throw stop
    | .rejected _ => throw stop

/-! ## The cache of the session -/

/-- The handle under a URI. -/
def lookup (uri : String) : Load (Option HandleId) := do
  checkUri ((← get).cache.lookup uri)

/-- The handle under one of the URIs of a location. -/
def lookupLocation (location : Location) : Load (Option HandleId) := do
  checkUri ((← get).cache.lookupLocation location)

/-- Starts a schema at a location. -/
def start (location : Location) : Load HandleId := do
  let session ← get
  let (handle, cache, graph) ← checkUri (session.cache.start session.graph location)
  set { session with cache, graph }
  return handle

/-- Binds a handle to its schema. -/
def bind (handle : HandleId) (schema : Schema) : Load Unit := do
  let session ← get
  let graph ← check (session.graph.bind handle schema)
  set { session with graph }

/-- Puts a handle under one more URI. -/
def enterUri (uri : String) (handle : HandleId) : Load Unit := do
  let session ← get
  let cache ← checkUri (session.cache.enterUri uri handle)
  set { session with cache }

/-- A handle outside the cache that is bound from the start. -/
def addBound (location : Location) (schema : Schema) : Load HandleId := do
  let session ← get
  let (handle, graph) := session.graph.addHandle location
  set { session with graph }
  bind handle schema
  return handle

/-- A node of its own with the given keywords. -/
def addNode (location : Location) (draft : Draft) (keywords : List (Keyword × KeywordValue)) :
    Load Schema := do
  let session ← get
  let (schema, graph) := session.graph.addNode (some location) draft keywords
  set { session with graph }
  return schema

/-- The document at a URI. -/
def document? (uri : String) : Load (Option StoredDocument) := do
  checkUri ((← get).cache.document? uri)

/-- Stores a document. -/
def addDocument (uri : String) (document : Document) (draft : Draft) : Load Unit := do
  let session ← get
  let cache ← check (session.cache.addDocument uri document draft)
  set { session with cache }

end Load

end JsonSchema
