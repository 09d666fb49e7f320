import JsonSchema.Loading.Digest
import JsonSchema.Loading.Session
import JsonSchema.Schema.Builder

/-!
# Loading schemas

A document is walked from its root. Before the keywords of an object are loaded, a handle for it is
put into the cache under every URI of its location, so a reference back to an object that is still
loading binds to that handle and the walk ends on cycles too. What one object does is written over a
function that loads the objects below it; `loadNode` closes this with a bound on the depth, which
`Load.depthBound` takes from the sizes of all documents in reach.
-/

namespace JsonSchema.Load

/-- A function that loads a value as the schema at a location. -/
abbrev NodeLoader := Json → Location → Draft → Load Schema

/-- The draft that a document names, or the default one. -/
def draftOf (loader : Loader) (document : Json) : Draft :=
  match document.member? Builtin.schemaUri.key with
  | some (.string uri) => (Draft.ofSchemaUri? uri).getD loader.options.defaultDraft
  | _ => loader.options.defaultDraft

/-! ## References -/

/-- A schema that refers to a handle that is not bound yet. -/
def referTo (handle : HandleId) (location : Location) (draft : Draft) : Load Schema := do
  match (← get).graph.handle? handle with
  | some known =>
    let ref ← checkUri known.location.canonicalUri
    let uri ← checkUri known.location.absoluteUri
    addNode location draft [(Builtin.ref, .reference ref uri handle)]
  | none => throw (.fault (.unresolved ""))

/-- Fetches a document into the cache. Generated URIs are never fetched. -/
def fetch (loader : Loader) (uri : String) (origin : Location) : Load Unit := do
  if !loader.options.allowRemoteFetch || Text.startsWith uri.toList Uri.generatedBase.toList then
    failAt .refUnresolvable origin (.fetchingDisabled uri)
  modify fun session => { session with fetched := session.fetched ++ [uri] }
  match loader.client.fetch uri with
  | .ok document => addDocument uri document (draftOf loader document.value)
  | .error reason => failAt .documentFetchFailed origin (.fetchFailed reason)

/-- The pointer of a fragment. -/
def pointerOf (uri fragment : String) (origin : Location) : Load Pointer := do
  match Pointer.parseFragment fragment with
  | .ok pointer => return pointer
  | .error fault => failAt .refUnresolvable origin (.unresolvable uri (some (.badPointer fault)))

/-- The place of a URI among the declared identifiers. -/
def findById (uri : String) : Load (Option (String × Pointer)) := do
  check ((← get).cache.findById uri)

/-- The document and pointer that a URI stands for: a way into a known document, a declared
identifier, or a document that has to be fetched first. -/
def locate (loader : Loader) (uri : String) (origin : Location) : Load (String × Pointer) := do
  let (base, fragment) ← checkUri (Uri.splitFragment uri)
  let known := (← document? base).isSome
  if known && Cache.isPointerFragment fragment then
    return (base, ← pointerOf uri fragment origin)
  match ← findById uri with
  | some place => return place
  | none =>
    if known then failAt .refUnresolvable origin (.unresolvable uri none)
    fetch loader base origin
    match ← findById uri with
    | some place => return place
    | none =>
      if Cache.isPointerFragment fragment then return (base, ← pointerOf uri fragment origin)
      failAt .refUnresolvable origin (.unresolvable uri none)

/-- The value at a pointer of a document and its location. -/
def valueAt (documentUri : String) (stored : StoredDocument) (pointer : Pointer) :
    Except Fault (Json × Location) := do
  let value ← (Pointer.resolve stored.document.value pointer).mapError .badPointer
  let location ←
    (Location.ofDocument documentUri stored.document.value pointer stored.draft.idKey).mapError
      Fault.ofWalk
  return (value, location)

/-- The handle of the schema at a URI, which is loaded if it was not met before. -/
def resolve (loader : Loader) (load : NodeLoader) (uri : String) (origin : Location) :
    Load HandleId := do
  match ← lookup uri with
  | some handle => return handle
  | none =>
    let (documentUri, pointer) ← locate loader uri origin
    match ← document? documentUri with
    | none => throw (.fault (.documentMissing documentUri))
    | some stored =>
      match valueAt documentUri stored pointer with
      | .error fault => failAt .refUnresolvable origin (.unresolvable uri (some fault))
      | .ok (value, target) =>
        let handle ←
          match ← lookupLocation target with
          | some handle => pure handle
          | none => do
            let schema ← load value target stored.draft
            match ← lookupLocation target with
            | some handle => pure handle
            | none => addBound target schema
        enterUri uri handle
        return handle

/-- The keys beside a reference that are worth a warning, in order. -/
def ignoredSiblings (members : List (String × Json)) : List String :=
  let keys := (Members.keys members).filter fun key =>
    key ≠ Builtin.ref.key && key ≠ Builtin.schemaUri.key
  keys.mergeSort fun a b => decide (a ≤ b)

/-- Loads an object that is a reference; the keywords beside the reference are ignored. -/
def loadReference (loader : Loader) (load : NodeLoader) (members : List (String × Json))
    (ref : Json) (location : Location) (builder : SchemaBuilder) : Load SchemaBuilder := do
  let refLocation := location.child [Builtin.ref.key]
  match ref with
  | .string ref =>
    let siblings := ignoredSiblings members
    if !siblings.isEmpty then
      recordWarning loader .refSiblingsIgnored location (.siblingsIgnored siblings)
    match Uri.resolve location.scope ref with
    | .error fault =>
      recordError loader .uriMalformed refLocation (.badReference ref (.badUri fault))
      return builder
    | .ok uri =>
      let handle ← resolve loader load uri location
      check (builder.put Builtin.ref (.reference ref uri handle))
  | other =>
    recordError loader .keywordTypeMismatch refLocation
      (.wrongShape Builtin.ref.key Shape.string.name other.shapeName)
    return builder

/-! ## Keywords -/

/-- Loads a list of schemas; a single object counts as a list of one. -/
def loadList (load : NodeLoader) (key : String) (value : Json) (location : Location)
    (draft : Draft) : Load (List Schema) := do
  match value with
  | .object _ => return [← load value location draft]
  | _ =>
    check (Digest.checkSchemaList key value)
    let items ← check value.elements
    items.zipIdx.mapM fun (item, position) => load item (location.child [toString position]) draft

/-- Loads the schemas that are named by the members of an object. -/
def loadMap (load : NodeLoader) (members : List (String × Json)) (location : Location)
    (draft : Draft) : Load (List (String × Schema)) :=
  members.mapM fun (name, value) => do return (name, ← load value (location.child [name]) draft)

/-- Loads dependencies: each is a schema or a list of names. -/
def loadDependencies (load : NodeLoader) (key : String) (members : List (String × Json))
    (location : Location) (draft : Draft) : Load KeywordValue := do
  let addDependency := fun (names, schemas) (name, value) => do
    match value with
    | .object _ | .bool _ =>
      let schema ← load value (location.child [name]) draft
      return (names, schemas ++ [(name, schema)])
    | _ =>
      let needed ← check (Digest.dependency key name value draft)
      return (names ++ [(name, needed)], schemas)
  let (names, schemas) ← members.foldlM addDependency ([], [])
  check (KeywordValue.makeDependencies names schemas)

/-- Loads the value of a keyword, other than limits and items. -/
def loadValue (load : NodeLoader) (keyword : Keyword) (kind : KeywordKind) (value : Json)
    (location : Location) (draft : Draft) : Load KeywordValue := do
  let key := keyword.key
  let location := location.child [key]
  match kind with
  | .schema => return .schema (← load value location draft)
  | .schemaList => return .schemaList (← loadList load key value location draft)
  | .schemaMap =>
    match value with
    | .object members => return .schemaMap (← loadMap load members location draft)
    | _ => throw (.fault (.unfit key kind))
  | .type => check (Digest.types key value draft)
  | _ =>
    if keyword = Builtin.required then check (Digest.required key value draft)
    else
      match kind with
      | .stringSet => return .stringSet (← check (Digest.names key value true))
      | .dependencies =>
        match value with
        | .object members => loadDependencies load key members location draft
        | _ => throw (.fault (.unfit key kind))
      | _ => check (Digest.leaf key kind value)

/-- Adds a keyword with the value that `act` loads; a fault about the value becomes an issue at the
location. -/
def addKeyword (loader : Loader) (keyword : Keyword) (location : Location) (act : Load KeywordValue)
    (builder : SchemaBuilder) : Load SchemaBuilder := do
  return (← recordingFaults loader location do check (builder.put keyword (← act))).getD builder

/-- Records a key that is no keyword of the draft, if the options ask for it. -/
def recordUnknown (loader : Loader) (key : String) (location : Location) : Load Unit := do
  if loader.options.reportUnknownKeywords then
    if loader.options.strict then recordError loader .keywordUnknown location (.unknownKeyword key)
    else recordWarning loader .keywordUnknown location (.unknownKeyword key)

/-- Loads one member of an object. The members whose values have the right shape are gathered beside
the builder. -/
def loadMember (loader : Loader) (load : NodeLoader) (location : Location) (draft : Draft)
    (key : String) (value : Json) (accepted : List (String × Json)) (builder : SchemaBuilder) :
    Load (List (String × Json) × SchemaBuilder) := do
  match loader.registry.find? key (some draft) with
  | none =>
    recordUnknown loader key location
    return (accepted, builder)
  | some keyword =>
    let variant := keyword.variantFor draft
    match value.shape? with
    | none => throw (.fault (.notJson value.typeName))
    | some shape =>
      if !variant.expects.contains shape then
        recordError loader .keywordTypeMismatch (location.child [key])
          (.wrongShape key (Json.quotedNames (Shape.sortedNames variant.expects)) shape.name)
        return (accepted, builder)
      let accepted := accepted ++ [(key, value)]
      if keyword.mergedInto.isSome || variant.kind = .limit || variant.kind = .items then
        return (accepted, builder)
      let builder ←
        addKeyword loader keyword (location.child [key])
          (loadValue load keyword variant.kind value location draft) builder
      return (accepted, builder)

/-- Adds the limit of a bound and its exclusive companion. -/
def loadLimit (loader : Loader) (location : Location) (draft : Draft)
    (accepted : List (String × Json)) (bound exclusive : Keyword) (builder : SchemaBuilder) :
    Load SchemaBuilder := do
  let key := if (accepted.lookup bound.key).isSome then bound.key else exclusive.key
  let added ← recordingFaults loader (location.child [key]) do
    let limit ← check <|
      Digest.limit bound.key exclusive.key (accepted.lookup bound.key)
        (accepted.lookup exclusive.key) draft
    match limit with
    | some limit => check (builder.put bound (.limit limit))
    | none => return builder
  return added.getD builder

/-- Adds what is said about items and additional items. A fault in the first leaves the second
out. -/
def loadItems (loader : Loader) (load : NodeLoader) (location : Location) (draft : Draft)
    (accepted : List (String × Json)) (builder : SchemaBuilder) : Load SchemaBuilder := do
  let itemsLocation := location.child [Builtin.items.key]
  let withItems ← recordingFaults loader itemsLocation do
    match Digest.present (accepted.lookup Builtin.items.key) with
    | some (.array items) =>
      let schemas ← items.zipIdx.mapM fun (item, position) =>
        load item (itemsLocation.child [toString position]) draft
      check (builder.items none (some schemas))
    | some value =>
      let schema ← load value itemsLocation draft
      check (builder.items (some schema) none)
    | none => return builder
  match withItems with
  | none => return builder
  | some builder =>
    let withAdditional ← recordingFaults loader itemsLocation do
      match Digest.present (accepted.lookup Builtin.additionalItems.key) with
      | some value =>
        let schema ← load value (location.child [Builtin.additionalItems.key]) draft
        check (builder.additionalItems schema)
      | none => return builder
    return withAdditional.getD builder

/-- Loads the keywords of an object: first those that stand for themselves in order, then the
limits, then the items. -/
def loadKeywords (loader : Loader) (load : NodeLoader) (members : List (String × Json))
    (location : Location) (draft : Draft) (builder : SchemaBuilder) : Load SchemaBuilder := do
  let addMember := fun (accepted, builder) (key, value) =>
    loadMember loader load location draft key value accepted builder
  let (accepted, builder) ← members.foldlM addMember ([], builder)
  let builder ←
    loadLimit loader location draft accepted Builtin.minimum Builtin.exclusiveMinimum builder
  let builder ←
    loadLimit loader location draft accepted Builtin.maximum Builtin.exclusiveMaximum builder
  let hasItems :=
    (accepted.lookup Builtin.items.key).isSome
      || (accepted.lookup Builtin.additionalItems.key).isSome
  if hasItems then loadItems loader load location draft accepted builder else return builder

/-! ## Nodes -/

/-- The location of an object under the identifier that it declares; one that makes no URI is an
issue. -/
def applyIdentifier (loader : Loader) (identifier : Json) (location : Location) :
    Load Location := do
  match identifier with
  | .string text =>
    match location.withId text with
    | .ok named => return named
    | .error fault =>
      recordError loader .uriMalformed location (.badIdentifier text (.badUri fault))
      return location
  | _ => return location

/-- Loads an object that was not met before: a handle is put into the cache, and bound when all
keywords are there. -/
def loadObject (loader : Loader) (load : NodeLoader) (members : List (String × Json))
    (location : Location) (draft : Draft) : Load Schema := do
  let ref := members.lookup Builtin.ref.key
  let location ←
    match ref, members.lookup draft.idKey with
    | none, some identifier => applyIdentifier loader identifier location
    | _, _ => pure location
  let handle ← start location
  let builder := SchemaBuilder.empty (some location) draft
  let builder ←
    match ref with
    | some ref => loadReference loader load members ref location builder
    | none => loadKeywords loader load members location draft builder
  let schema ← addNode location draft builder.keywords
  bind handle schema
  return schema

/-- Loads a value as a schema: a truth value is a schema of its own, an object that was met before
is not loaded again, and anything else is an issue. -/
def nodeWith (loader : Loader) (load : NodeLoader) (value : Json) (location : Location)
    (draft : Draft) : Load Schema := do
  match value with
  | .bool b => return .ofBool b
  | .object members =>
    match ← lookupLocation location with
    | none => loadObject loader load members location draft
    | some handle =>
      match (← get).graph.schema? handle with
      | some schema => return schema
      | none => referTo handle location draft
  | other =>
    recordError loader .schemaTypeMismatch location (.notASchema other.shapeName)
    return .always

/-- Loads a value as a schema, at most `depth` objects deep. -/
def loadNode (loader : Loader) (depth : Nat) (value : Json) (location : Location) (draft : Draft) :
    Load Schema :=
  match depth with
  | 0 => throw (.fault .exhausted)
  | depth + 1 => nodeWith loader (loadNode loader depth) value location draft

/-- A depth that loading a value cannot exceed: each object on the way down stands at a place of its
own in the value, in a stored document or in one that the client serves. -/
def depthBound (loader : Loader) (cache : Cache) (value : Json) : Nat :=
  value.size + cache.documentSize + loader.client.size + 2

/-- Loads a value as the schema at a location. A document that is loaded from its root becomes
known. -/
def load (loader : Loader) (document : Document) (location : Location) : Load Schema := do
  let draft ←
    match ← document? location.documentUri with
    | some stored => pure stored.draft
    | none => do
      let draft := draftOf loader document.value
      if location.pointer.isEmpty then addDocument location.documentUri document draft
      pure draft
  let depth := depthBound loader (← get).cache document.value
  loadNode loader depth document.value location draft

/-! ## Whole documents -/

/-- Starts a session that knows the preloaded documents. -/
def newSession (loader : Loader) : Load Unit := do
  modify fun session => { session with cache := .empty, report := .empty }
  loader.preloaded.forM fun (uri, document) =>
    addDocument uri document (draftOf loader document.value)

/-- The URI of a document that was given none: its own absolute identifier, the default, or a
generated one. -/
def documentUri (loader : Loader) (document : Json) : Except Uri.UriFault String := do
  let fallback := (loader.options.defaultBaseUri.filter (!·.isEmpty)).getD Uri.generated
  match document.member? (draftOf loader document).idKey with
  | some (.string identifier) =>
    if ← Uri.isAbsolute identifier then return identifier else return fallback
  | _ => return fallback

/-- Loads a document in a session of its own, which must end without errors. -/
def readSchema (loader : Loader) (document : Document) (baseUri : Option String) :
    Load Schema := fun session =>
  let read : Load Schema := do
    newSession loader
    let uri ←
      match baseUri.filter (!·.isEmpty) with
      | some uri => pure uri
      | none => checkUri (documentUri loader document.value)
    let uri ← checkUri (Uri.withoutFragment uri)
    if (← document? uri).isNone then addDocument uri document (draftOf loader document.value)
    let schema ← load loader document (← checkUri (Location.root uri))
    let _ ← finalize
    return schema
  let (result, inner) := read session
  (result, { session with graph := inner.graph, fetched := inner.fetched })

/-- Makes a document known to all sessions under an absolute URI. -/
def preload (loader : Loader) (uri : String) (document : Document) : Except Fault Loader := do
  (Uri.check uri).mapError .badUri
  if !(← (Uri.isAbsolute uri).mapError .badUri) then throw (.notAbsolute uri)
  let uri ← (Uri.withoutFragment uri).mapError .badUri
  return { loader with preloaded := Members.put loader.preloaded uri document }

end JsonSchema.Load
