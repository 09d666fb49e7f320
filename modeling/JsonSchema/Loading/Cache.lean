import JsonSchema.Loading.Document
import JsonSchema.Schema.Graph

/-!
# The cache of a session

The cache of a session keeps the handles of all schemas met so far under every URI that leads to
them, and the documents by URI. The first handle under a URI stays. Identifiers declared inside the
documents are found by `Cache.findById`.
-/

namespace JsonSchema

/-- A document with the draft under which it is read. -/
structure StoredDocument where
  document : Document
  draft : Draft

/-- The handles and documents of a session. -/
structure Cache where
  handles : List (String × HandleId)
  documents : List (String × StoredDocument)

namespace Cache

/-- The cache of a session that has met nothing. -/
def empty : Cache := { handles := [], documents := [] }

/-- The number of URIs that have a handle. -/
def size (cache : Cache) : Nat :=
  cache.handles.length

/-- The number of values in all stored documents. -/
def documentSize (cache : Cache) : Nat :=
  cache.documents.foldl (fun total (_, stored) => total + stored.document.value.size) 0

/-- Puts a handle under each of some URIs that has none. -/
def enter (cache : Cache) (uris : List String) (handle : HandleId) : Cache :=
  { cache with
    handles := uris.foldl (fun handles uri => Members.putNew handles uri handle) cache.handles }

/-- Starts a schema at a location: a new handle under every URI of it. -/
def start (cache : Cache) (graph : SchemaGraph) (location : Location) :
    Except Uri.UriFault (HandleId × Cache × SchemaGraph) := do
  let keys ← location.cacheKeys
  let (handle, graph) := graph.addHandle location
  return (handle, cache.enter keys handle, graph)

/-- Puts a handle under one more URI if it has none. -/
def enterUri (cache : Cache) (uri : String) (handle : HandleId) : Except Uri.UriFault Cache := do
  return cache.enter [← Uri.normalize uri] handle

/-- The handle under a URI. -/
def lookup (cache : Cache) (uri : String) : Except Uri.UriFault (Option HandleId) := do
  return cache.handles.lookup (← Uri.normalize uri)

/-- The handle under one of the URIs of a location. -/
def lookupLocation (cache : Cache) (location : Location) :
    Except Uri.UriFault (Option HandleId) := do
  return (← location.cacheKeys).findSome? fun key => cache.handles.lookup key

/-- The document at a URI. -/
def document? (cache : Cache) (uri : String) : Except Uri.UriFault (Option StoredDocument) := do
  return cache.documents.lookup (← Uri.withoutFragment uri)

/-- Stores a document, unless another one is there. -/
def addDocument (cache : Cache) (uri : String) (document : Document) (draft : Draft) :
    Except Fault Cache := do
  let uri ← (Uri.withoutFragment uri).mapError .badUri
  let stored := { cache with documents := Members.put cache.documents uri { document, draft } }
  match cache.documents.lookup uri with
  | some old => if old.document.isSame document then return stored else throw (.documentClash uri)
  | none => return stored

/-! ## Identifiers -/

/-- Keywords whose values are data and hold no schemas. -/
def dataKeys : List String := ["enum", "const", "default", "examples"]

/-- Keywords whose values name schemas. -/
def schemaMapKeys : List String :=
  ["properties", "patternProperties", "definitions", "dependencies"]

/-- The location of an object under its identifier, with the index that has the identifier. An
identifier that makes no URI changes nothing. -/
def indexIdentifier (idKey : String) (members : List (String × Json)) (location : Location)
    (index : List (String × Pointer)) : Location × List (String × Pointer) :=
  match members.lookup idKey, members.lookup Builtin.ref.key with
  | some (.string identifier), none =>
    match location.withId identifier with
    | .ok named =>
      match named.declaredId with
      | some uri => (named, Members.putNew index uri named.pointer)
      | none => (named, index)
    | .error _ => (location, index)
  | _, _ => (location, index)

mutual

/-- Adds the identifiers that a value declares to an index; the names in a map of schemas are no
keywords. -/
def indexValue (idKey : String) (isMap : Bool) (location : Location)
    (index : List (String × Pointer)) : Json → List (String × Pointer)
  | .object members =>
    let (location, index) :=
      if isMap then (location, index) else indexIdentifier idKey members location index
    indexMembers idKey isMap location index members
  | .array items => indexItems idKey location index 0 items
  | _ => index

/-- Adds the identifiers that members declare. -/
def indexMembers (idKey : String) (isMap : Bool) (location : Location)
    (index : List (String × Pointer)) : List (String × Json) → List (String × Pointer)
  | [] => index
  | (name, value) :: rest =>
    let index :=
      if !isMap && dataKeys.contains name then index
      else
        let isMap := !isMap && schemaMapKeys.contains name
        indexValue idKey isMap (location.child [name]) index value
    indexMembers idKey isMap location index rest

/-- Adds the identifiers that items declare. -/
def indexItems (idKey : String) (location : Location) (index : List (String × Pointer))
    (position : Nat) : List Json → List (String × Pointer)
  | [] => index
  | value :: rest =>
    let index := indexValue idKey false (location.child [toString position]) index value
    indexItems idKey location index (position + 1) rest

end

/-- The identifiers that a document declares, with the ways to their schemas; the first of two equal
ones counts. -/
def identifiers (uri : String) (stored : StoredDocument) :
    Except Uri.UriFault (List (String × Pointer)) := do
  let root ← Location.root uri
  return indexValue stored.draft.idKey false root [] stored.document.value

/-- The identifiers of the document at a URI. -/
def idIndex (cache : Cache) (uri : String) : Except Fault (List (String × Pointer)) :=
  match cache.documents.lookup uri with
  | some stored => (identifiers uri stored).mapError .badUri
  | none => .error (.documentMissing uri)

/-- Whether a fragment is a way from the schema that its base identifies. -/
def isPointerFragment (fragment : String) : Bool :=
  fragment.isEmpty || Text.startsWith fragment.toList ['/']

/-- The place of a URI in one document: the identifier that it is, or the way from the one that it
starts with. -/
def findIn (uri base fragment : String) (index : List (String × Pointer)) :
    Except Fault (Option Pointer) :=
  match index.lookup uri with
  | some pointer => .ok (some pointer)
  | none =>
    match index.lookup base with
    | some pointer =>
      if isPointerFragment fragment then
        match Pointer.parseFragment fragment with
        | .ok rest => .ok (some (pointer ++ rest))
        | .error fault => .error (.badPointer fault)
      else .ok none
    | none => .ok none

/-- The first place of a URI among some documents. -/
def findAmong (uri base fragment : String) :
    List (String × StoredDocument) → Except Fault (Option (String × Pointer))
  | [] => .ok none
  | (documentUri, stored) :: rest => do
    let index ← (identifiers documentUri stored).mapError .badUri
    match ← findIn uri base fragment index with
    | some pointer => return some (documentUri, pointer)
    | none => findAmong uri base fragment rest

/-- The document and place of a URI that is a declared identifier or starts with one. -/
def findById (cache : Cache) (uri : String) : Except Fault (Option (String × Pointer)) := do
  let uri ← (Uri.normalize uri).mapError .badUri
  let (base, fragment) ← (Uri.splitFragment uri).mapError .badUri
  findAmong uri base fragment cache.documents

end Cache

end JsonSchema
