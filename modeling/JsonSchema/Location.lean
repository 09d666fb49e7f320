import JsonSchema.Pointer
import JsonSchema.Text.Integer
import JsonSchema.Uri

/-!
# Locations of schemas

A location says where a schema stands, by document and pointer, and under which base its references
resolve. The base changes at every identifier on the way down. A schema has up to three URIs: its
document with the pointer, the identifier it declares, and the nearest identifier above it with the
pointer from there; `Location.cacheKeys` lists them. `Location.ofDocument` finds the location of a
pointer by walking down the document.
-/

namespace JsonSchema

/-- Where a schema stands and how it can be addressed. -/
structure Location where
  /-- The URI of the document. -/
  documentUri : String
  /-- The way from the root of the document. -/
  pointer : Pointer
  /-- The base for references. -/
  scope : String
  /-- The URI that the nearest identifier gives to its schema, the document's if there is none. -/
  idBase : String
  /-- The way from the schema of the nearest identifier. -/
  idPointer : Pointer
  /-- The identifier that the schema itself declares, resolved. -/
  declaredId : Option String
  deriving DecidableEq, Repr, Inhabited

/-- Why one step of a walk leads nowhere. -/
inductive StepFault where
  | memberMissing (name : String)
  | notAnInteger (text : String)
  | outOfRange (value : Json)
  | notIndexable (typeName : String)

/-- Why a walk down a document fails: a bad identifier on the way, or a step that leads nowhere. -/
inductive WalkFault where
  | uri (fault : Uri.UriFault)
  | step (fault : StepFault)

/-- The text of a fault. -/
def StepFault.message : StepFault → String
  | .memberMissing name => Text.quoted name
  | .notAnInteger text => "invalid literal for int() with base 10: " ++ Text.quoted text
  | .outOfRange (.string _) => "string index out of range"
  | .outOfRange (.bytes _) => "index out of range"
  | .outOfRange _ => "list index out of range"
  | .notIndexable typeName => "'" ++ typeName ++ "' object is not subscriptable"

namespace Walk

/-- The element at a position, counted from the end if it is negative. -/
def elementAt? {α : Type} (elements : List α) (position : Int) : Option α :=
  if 0 ≤ position then elements[position.toNat]?
  else if -position ≤ elements.length then elements[(elements.length + position).toNat]?
  else none

/-- The value at a position of a list, of a text or of a byte string. -/
def valueAt (value : Json) (position : Int) : Except StepFault Json :=
  let found (elements : List Json) : Except StepFault Json :=
    match elementAt? elements position with
    | some element => .ok element
    | none => .error (.outOfRange value)
  match value with
  | .array items => found items
  | .string text => found (Json.characters text)
  | .bytes text => found (Json.byteNumbers text)
  | other => .error (.notIndexable other.typeName)

/-- The value that a segment leads to where it names no member or index of its own: any integer
counts as a position. -/
def looseStep (value : Json) (segment : String) : Except StepFault Json :=
  match value, Text.integerOf? segment with
  | .object _, _ => .error (.memberMissing segment)
  | _, none => .error (.notAnInteger segment)
  | _, some position => valueAt value position

/-- The value that a segment leads to. -/
def step (value : Json) (segment : String) : Except StepFault Json :=
  match Pointer.step value segment with
  | .ok child => .ok child
  | .error _ => looseStep value segment

end Walk

namespace Location

/-- The location of the root of a document. -/
def root (uri : String) : Except Uri.UriFault Location := do
  let documentUri ← Uri.withoutFragment uri
  return {
    documentUri, pointer := [], scope := documentUri, idBase := documentUri, idPointer := []
    declaredId := none }

/-- The location further down. -/
def child (location : Location) (segments : Pointer) : Location :=
  { location with
    pointer := location.pointer ++ segments
    idPointer := location.idPointer ++ segments
    declaredId := none }

/-- The location of a schema that declares an identifier. One with a fragment names the schema and
leaves the base. -/
def withId (location : Location) (identifier : String) : Except Uri.UriFault Location := do
  let resolved ← Uri.resolve location.scope identifier
  let (base, fragment) ← Uri.splitFragment resolved
  if fragment.isEmpty then
    return { location with
      scope := resolved, idBase := base, idPointer := [], declaredId := some resolved }
  else return { location with declaredId := some resolved }

/-- The location that a walk from `location` down `pointer` comes to, with every identifier on the
way applied but that of the last value. -/
def walk (idKey : String) (location : Location) (value : Json) : Pointer → Except WalkFault Location
  | [] => .ok location
  | segment :: rest => do
    let here ←
      match value.member? idKey with
      | some (.string identifier) => (location.withId identifier).mapError .uri
      | _ => pure location
    let next ← (Walk.step value segment).mapError .step
    walk idKey (here.child [segment]) next rest

/-- The location of the value at a pointer in a document. -/
def ofDocument (uri : String) (document : Json) (pointer : Pointer) (idKey : String) :
    Except WalkFault Location := do
  let start ← (root uri).mapError .uri
  walk idKey start document pointer

/-- The text of a pointer as a fragment. -/
def fragmentOf (pointer : Pointer) : String :=
  "#" ++ Uri.encodeFragment pointer.text

/-- The way from the root of the document as a fragment. -/
def fragment (location : Location) : String :=
  fragmentOf location.pointer

/-- The URI of the document with the way from its root. -/
def absoluteUri (location : Location) : Except Uri.UriFault String :=
  Uri.normalize (location.documentUri ++ location.fragment)

/-- The URI of the nearest identifier with the way from there. -/
def identifierUri (location : Location) : Except Uri.UriFault String :=
  Uri.normalize (location.idBase ++ fragmentOf location.idPointer)

/-- The identifier that the schema declares, or else its URI by the nearest one. -/
def canonicalUri (location : Location) : Except Uri.UriFault String :=
  match location.declaredId with
  | some uri => .ok uri
  | none => location.identifierUri

/-- Every URI under which the schema may be looked up. -/
def cacheKeys (location : Location) : Except Uri.UriFault (List String) := do
  let absolute ← location.absoluteUri
  let canonical ← location.canonicalUri
  let identifier ← location.identifierUri
  let keys := if canonical = absolute then [absolute] else [absolute, canonical]
  return if keys.contains identifier then keys else keys ++ [identifier]

/-- Whether two locations share a URI by which either may be looked up. -/
def isCacheEquivalent (a b : Location) : Except Uri.UriFault Bool := do
  if (← a.absoluteUri) = (← b.absoluteUri) then return true
  return (← a.canonicalUri) = (← b.canonicalUri)

end Location

end JsonSchema
