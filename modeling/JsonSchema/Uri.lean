import JsonSchema.Uri.Parts
import JsonSchema.Uri.Percent

/-!
# URIs of documents and schemas

A schema is addressed by an absolute URI with a fragment. `Uri.normalize` gives all spellings of one
fragment the same text, which serves as key; `Uri.resolve` makes a reference absolute against the
base of the place where it stands.
-/

namespace JsonSchema.Uri

/-- The base of documents that are loaded without one; no document can be fetched from it. -/
def generatedBase : String := "https://schemagraph.invalid/"

/-- The URI of a document that is loaded without one. -/
def generated : String :=
  generatedBase ++ String.ofList (List.replicate 32 '0') ++ ".json"

/-- Characters that no URI reference may hold, in order. -/
def forbiddenCharacters : List Char :=
  ['\t', '\n', '\r', ' ', '"', '<', '>', '\\', '^', '\x60', '\x7b', '|', '\x7d']

/-- Accepts the texts that are URI references. -/
def check (uri : String) : Except UriFault Unit := do
  let bad := forbiddenCharacters.filter fun c => uri.toList.contains c
  if !bad.isEmpty then throw (.illegalCharacters uri bad)
  let _ ← splitText uri.toList

/-- Whether a URI reference has a scheme. -/
def isAbsolute (uri : String) : Except UriFault Bool :=
  return !(← splitText uri.toList).scheme.isEmpty

/-- Splits a URI at its fragment, which stays encoded. Only a URI with a `#` is taken apart and put
together again. -/
def splitFragment (uri : String) : Except UriFault (String × String) :=
  if uri.toList.contains '#' then do
    let parts ← parseWith [] uri.toList
    return (String.ofList (Parts.text { parts with fragment := [] }), String.ofList parts.fragment)
  else return (uri, "")

/-- A URI without its fragment. -/
def withoutFragment (uri : String) : Except UriFault String :=
  return (← splitFragment uri).1

/-- Escapes text for use as a fragment. -/
def encodeFragment (text : String) : String :=
  String.ofList (encode fragmentMarks text.toList)

/-- The text of an escaped fragment. -/
def decodeFragment (fragment : String) : String :=
  String.ofList (decode fragment.toList)

/-- A base with a fragment behind it; an empty fragment leaves no mark. -/
def withFragment (base fragment : String) : String :=
  if fragment.isEmpty then base else base ++ "#" ++ fragment

/-- The form of a URI that serves as key: the fragment escaped just as far as needed, an empty one
dropped. -/
def normalize (uri : String) : Except UriFault String := do
  let (base, fragment) ← splitFragment uri
  return withFragment base (encodeFragment (decodeFragment fragment))

/-- The segments of a relative path behind those of the base path without its last one. Empty
segments between the first and the last vanish. -/
def mergeSegments (basePath path : List Char) : List (List Char) :=
  if path.head? = some '/' then Text.split '/' path
  else
    let base := Text.split '/' basePath
    let base := if base.getLast? = some [] then base else base.dropLast
    match base ++ Text.split '/' path with
    | [] => []
    | first :: rest => first :: rest.dropLast.filter (!·.isEmpty) ++ rest.getLast?.toList

/-- Removes the segments `.` and `..`, each of the latter with the segment in front of it; `kept` is
in reverse. -/
def removeDots (kept : List (List Char)) : List (List Char) → List (List Char)
  | [] => kept.reverse
  | segment :: rest =>
    if segment = ['.', '.'] then removeDots kept.tail rest
    else if segment = ['.'] then removeDots kept rest
    else removeDots (segment :: kept) rest

/-- The path that a relative path stands for. -/
def joinPath (basePath path : List Char) : List Char :=
  let segments := mergeSegments basePath path
  let resolved := removeDots [] segments
  let resolved :=
    if segments.getLast? = some ['.'] ∨ segments.getLast? = some ['.', '.'] then resolved ++ [[]]
    else resolved
  let joined := Text.join '/' resolved
  if joined.isEmpty then ['/'] else joined

/-- The URI that a reference stands for at a base. -/
def joinTo (base reference : List Char) : Except UriFault (List Char) := do
  if base.isEmpty then return reference
  if reference.isEmpty then return base
  let b ← parseWith [] base
  let r ← parseWith b.scheme reference
  if r.scheme ≠ b.scheme || !schemeIn r.scheme relativeSchemes then return reference
  if schemeIn r.scheme authoritySchemes && !r.authority.isEmpty then return r.text
  let authority := if schemeIn r.scheme authoritySchemes then b.authority else r.authority
  if r.path.isEmpty && r.params.isEmpty then
    let query := if r.query.isEmpty then b.query else r.query
    return Parts.text { r with authority, path := b.path, params := b.params, query }
  return Parts.text { r with authority, path := joinPath b.path r.path }

/-- Resolves a reference against a base, in normal form. A reference that is only a fragment
replaces the fragment of any base; other relative references need a base of a hierarchical
scheme. -/
def resolve (base reference : String) : Except UriFault String := do
  check reference
  if ← isAbsolute reference then normalize reference
  else if reference.toList.head? = some '#' then normalize ((← withoutFragment base) ++ reference)
  else
    let scheme := (← splitText base.toList).scheme
    if !scheme.isEmpty && !schemeIn scheme relativeSchemes then
      throw (.noRelativeForm reference base)
    let joined ← joinTo base.toList reference.toList
    normalize (String.ofList joined)

end JsonSchema.Uri
