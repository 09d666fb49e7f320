import JsonSchema.Json.Basic

/-!
# Documents

A document is a JSON value together with the identity of where it came from, so that giving the same
document twice can be told from giving an equal one. A client serves the documents of some URIs.
-/

namespace JsonSchema

/-- The identity of a document. -/
structure DocumentId where
  index : Nat
  deriving DecidableEq, Repr, Inhabited

/-- A document of its own. -/
structure Document where
  id : DocumentId
  value : Json
  deriving Inhabited

namespace Document

/-- Whether two documents are one and the same. Truth values and null have no identity apart from
their value. -/
def isSame (a b : Document) : Bool :=
  match a.value, b.value with
  | .null, .null => true
  | .bool x, .bool y => x = y
  | _, _ => a.id = b.id

end Document

/-- The documents that can be fetched: each URI with its document or the reason why it cannot be
had. -/
structure DocumentClient where
  answers : List (String × Except String Document)

namespace DocumentClient

/-- What the client says to a URI; one that it does not know is not found. -/
def fetch (client : DocumentClient) (uri : String) : Except String Document :=
  (client.answers.lookup uri).getD (.error "not found")

/-- The number of values in all documents of the client. -/
def size (client : DocumentClient) : Nat :=
  client.answers.foldl (fun total (_, answer) =>
    match answer with
    | .ok document => total + document.value.size
    | .error _ => total) 0

end DocumentClient

end JsonSchema
