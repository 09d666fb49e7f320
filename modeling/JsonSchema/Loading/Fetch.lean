import JsonSchema.Fault
import JsonSchema.Json.Reader
import JsonSchema.Uri

/-!
# Fetching documents

A document is fetched by its URI: from a server if the scheme is `http` or `https`, from a file if
it is `file`, and not at all otherwise. `Transport.fetch` gives the JSON value found there; a fault
says why there is none.
-/

namespace JsonSchema

/-- What a server says to a request. -/
inductive ServerReply where
  | unreachable (reason : String)
  | answer (status : Int) (phrase : Option String) (body : String)

/-- The servers and files that documents are fetched from. -/
structure Transport where
  reply : String → ServerReply
  /-- The text of the file at a path, if there is one. -/
  file? : String → Option String

/-- Why a document cannot be had. -/
inductive FetchProblem where
  | unsupportedScheme (scheme : String)
  | unreachable (reason : String)
  /-- The status says that the client or the server is at fault. -/
  | refused (status : Int) (phrase : Option String) (uri : String)
  | fileMissing (path : String)
  | notJson
  deriving DecidableEq, Repr

/-- The text of a problem. -/
def FetchProblem.reason : FetchProblem → String
  | .unsupportedScheme scheme => "unsupported scheme '" ++ scheme ++ "'"
  | .unreachable reason => reason
  | .refused status phrase uri =>
    toString status ++ (if status < 500 then " Client Error: " else " Server Error: ")
      ++ phrase.getD "None"
      ++ " for url: " ++ uri
  | .fileMissing path => "[Errno 2] No such file or directory: " ++ Text.quoted path
  | .notJson => "invalid JSON"

namespace Transport

/-- Whether a status is one of those from 400 to 599, which stand for errors. -/
def isErrorStatus (status : Int) : Bool :=
  400 ≤ status && status < 600

/-- The value of a text. -/
def valueOf (text : String) : Except FetchProblem Json :=
  match Json.ofText? text with
  | some value => .ok value
  | none => .error .notJson

/-- The value of the body of an answer, which may start with a byte order mark. -/
def valueOfBody (body : String) : Except FetchProblem Json :=
  match body.toList with
  | '\uFEFF' :: rest => valueOf (String.ofList rest)
  | _ => valueOf body

/-- The document that a server has. -/
def fetchServed (transport : Transport) (uri : String) : Except FetchProblem Json :=
  match transport.reply uri with
  | .unreachable reason => .error (.unreachable reason)
  | .answer status phrase body =>
    if isErrorStatus status then .error (.refused status phrase uri) else valueOfBody body

/-- The document in a file; the path is that of the URI with its escapes undone. -/
def fetchFile (transport : Transport) (path : List Char) : Except FetchProblem Json :=
  let path := String.ofList (Uri.decode path)
  match transport.file? path with
  | some text => valueOf text
  | none => .error (.fileMissing path)

/-- The document at a URI. -/
def fetch (transport : Transport) (uri : String) : Except Fault Json := do
  let parts ← (Uri.splitText uri.toList).mapError .badUri
  let scheme := String.ofList parts.scheme
  let result :=
    if scheme = "file" then transport.fetchFile parts.path
    else if scheme = "http" || scheme = "https" then transport.fetchServed uri
    else .error (.unsupportedScheme scheme)
  result.mapError fun problem => .notFetched uri problem.reason

end Transport

end JsonSchema
