import JsonSchema.Fault
import JsonSchema.Text.Template

/-!
# Issues

An issue is a problem that loading finds at a place in a document. A report lists the issues of a
session in order. A session that cannot go on, or ends with errors, is rejected with its report.
-/

namespace JsonSchema

/-- What is wrong, or worth a warning. -/
inductive Problem where
  | notASchema (shape : String)
  | badIdentifier (identifier : String) (fault : Fault)
  /-- A keyword value of the wrong shape; the expected shapes are given as they are shown. -/
  | wrongShape (key expected actual : String)
  | siblingsIgnored (keys : List String)
  | badReference (ref : String) (fault : Fault)
  | unresolvable (uri : String) (fault : Option Fault)
  | fetchingDisabled (uri : String)
  | fetchFailed (reason : String)
  | unknownKeyword (key : String)
  | badValue (key : String) (reason : ValueReason)
  | faulty (fault : Fault)
  /-- A problem of another's wording. -/
  | custom (template : String) (values : List Json)

/-- The text of a problem. -/
def Problem.message : Problem → String
  | .notASchema shape => "Expected a schema (object or boolean) but got " ++ shape
  | .badIdentifier identifier fault =>
    "Invalid identifier '" ++ identifier ++ "': " ++ fault.message
  | .wrongShape key expected actual =>
    "Keyword '" ++ key ++ "' expects " ++ expected ++ " but got " ++ actual
  | .siblingsIgnored keys => "Keywords " ++ Json.quotedNames keys ++ " next to $ref are ignored"
  | .badReference ref fault => "Invalid $ref '" ++ ref ++ "': " ++ fault.message
  | .unresolvable uri none => "Unable to resolve $ref to '" ++ uri ++ "'"
  | .unresolvable uri (some fault) => "Unable to resolve $ref to '" ++ uri ++ "': " ++ fault.message
  | .fetchingDisabled uri =>
    "Document '" ++ uri ++ "' was not preloaded and remote fetching is disabled"
  | .fetchFailed reason => reason
  | .unknownKeyword key => "Unknown keyword '" ++ key ++ "'"
  | .badValue key reason => "Invalid value for keyword '" ++ key ++ "': " ++ reason.message
  | .faulty fault => fault.message
  | .custom template values => Text.fill template (values.map Json.text)

/-- A problem at a place, with its kind and severity. -/
structure Issue where
  code : IssueCode
  level : IssueLevel
  location : String
  problem : Problem

namespace Issue

/-- Whether an issue is an error and no warning. -/
def isError (issue : Issue) : Bool :=
  issue.level = .error

/-- Whether an issue ends its session, which its code decides. -/
def isFatal (issue : Issue) : Bool :=
  issue.code.isFatal

/-- What is wrong, without code and place. -/
def message (issue : Issue) : String :=
  issue.problem.message

/-- An issue on one line. -/
def text (issue : Issue) : String :=
  "[" ++ issue.level.name ++ "] " ++ issue.code.name ++ " at " ++ issue.location ++ ": "
    ++ issue.message

/-- The issue of a fault of a keyword value. -/
def ofFault (location : String) : Fault → Issue
  | .keywordValue key reason =>
    { code := reason.code, level := .error, location, problem := .badValue key reason }
  | .keywordConflict key reason =>
    { code := .keywordConflicting, level := .error, location,
      problem := .faulty (.keywordConflict key reason) }
  | fault => { code := .keywordInvalid, level := .error, location, problem := .faulty fault }

end Issue

/-- The issues of a session in order. -/
structure LoadReport where
  issues : List Issue

namespace LoadReport

/-- The report without issues. -/
def empty : LoadReport := ⟨[]⟩

/-- A report with one more issue. -/
def add (report : LoadReport) (issue : Issue) : LoadReport :=
  ⟨report.issues ++ [issue]⟩

/-- The issues that are errors. -/
def errors (report : LoadReport) : List Issue :=
  report.issues.filter (·.isError)

/-- The issues that are warnings. -/
def warnings (report : LoadReport) : List Issue :=
  report.issues.filter fun issue => !issue.isError

/-- Whether an issue is an error. -/
def hasErrors (report : LoadReport) : Bool :=
  report.issues.any (·.isError)

/-- The code of the first error. -/
def code? (report : LoadReport) : Option IssueCode :=
  report.errors.head?.map (·.code)

/-- The issues, each on a line. -/
def text (report : LoadReport) : String :=
  if report.issues.isEmpty then "No loading issues"
  else "\n".intercalate (report.issues.map (·.text))

/-- Why a session with this report is rejected. -/
def rejection (report : LoadReport) : String :=
  match report.errors with
  | [] => "Schema loading failed"
  | first :: _ =>
    toString report.errors.length ++ " error(s) while loading schema; first: " ++ first.text

end LoadReport

/-- Why loading stops. -/
inductive Stop where
  | rejected (report : LoadReport)
  | fault (fault : Fault)

end JsonSchema
