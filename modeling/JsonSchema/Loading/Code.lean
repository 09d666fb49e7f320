/-!
# Issue codes

The codes and levels of the issues that loading records. A fatal code ends the session in any mode.
-/

namespace JsonSchema

/-- What kind of thing is wrong with a document. -/
inductive IssueCode where
  | keywordUnknown | keywordTypeMismatch | keywordMissing | keywordConflicting | keywordInvalid
  | uriMalformed | schemaTypeMismatch | refSiblingsIgnored | refUnresolvable | documentFetchFailed
  deriving DecidableEq, Repr, Inhabited

namespace IssueCode

/-- Every code. -/
def all : List IssueCode :=
  [.keywordUnknown, .keywordTypeMismatch, .keywordMissing, .keywordConflicting, .keywordInvalid,
    .uriMalformed, .schemaTypeMismatch, .refSiblingsIgnored, .refUnresolvable, .documentFetchFailed]

/-- The name of a code. -/
def name : IssueCode → String
  | .keywordUnknown => "keyword.unknown"
  | .keywordTypeMismatch => "keyword.type.mismatch"
  | .keywordMissing => "keyword.missing"
  | .keywordConflicting => "keyword.conflicting"
  | .keywordInvalid => "keyword.invalid"
  | .uriMalformed => "uri.malformed"
  | .schemaTypeMismatch => "schema.type.mismatch"
  | .refSiblingsIgnored => "ref.siblings.ignored"
  | .refUnresolvable => "ref.unresolvable"
  | .documentFetchFailed => "document.fetch.failed"

/-- The code with a name. -/
def ofName? (name : String) : Option IssueCode :=
  all.find? (·.name = name)

/-- Whether an issue of this code ends the session. -/
def isFatal : IssueCode → Bool
  | .refUnresolvable | .documentFetchFailed => true
  | _ => false

end IssueCode

/-- How severe an issue is. -/
inductive IssueLevel where
  | error | warn
  deriving DecidableEq, Repr, Inhabited

namespace IssueLevel

/-- The name of a level. -/
def name : IssueLevel → String
  | .error => "error"
  | .warn => "warn"

/-- The level with a name. -/
def ofName? : String → Option IssueLevel
  | "error" => some .error
  | "warn" => some .warn
  | _ => none

end IssueLevel

end JsonSchema
