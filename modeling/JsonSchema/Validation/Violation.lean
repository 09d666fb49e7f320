import JsonSchema.Fault
import JsonSchema.Json.Writer
import JsonSchema.Text.Template
import JsonSchema.Validation.Code

/-!
# Violations

A violation says what is wrong at a place of an instance and which keyword at which place of a
schema says so. Violations form a tree: one that gathers others has them as causes, and the others
are the leaves. A report lists the violations found so far; `Report.collect` folds those of one
schema into at most one.
-/

namespace JsonSchema

/-- What is wrong with a value. -/
inductive Complaint where
  | severalViolations (count : Nat)
  | nothingAllowed
  | wrongType (expected : List InstanceType) (found : String)
  | disallowedType (found : String)
  | notListed (value : Json) (values : List Json)
  | notConstant (value constant : Json)
  | schemasFailed (failed total : Nat)
  | noSchemaMatched (total : Nat)
  | notOneMatched (matched : Nat)
  | forbiddenMatch
  | notMultiple (value divisor : Json)
  | belowMinimum (value bound : Json) (exclusive : Bool)
  | aboveMaximum (value bound : Json) (exclusive : Bool)
  | tooShort (least : Int) (length : Nat)
  | tooLong (most : Int) (length : Nat)
  | patternUnmatched (text pattern : String)
  | wrongFormat (text format : String)
  | surplusItems (most count : Nat)
  | fewItems (least : Int) (count : Nat)
  | manyItems (most : Int) (count : Nat)
  | equalItems (first second : Nat)
  | nothingContained
  | memberMissing (name : String)
  | membersMissing (names : List String)
  | memberForbidden (name : String)
  | fewMembers (least : Int) (count : Nat)
  | manyMembers (most : Int) (count : Nat)
  | badNames (count : Nat)
  | dependencyMissing (name : String) (missing : List String)
  /-- A complaint of another's wording. -/
  | custom (template : String) (values : List Json)

/-- The text of a complaint. -/
def Complaint.message : Complaint → String
  | .severalViolations count => toString count ++ " schema violations found"
  | .nothingAllowed => "no value is allowed here"
  | .wrongType expected found =>
    "expected type " ++ Json.quotedNames (InstanceType.sortedNames expected)
      ++ " but found " ++ found
  | .disallowedType found => "type " ++ found ++ " is disallowed"
  | .notListed value values => value.text ++ " is not one of " ++ (Json.array values).text
  | .notConstant value constant => value.text ++ " does not equal the constant " ++ constant.text
  | .schemasFailed failed total =>
    toString failed ++ " of " ++ toString total ++ " subschemas failed"
  | .noSchemaMatched total => "no subschema matched out of " ++ toString total
  | .notOneMatched matched => toString matched ++ " subschemas matched, expected exactly one"
  | .forbiddenMatch => "must not match the schema"
  | .notMultiple value divisor => value.text ++ " is not a multiple of " ++ divisor.text
  | .belowMinimum value bound true =>
    value.text ++ " is less than or equal to the exclusive minimum " ++ bound.text
  | .belowMinimum value bound false => value.text ++ " is less than the minimum " ++ bound.text
  | .aboveMaximum value bound true =>
    value.text ++ " is greater than or equal to the exclusive maximum " ++ bound.text
  | .aboveMaximum value bound false => value.text ++ " is greater than the maximum " ++ bound.text
  | .tooShort least length =>
    "expected minLength " ++ toString least ++ ", actual " ++ toString length
  | .tooLong most length => "expected maxLength " ++ toString most ++ ", actual " ++ toString length
  | .patternUnmatched text pattern => "string " ++ text ++ " does not match pattern " ++ pattern
  | .wrongFormat text format => text ++ " is not a valid " ++ format
  | .surplusItems most count =>
    "expected at most " ++ toString most ++ " items but found " ++ toString count
  | .fewItems least count =>
    "expected minimum item count: " ++ toString least ++ ", found: " ++ toString count
  | .manyItems most count =>
    "expected maximum item count: " ++ toString most ++ ", found: " ++ toString count
  | .equalItems first second =>
    "array items at " ++ toString first ++ " and " ++ toString second ++ " are not unique"
  | .nothingContained => "expected at least one array item to match 'contains' schema"
  | .memberMissing name => "required key [" ++ name ++ "] not found"
  | .membersMissing names => "required keys " ++ Json.quotedNames names ++ " not found"
  | .memberForbidden name => "extraneous key [" ++ name ++ "] is not permitted"
  | .fewMembers least count =>
    "minimum size: [" ++ toString least ++ "], found: [" ++ toString count ++ "]"
  | .manyMembers most count =>
    "maximum size: [" ++ toString most ++ "], found: [" ++ toString count ++ "]"
  | .badNames count => toString count ++ " property name(s) are invalid"
  | .dependencyMissing name missing =>
    "property [" ++ name ++ "] requires " ++ Json.quotedNames missing
  | .custom template values => Text.fill template (values.map Json.text)

/-- A complaint at a place, with the violations that caused it. -/
inductive Violation where
  | mk (pointer location : String) (keyword : Option String) (code : ErrorCode)
    (complaint : Complaint)
    (causes : List Violation)

namespace Violation

/-- The place in the instance. -/
def pointer : Violation → String
  | mk pointer _ _ _ _ _ => pointer

/-- The place in the schema. -/
def location : Violation → String
  | mk _ location _ _ _ _ => location

/-- The violated keyword; a violation of a schema as a whole has none. -/
def keyword : Violation → Option String
  | mk _ _ keyword _ _ _ => keyword

/-- The code of a violation. -/
def code : Violation → ErrorCode
  | mk _ _ _ code _ _ => code

/-- What is wrong. -/
def complaint : Violation → Complaint
  | mk _ _ _ _ complaint _ => complaint

/-- The violations that a violation gathers. -/
def causes : Violation → List Violation
  | mk _ _ _ _ _ causes => causes

/-- What is wrong, as a text. -/
def message (violation : Violation) : String :=
  violation.complaint.message

/-- Whether a violation has no causes. -/
def isLeaf (violation : Violation) : Bool :=
  violation.causes.isEmpty

mutual

/-- The leaves under a violation, the first cause first. -/
def leaves : Violation → List Violation
  | mk pointer location keyword code complaint [] => [mk pointer location keyword code complaint []]
  | mk _ _ _ _ _ (cause :: others) => leaves cause ++ leavesOfList others

/-- The leaves under violations. -/
def leavesOfList : List Violation → List Violation
  | [] => []
  | violation :: rest => leaves violation ++ leavesOfList rest

end

mutual

/-- A violation with its causes as a JSON value. -/
def form : Violation → Json
  | mk pointer location keyword code complaint causes =>
    .object [
      ("pointer", .string pointer),
      ("schema_location", .string location),
      ("keyword", .ofOption .string keyword),
      ("code", .string code.name),
      ("message", .string complaint.message),
      ("causes", .array (forms causes))]

/-- Violations as JSON values. -/
def forms : List Violation → List Json
  | [] => []
  | violation :: rest => form violation :: forms rest

end

/-- A violation on one line. -/
def text (violation : Violation) : String :=
  let keyword :=
    match violation.keyword with
    | some key => if key.isEmpty then "" else " [" ++ key ++ "]"
    | none => ""
  violation.pointer ++ keyword ++ ": " ++ violation.message
    ++ " (schema: " ++ violation.location ++ ")"

end Violation

/-- The violations found so far. -/
structure Report where
  violations : List Violation

namespace Report

/-- The report without violations. -/
def empty : Report := ⟨[]⟩

/-- Whether a report has no violations. -/
def isValid (report : Report) : Bool :=
  report.violations.isEmpty

/-- A report with one more violation. -/
def add (report : Report) (violation : Violation) : Report :=
  ⟨report.violations ++ [violation]⟩

/-- The leaves under all violations. -/
def leaves (report : Report) : List Violation :=
  Violation.leavesOfList report.violations

/-- The code of a keyword, a fault if it is no keyword that can be violated. -/
def codeOf (key : String) : Except Fault ErrorCode :=
  if ErrorCode.keywordKeys.contains key then .ok (.keyword key)
  else .error (.notInVocabulary (.string (ErrorCode.keyword key).name) .errorCode)

/-- Adds a violation of a keyword, caused by those of another report. -/
def fold (report child : Report) (pointer location key : String) (complaint : Complaint) :
    Except Fault Report := do
  return report.add (.mk pointer location (some key) (← codeOf key) complaint child.violations)

/-- Adds a violation of a keyword without causes. -/
def error (report : Report) (pointer location key : String) (complaint : Complaint) :
    Except Fault Report :=
  report.fold .empty pointer location key complaint

/-- The violations of one schema as at most one: none and one stay, several become the causes of
one. -/
def folded (pointer location : String) : List Violation → List Violation
  | [] => []
  | [violation] => [violation]
  | several => [.mk pointer location none .schema (.severalViolations several.length) several]

/-- Adds the violations of one schema as at most one. -/
def collect (report child : Report) (pointer location : String) : Report :=
  ⟨report.violations ++ folded pointer location child.violations⟩

/-- The number of violations and the leaves, each on a line. -/
def text (report : Report) : String :=
  if report.isValid then "Instance is valid"
  else
    let leaves := report.leaves
    "\n".intercalate (("Instance is invalid: " ++ toString leaves.length ++ " violation(s)")
      :: leaves.map fun leaf => "  - " ++ leaf.text)

end Report

end JsonSchema
