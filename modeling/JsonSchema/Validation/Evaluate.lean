import JsonSchema.Schema.Equality
import JsonSchema.Validation.Check

/-!
# Evaluating checks

A value is checked against a compiled schema by running every check that applies to its type. What a
check demands is written over a function that evaluates the schemas it goes on to; `evaluate` closes
this. A reference that comes back to the same schema with the same value, while that is still being
evaluated, demands nothing more. This ends the evaluation of cyclic schemas; `evaluationBound` is a
depth that it cannot exceed.
-/

namespace JsonSchema

/-- A value inside an instance, with the way to it. -/
structure InstanceNode where
  value : Json
  path : Pointer

namespace InstanceNode

/-- The whole instance. -/
def root (value : Json) : InstanceNode := { value, path := [] }

/-- A value further down. -/
def child (node : InstanceNode) (segment : String) (value : Json) : InstanceNode :=
  { value, path := node.path ++ [segment] }

/-- The item at a position. -/
def item (node : InstanceNode) (position : Nat) (value : Json) : InstanceNode :=
  node.child (toString position) value

/-- The way to the value, as it stands in violations. -/
def pointer (node : InstanceNode) : String :=
  "#" ++ node.path.text

/-- The type of the value, a fault if it is no JSON value. -/
def type (node : InstanceNode) : Except Fault InstanceType :=
  match node.value.instanceType? with
  | some type => .ok type
  | none => .error (.notJson node.value.typeName)

end InstanceNode

/-- The verdict on a value: the violations found, none if it is valid. -/
abbrev Verdict := Except Fault (List Violation)

/-- A function that evaluates a compiled schema on a value. -/
abbrev Evaluator := ValidatorId → InstanceNode → Verdict

namespace Check

/-- A violation of the check itself. -/
def fails (check : Check) (node : InstanceNode) (complaint : Complaint) (causes : List Violation) :
    Verdict := do
  let code ← Report.codeOf check.key
  return [.mk node.pointer check.location (some check.key) code complaint causes]

/-- A violation of the check unless a condition holds. -/
def demand (check : Check) (node : InstanceNode) (holds : Bool) (complaint : Complaint) : Verdict :=
  if holds then .ok [] else check.fails node complaint []

/-- The fault of a value that the rule of a check does not work with. -/
def misfit (check : Check) : Verdict :=
  .error (.unfit check.key .jsonValue)

/-- The verdicts of several evaluations, the first one first. -/
def verdicts {α : Type} (evaluate : α → Verdict) (values : List α) :
    Except Fault (List (List Violation)) :=
  values.mapM evaluate

/-- The violations of several evaluations together. -/
def together {α : Type} (evaluate : α → Verdict) (values : List α) : Verdict :=
  (·.flatten) <$> verdicts evaluate values

/-- Every schema accepts the value, or one violation gathers those that do not. -/
def runAll (check : Check) (evaluate : Evaluator) (schemas : List ValidatorId)
    (node : InstanceNode) : Verdict := do
  let found ← verdicts (evaluate · node) schemas
  let failed := (found.filter (!·.isEmpty)).length
  if failed = 0 then return []
  check.fails node (.schemasFailed failed schemas.length) found.flatten

/-- The violations of schemas up to the first that accepts the value, and whether there is one. -/
def upToMatch (evaluate : Evaluator) (node : InstanceNode) :
    List ValidatorId → Except Fault (Bool × List Violation)
  | [] => .ok (false, [])
  | schema :: rest => do
    let found ← evaluate schema node
    if found.isEmpty then return (true, [])
    let (matched, others) ← upToMatch evaluate node rest
    return (matched, found ++ others)

/-- Some schema accepts the value; those behind the first are not looked at. -/
def runAny (check : Check) (evaluate : Evaluator) (schemas : List ValidatorId)
    (node : InstanceNode) : Verdict := do
  let (matched, found) ← upToMatch evaluate node schemas
  if matched then return []
  check.fails node (.noSchemaMatched schemas.length) found

/-- Exactly one schema accepts the value. If none does, the violations of all are the causes. -/
def runOne (check : Check) (evaluate : Evaluator) (schemas : List ValidatorId)
    (node : InstanceNode) : Verdict := do
  let found ← verdicts (evaluate · node) schemas
  let matched := (found.filter (·.isEmpty)).length
  if matched = 1 then return []
  check.fails node (.notOneMatched matched) (if matched = 0 then found.flatten else [])

/-- The schema does not accept the value. -/
def runNot (check : Check) (evaluate : Evaluator) (schema : ValidatorId) (node : InstanceNode) :
    Verdict := do
  let found ← evaluate schema node
  check.demand node (!found.isEmpty) .forbiddenMatch

/-! ## Numbers and texts -/

/-- A number is a multiple of a divisor, by the fractions that their texts stand for. -/
def runMultiple (check : Check) (divisor : Json) (fraction : Rat) (node : InstanceNode) : Verdict :=
  match node.value with
  | .number n =>
    if !n.isFinite then check.fails node (.notMultiple node.value divisor) []
    else do
      let value ← n.fraction.mapError .noFraction
      check.demand node ((value / fraction).den = 1) (.notMultiple node.value divisor)
  | _ => check.misfit

/-- A number violates neither bound of a limit on one side. -/
def runLimit (check : Check) (violation : Number → Except Fault (Option (Json × Bool)))
    (complaint : Json → Json → Bool → Complaint) (node : InstanceNode) : Verdict :=
  match node.value with
  | .number n => do
    match ← violation n with
    | none => return []
    | some (bound, exclusive) => check.fails node (complaint node.value bound exclusive) []
  | _ => check.misfit

/-- The number of characters, items, members or bytes of a value. -/
def lengthOf? : Json → Option Nat
  | .string text => some text.length
  | .array items => some items.length
  | .object members => some members.length
  | .bytes text => some (text.toList.flatMap Text.utf8Bytes).length
  | _ => none

/-- A value has at least a number of elements. -/
def runLeast (check : Check) (least : Int) (complaint : Int → Nat → Complaint)
    (node : InstanceNode) : Verdict :=
  match lengthOf? node.value with
  | some length => check.demand node (least ≤ (length : Int)) (complaint least length)
  | none => check.misfit

/-- A value has at most a number of elements. -/
def runMost (check : Check) (most : Int) (complaint : Int → Nat → Complaint) (node : InstanceNode) :
    Verdict :=
  match lengthOf? node.value with
  | some length => check.demand node ((length : Int) ≤ most) (complaint most length)
  | none => check.misfit

/-! ## Arrays -/

/-- The violations of items under the schema for all items. -/
def runEvery (evaluate : Evaluator) (schema : ValidatorId) (node : InstanceNode)
    (items : List Json) : Verdict :=
  together (fun (item, position) => evaluate schema (node.item position item)) items.zipIdx

/-- The violations of items under the schemas for their positions, and of the others under the
additional schema. -/
def runEach (evaluate : Evaluator) (schemas : List ValidatorId) (additional : Option ValidatorId)
    (forbid : Bool) (place : String) (node : InstanceNode) (items : List Json) : Verdict := do
  let listed ← together (fun (schema, item, position) => evaluate schema (node.item position item))
    (schemas.zip items.zipIdx)
  if items.length ≤ schemas.length then return listed
  if forbid then
    let key := Builtin.additionalItems.key
    let code ← Report.codeOf key
    return listed
      ++ [.mk node.pointer place (some key) code (.surplusItems schemas.length items.length) []]
  match additional with
  | none => return listed
  | some schema =>
    let surplus ← together (fun (item, position) => evaluate schema (node.item position item))
      (items.zipIdx.drop schemas.length)
    return listed ++ surplus

/-- The first position whose frozen value was seen before, with the position where it was seen. -/
def firstRepetition (position : Nat) (seen : List (Frozen × Nat)) :
    List Json → Except Fault (Option (Nat × Nat))
  | [] => .ok none
  | item :: rest => do
    let frozen ← item.freeze
    match seen.find? fun (other, _) => other.same frozen with
    | some (_, earlier) => return some (earlier, position)
    | none => firstRepetition (position + 1) (seen ++ [(frozen, position)]) rest

/-- No two items are equal. -/
def runUnique (check : Check) (node : InstanceNode) (items : List Json) : Verdict := do
  match ← firstRepetition 0 [] items with
  | none => return []
  | some (first, second) => check.fails node (.equalItems first second) []

/-- Whether some item is accepted; those behind the first are not looked at. -/
def someItem (evaluate : Evaluator) (schema : ValidatorId) (node : InstanceNode) :
    List (Json × Nat) → Except Fault Bool
  | [] => .ok false
  | (item, position) :: rest => do
    let found ← evaluate schema (node.item position item)
    if found.isEmpty then return true
    someItem evaluate schema node rest

/-- Some item is accepted by a schema. -/
def runContains (check : Check) (evaluate : Evaluator) (schema : ValidatorId) (node : InstanceNode)
    (items : List Json) : Verdict := do
  check.demand node (← someItem evaluate schema node items.zipIdx) .nothingContained

/-! ## Objects -/

/-- The members that have a schema are accepted by it, and those that must be there are. -/
def runProperties (evaluate : Evaluator) (schemas : List (String × ValidatorId))
    (required : List (String × String)) (node : InstanceNode) (members : List (String × Json)) :
    Verdict :=
  together (fun (name, schema) =>
    match members.lookup name, required.lookup name with
    | some value, _ => evaluate schema (node.child name value)
    | none, some place => do
      let code ← Report.codeOf Builtin.required.key
      return [.mk node.pointer place (some Builtin.required.key) code (.memberMissing name) []]
    | none, none => return []) schemas

/-- The members are accepted by the schemas of all patterns that their names match. -/
def runPatterns (evaluate : Evaluator) (schemas : List ((String → Bool) × ValidatorId))
    (node : InstanceNode) (members : List (String × Json)) : Verdict :=
  together (fun (name, value) =>
    together (fun (search, schema) =>
      if search name then evaluate schema (node.child name value) else .ok [])
      schemas) members

/-- Whether a name is neither declared nor matched by a pattern. -/
def isAdditional (declared : List String) (patterns : List (String → Bool)) (name : String) :
    Bool :=
  !declared.contains name && !patterns.any fun search => search name

/-- The additional members are accepted by a schema, or there are none. -/
def runAdditional (check : Check) (evaluate : Evaluator) (schema : ValidatorId) (forbid : Bool)
    (declared : List String) (patterns : List (String → Bool)) (node : InstanceNode)
    (members : List (String × Json)) : Verdict :=
  together (fun (name, value) =>
    let member := node.child name value
    if forbid then check.fails member (.memberForbidden name) [] else evaluate schema member)
    (members.filter fun (name, _) => isAdditional declared patterns name)

/-- The names that an object does not have. -/
def missingNames (members : List (String × Json)) (names : List String) : List String :=
  names.filter fun name => (members.lookup name).isNone

/-- The required members are there. -/
def runRequired (check : Check) (names : List String) (node : InstanceNode)
    (members : List (String × Json)) : Verdict :=
  match missingNames members names with
  | [] => .ok []
  | [name] => check.fails node (.memberMissing name) []
  | missing => check.fails node (.membersMissing missing) []

/-- The names of members are accepted by a schema. -/
def runNames (check : Check) (evaluate : Evaluator) (schema : ValidatorId) (node : InstanceNode)
    (members : List (String × Json)) : Verdict := do
  let found ←
    together (fun name => evaluate schema (node.child name (.string name))) (Members.keys members)
  if found.isEmpty then return []
  check.fails node (.badNames found.length) found

/-- The members that others depend on are there, and the value is accepted by the schemas that its
members bring. -/
def runDependencies (check : Check) (evaluate : Evaluator) (names : List (String × List String))
    (schemas : List (String × ValidatorId)) (node : InstanceNode) (members : List (String × Json)) :
    Verdict := do
  let fromNames ← together (fun (name, needed) =>
    if (members.lookup name).isNone then .ok []
    else
      let missing := missingNames members needed
      check.demand node missing.isEmpty (.dependencyMissing name missing)) names
  let fromSchemas ← together (fun (name, schema) =>
    if (members.lookup name).isNone then .ok [] else evaluate schema node) schemas
  return fromNames ++ fromSchemas

/-- The verdict of a function on the items of an array. -/
def onItems (check : Check) (node : InstanceNode) (run : List Json → Verdict) : Verdict :=
  match node.value with
  | .array items => run items
  | _ => check.misfit

/-- The verdict of a function on the members of an object. -/
def onMembers (check : Check) (node : InstanceNode) (run : List (String × Json) → Verdict) :
    Verdict :=
  match node.value with
  | .object members => run members
  | _ => check.misfit

/-- The verdict of a function on a text. -/
def onText (check : Check) (node : InstanceNode) (run : String → Verdict) : Verdict :=
  match node.value with
  | .string text => run text
  | _ => check.misfit

/-! ## Rules -/

/-- Whether a value is of a set of types. -/
def isOfType (node : InstanceNode) (types : List InstanceType) :
    Except Fault (Bool × InstanceType) := do
  let type ← node.type
  return (type.admittedBy types, type)

/-- The verdict of a check on a value. References go on by `refer`, everything else by
`evaluate`. -/
def run (evaluate refer : Evaluator) (check : Check) (node : InstanceNode) : Verdict :=
  match check.rule with
  | .type types => do
    let (holds, found) ← isOfType node types
    check.demand node holds (.wrongType types found.name)
  | .disallow types => do
    let (holds, found) ← isOfType node types
    check.demand node (!holds) (.disallowedType found.name)
  | .enum values => check.demand node (values.any node.value.equals) (.notListed node.value values)
  | .const value => check.demand node (node.value.equals value) (.notConstant node.value value)
  | .allOf schemas => check.runAll evaluate schemas node
  | .anyOf schemas => check.runAny evaluate schemas node
  | .oneOf schemas => check.runOne evaluate schemas node
  | .not schema => check.runNot evaluate schema node
  | .reference target => refer target node
  | .multipleOf divisor fraction => check.runMultiple divisor fraction node
  | .minimum limit => check.runLimit limit.lowerViolation .belowMinimum node
  | .maximum limit => check.runLimit limit.upperViolation .aboveMaximum node
  | .minLength least => check.runLeast least .tooShort node
  | .maxLength most => check.runMost most .tooLong node
  | .pattern source search =>
    check.onText node fun text => check.demand node (search text) (.patternUnmatched text source)
  | .format name test =>
    check.onText node fun text => do check.demand node (← test text) (.wrongFormat text name)
  | .items every each additional forbid place =>
    check.onItems node fun items =>
      match each, every with
      | some schemas, _ => runEach evaluate schemas additional forbid place node items
      | none, some schema => runEvery evaluate schema node items
      | none, none => .ok []
  | .minItems least => check.runLeast least .fewItems node
  | .maxItems most => check.runMost most .manyItems node
  | .uniqueItems => check.onItems node (check.runUnique node)
  | .contains schema => check.onItems node (check.runContains evaluate schema node)
  | .properties schemas required =>
    check.onMembers node (runProperties evaluate schemas required node)
  | .patternProperties schemas => check.onMembers node (runPatterns evaluate schemas node)
  | .additionalProperties schema forbid declared patterns =>
    check.onMembers node (check.runAdditional evaluate schema forbid declared patterns node)
  | .required names => check.onMembers node (check.runRequired names node)
  | .minProperties least => check.runLeast least .fewMembers node
  | .maxProperties most => check.runMost most .manyMembers node
  | .propertyNames schema => check.onMembers node (check.runNames evaluate schema node)
  | .dependencies names schemas =>
    check.onMembers node (check.runDependencies evaluate names schemas node)
  | .nothing => .ok [.mk node.pointer check.location none .schemaFalse .nothingAllowed []]
  | .unfit kind => .error (.unfit check.key kind)

/-- Whether a check applies to a value: its keyword constrains the type of the value. -/
def applies (check : Check) (node : InstanceNode) : Except Fault Bool :=
  match check.keyword with
  | none => .ok true
  | some keyword => do return keyword.appliesToType (← node.type)

end Check

/-- The schemas and places of references that are being evaluated. -/
abbrev ActiveReferences := List (ValidatorId × Pointer)

namespace Validator

/-- The violations of the checks of a schema that apply to a value, as at most one. -/
def evaluateWith (evaluate refer : Evaluator) (validator : Validator) (node : InstanceNode) :
    Verdict := do
  let found ← Check.together (fun (check : Check) => do
    if ← check.applies node then check.run evaluate refer node else return []) validator.checkList
  return Report.folded node.pointer validator.location found

end Validator

/-- Evaluates a compiled schema on a value, at most `depth` schemas deep. -/
def evaluateWithin (table : Array Validator) (depth : Nat) (active : ActiveReferences)
    (id : ValidatorId) (node : InstanceNode) : Verdict :=
  match depth, table[id.index]? with
  | depth + 1, some validator =>
    let refer : Evaluator := fun target node =>
      if active.contains (target, node.path) then .ok []
      else evaluateWithin table depth ((target, node.path) :: active) target node
    validator.evaluateWith (evaluateWithin table depth active) refer node
  | _, _ => .error .exhausted

/-- A depth that evaluation cannot exceed. Between two steps down in the value, or two new
references, it goes from one schema of the table to another that stands in it, and the references at
one place are no more than the schemas. -/
def evaluationBound (table : Array Validator) (value : Json) : Nat :=
  (value.depth + 2) * (table.size + 1) * (table.size + 1)

/-- The violations of a value under a compiled schema, none or one. -/
def evaluate (table : Array Validator) (id : ValidatorId) (value : Json) : Verdict :=
  evaluateWithin table (evaluationBound table value) [] id (.root value)

end JsonSchema
