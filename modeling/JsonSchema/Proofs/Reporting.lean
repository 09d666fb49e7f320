import JsonSchema.Proofs.Run
import JsonSchema.Validation.Evaluate

/-!
# Evaluation with reports

Here a schema is evaluated as one would do it with a report at hand: every check adds its violations
to the report it is given and says nothing else, a schema says whether the value is valid, and a check
that tries schemas out gives them a report of their own, which it drops or folds into one violation.
What is counted in a complaint is counted from the answers of the schemas, not from the report.

`evaluateWithin` has no reports. Both are the same (`tells_validateWithin`): evaluating with a report
adds what the verdict lists, and the answer is whether that is nothing.
-/

namespace JsonSchema

/-! ## Reports as a state -/

/-- A computation that adds to a report. -/
abbrev Reporting := StateT Report (Except Fault)

/-- A function that evaluates a compiled schema on a value, adds its violations to a report and says
whether the value is valid. -/
abbrev Validation := ValidatorId → InstanceNode → Reporting Bool

namespace Reporting

variable {α β : Type}

/-- Gives a computation a report of its own. What it added there comes with its answer. -/
def apart (act : Reporting α) : Reporting (α × Report) := fun report => do
  return (← act .empty, report)

/-- Adds violations at the end. -/
def addAll (found : List Violation) : Reporting Unit :=
  modify fun report => ⟨report.violations ++ found⟩

/-- Runs a computation for each element of a list. -/
def each (act : α → Reporting Unit) : List α → Reporting Unit
  | [] => return
  | a :: rest => do
    act a
    each act rest

/-- The answers of a computation for the elements of a list. -/
def answers (act : α → Reporting Bool) : List α → Reporting (List Bool)
  | [] => return []
  | a :: rest => do
    let answer ← act a
    let others ← answers act rest
    return answer :: others

/-- Whether some element of a list has the answer `true`; those behind the first are left out. -/
def any (act : α → Reporting Bool) : List α → Reporting Bool
  | [] => return false
  | a :: rest => do
    if ← act a then return true
    any act rest

/-- Runs a computation and forgets its answer. -/
def silent (act : Reporting Bool) : Reporting Unit := do
  let _ ← act

end Reporting

/-! ## Checks with reports -/

namespace Check

open Reporting

variable (check : Check) (validate : Validation) (node : InstanceNode)

/-- Adds a violation of the check, caused by those of another report. -/
def failWith (child : Report) (complaint : Complaint) : Reporting Unit := fun report => do
  return ((), ← report.fold child node.pointer check.location check.key complaint)

/-- Every schema accepts the value. -/
def reportAll (schemas : List ValidatorId) : Reporting Unit := do
  let (valid, child) ← apart (answers (validate · node) schemas)
  let failed := valid.count false
  if failed = 0 then return
  check.failWith node child (.schemasFailed failed schemas.length)

/-- Some schema accepts the value. -/
def reportAny (schemas : List ValidatorId) : Reporting Unit := do
  let (matched, child) ← apart (any (validate · node) schemas)
  if matched then return
  check.failWith node child (.noSchemaMatched schemas.length)

/-- Exactly one schema accepts the value. -/
def reportOne (schemas : List ValidatorId) : Reporting Unit := do
  let (valid, child) ← apart (answers (validate · node) schemas)
  let matched := valid.count true
  if matched = 1 then return
  check.failWith node (if matched = 0 then child else .empty) (.notOneMatched matched)

/-- The schema does not accept the value. -/
def reportNot (schema : ValidatorId) : Reporting Unit := do
  let (valid, _) ← apart (validate schema node)
  if valid then check.failWith node .empty .forbiddenMatch

/-- Some item is accepted by a schema. Each item has a report of its own. -/
def reportContains (schema : ValidatorId) (items : List Json) : Reporting Unit := do
  let found ← any (fun (item, position) => do
    return (← apart (validate schema (node.item position item))).1) items.zipIdx
  if found then return
  check.failWith node .empty .nothingContained

/-- The names of members are accepted by a schema. -/
def reportNames (schema : ValidatorId) (members : List (String × Json)) : Reporting Unit := do
  let (_, child) ← apart (each (fun name => silent (validate schema (node.child name (.string name))))
    (Members.keys members))
  if child.isValid then return
  check.failWith node child (.badNames child.violations.length)

/-- Items under the schema for all items. -/
def reportEvery (schema : ValidatorId) (items : List Json) : Reporting Unit :=
  each (fun (item, position) => silent (validate schema (node.item position item))) items.zipIdx

/-- Items under the schemas for their positions, and the others under the additional schema. -/
def reportEach (schemas : List ValidatorId) (additional : Option ValidatorId) (forbid : Bool)
    (place : String) (items : List Json) : Reporting Unit := do
  each (fun (schema, item, position) => silent (validate schema (node.item position item)))
    (schemas.zip items.zipIdx)
  if items.length ≤ schemas.length then return
  if forbid then
    fun report => do
      return ((), ← report.error node.pointer place Builtin.additionalItems.key
        (.surplusItems schemas.length items.length))
  else
    match additional with
    | none => return
    | some schema =>
      each (fun (item, position) => silent (validate schema (node.item position item)))
        (items.zipIdx.drop schemas.length)

/-- The members that have a schema, and those that must be there. -/
def reportProperties (schemas : List (String × ValidatorId)) (required : List (String × String))
    (members : List (String × Json)) : Reporting Unit :=
  each (fun (name, schema) =>
    match members.lookup name, required.lookup name with
    | some value, _ => silent (validate schema (node.child name value))
    | none, some place => fun report => do
      return ((), ← report.error node.pointer place Builtin.required.key (.memberMissing name))
    | none, none => return) schemas

/-- The members under the schemas of all patterns that their names match. -/
def reportPatterns (schemas : List ((String → Bool) × ValidatorId))
    (members : List (String × Json)) : Reporting Unit :=
  each (fun (name, value) =>
    each (fun (search, schema) =>
      if search name then silent (validate schema (node.child name value)) else return)
      schemas) members

/-- The additional members. -/
def reportAdditional (schema : ValidatorId) (forbid : Bool) (declared : List String)
    (patterns : List (String → Bool)) (members : List (String × Json)) : Reporting Unit :=
  each (fun (name, value) =>
    let member := node.child name value
    if forbid then check.failWith member .empty (.memberForbidden name)
    else silent (validate schema member))
    (members.filter fun (name, _) => isAdditional declared patterns name)

/-- The members that others depend on, and the schemas that members bring. -/
def reportDependencies (names : List (String × List String)) (schemas : List (String × ValidatorId))
    (members : List (String × Json)) : Reporting Unit := do
  each (fun (name, needed) =>
    if (members.lookup name).isNone then return
    else
      let missing := missingNames members needed
      if missing.isEmpty then return
      else check.failWith node .empty (.dependencyMissing name missing)) names
  each (fun (name, schema) =>
    if (members.lookup name).isNone then return else silent (validate schema node)) schemas

/-- Goes on with the items of an array. -/
def withItems (run : List Json → Reporting Unit) : Reporting Unit :=
  match node.value with
  | .array items => run items
  | _ => throw (.unfit check.key .jsonValue)

/-- Goes on with the members of an object. -/
def withMembers (run : List (String × Json) → Reporting Unit) : Reporting Unit :=
  match node.value with
  | .object members => run members
  | _ => throw (.unfit check.key .jsonValue)

/-- Runs a check with a report. The checks that go on to no schema have no other way than `run` to
look at a value; what they find is added. -/
def report (refer : ValidatorId → InstanceNode → Reporting Unit) : Reporting Unit :=
  match check.rule with
  | .allOf schemas => check.reportAll validate node schemas
  | .anyOf schemas => check.reportAny validate node schemas
  | .oneOf schemas => check.reportOne validate node schemas
  | .not schema => check.reportNot validate node schema
  | .reference target => refer target node
  | .items every each additional forbid place =>
    check.withItems node fun items =>
      match each, every with
      | some schemas, _ => reportEach validate node schemas additional forbid place items
      | none, some schema => reportEvery validate node schema items
      | none, none => return
  | .contains schema => check.withItems node (check.reportContains validate node schema)
  | .properties schemas required =>
    check.withMembers node (reportProperties validate node schemas required)
  | .patternProperties schemas => check.withMembers node (reportPatterns validate node schemas)
  | .additionalProperties schema forbid declared patterns =>
    check.withMembers node (check.reportAdditional validate node schema forbid declared patterns)
  | .propertyNames schema => check.withMembers node (check.reportNames validate node schema)
  | .dependencies names schemas =>
    check.withMembers node (check.reportDependencies validate node names schemas)
  | _ => do
    addAll (← check.run (fun _ _ => .ok []) (fun _ _ => .ok []) node)

end Check

/-! ## Schemas with reports -/

namespace Validator

open Reporting

/-- Runs the checks of a schema that apply to a value with a report of their own, and collects what
they added as at most one violation. -/
def report (validate : Validation) (refer : ValidatorId → InstanceNode → Reporting Unit)
    (validator : Validator) (node : InstanceNode) : Reporting Bool := do
  let (_, child) ← apart (each (fun (check : Check) => do
    if ← check.applies node then check.report validate node refer) validator.checkList)
  modify fun report => report.collect child node.pointer validator.location
  return child.isValid

end Validator

/-- Goes on to the schema of a reference, unless it is being evaluated for this value. -/
def follow (validate : ActiveReferences → Validation) (active : ActiveReferences)
    (target : ValidatorId) (node : InstanceNode) : Reporting Unit :=
  if active.contains (target, node.path) then return
  else Reporting.silent (validate ((target, node.path) :: active) target node)

/-- Evaluates a compiled schema on a value with a report, at most `depth` schemas deep. -/
def validateWithin (table : Array Validator) (depth : Nat) (active : ActiveReferences)
    (id : ValidatorId) (node : InstanceNode) : Reporting Bool :=
  match depth, table[id.index]? with
  | depth + 1, some validator =>
    validator.report (validateWithin table depth active)
      (follow (validateWithin table depth) active) node
  | _, _ => throw .exhausted

/-! ## Reports and verdicts -/

namespace Reporting

/-- A computation adds to any report what a verdict lists. -/
def Adds (act : Reporting Unit) (verdict : Verdict) : Prop :=
  ∀ report, act report = (fun found => ((), ⟨report.violations ++ found⟩)) <$> verdict

/-- A computation adds to any report what a verdict lists, and says whether that is nothing. -/
def Tells (act : Reporting Bool) (verdict : Verdict) : Prop :=
  ∀ report, act report = (fun found => (found.isEmpty, ⟨report.violations ++ found⟩)) <$> verdict

variable {α : Type} {act act' : Reporting Unit} {verdict verdict' : Verdict}

theorem adds_nothing : Adds (pure ()) (.ok []) := by
  intro report
  show Except.ok ((), report) = .ok ((), ⟨report.violations ++ []⟩)
  rw [List.append_nil]

theorem adds_throw (fault : Fault) : Adds (throw fault) (.error fault) :=
  fun _ => rfl

theorem adds_all (verdict : Verdict) : Adds (do addAll (← verdict)) verdict := by
  intro report
  cases verdict <;> rfl

/-- One computation after the other adds the violations of both. -/
theorem Adds.append (first : Adds act verdict) (second : Adds act' verdict') :
    Adds (do act; act') (do return (← verdict) ++ (← verdict')) := by
  intro report
  show (act report >>= fun p => act' p.2) = _
  rw [first report]
  cases verdict with
  | error fault => rfl
  | ok found =>
    show act' ⟨report.violations ++ found⟩ = _
    rw [second]
    cases verdict' with
    | error fault => rfl
    | ok found' =>
      show Except.ok ((), Report.mk (report.violations ++ found ++ found')) =
        .ok ((), ⟨report.violations ++ (found ++ found')⟩)
      rw [List.append_assoc]

theorem together_cons (f : α → Verdict) (a : α) (rest : List α) :
    Check.together f (a :: rest) = do return (← f a) ++ (← Check.together f rest) := by
  unfold Check.together Check.verdicts
  rw [List.mapM_cons]
  cases f a with
  | error fault => rfl
  | ok found => cases rest.mapM f <;> rfl

theorem adds_each {act : α → Reporting Unit} {f : α → Verdict} (xs : List α)
    (h : ∀ x ∈ xs, Adds (act x) (f x)) : Adds (each act xs) (Check.together f xs) := by
  induction xs with
  | nil => exact adds_nothing
  | cons x xs ih =>
    rw [together_cons]
    exact (h x List.mem_cons_self).append (ih fun x' mem => h x' (List.mem_cons_of_mem _ mem))

theorem Tells.silent {act : Reporting Bool} (h : Tells act verdict) : Adds (silent act) verdict := by
  intro report
  show (act report >>= fun p => Except.ok ((), p.2)) = _
  rw [h report]
  cases verdict <;> rfl

/-- A computation with a report of its own changes no other. -/
theorem apart_eq {act : Reporting Bool} (h : Tells act verdict) (report : Report) :
    apart act report = (fun found => ((found.isEmpty, ⟨found⟩), report)) <$> verdict := by
  show (act .empty >>= fun p => Except.ok (p, report)) = _
  rw [h .empty]
  cases verdict <;> rfl

theorem apart_adds (h : Adds act verdict) (report : Report) :
    apart act report = (fun found => (((), ⟨found⟩), report)) <$> verdict := by
  show (act .empty >>= fun p => Except.ok (p, report)) = _
  rw [h .empty]
  cases verdict <;> rfl

/-- The answers of several evaluations say which of their verdicts are empty. -/
theorem answers_eq {act : α → Reporting Bool} {f : α → Verdict} (h : ∀ x, Tells (act x) (f x))
    (xs : List α) (report : Report) : answers act xs report =
      (fun founds => (founds.map (·.isEmpty), ⟨report.violations ++ founds.flatten⟩)) <$>
        Check.verdicts f xs := by
  unfold Check.verdicts
  induction xs generalizing report with
  | nil =>
    show Except.ok ([], report) = .ok ([], ⟨report.violations ++ []⟩)
    rw [List.append_nil]
  | cons x xs ih =>
    rw [List.mapM_cons]
    show (act x report >>= fun p => (answers act xs p.2 >>= fun q => Except.ok (p.1 :: q.1, q.2))) = _
    rw [h x report]
    cases f x with
    | error fault => rfl
    | ok found =>
      show (answers act xs ⟨report.violations ++ found⟩ >>= fun q =>
        Except.ok (found.isEmpty :: q.1, q.2)) = _
      rw [ih]
      cases xs.mapM f with
      | error fault => rfl
      | ok founds =>
        show Except.ok (found.isEmpty :: founds.map (·.isEmpty),
            Report.mk (report.violations ++ found ++ founds.flatten)) =
          .ok ((found :: founds).map (·.isEmpty), ⟨report.violations ++ (found ++ founds.flatten)⟩)
        rw [List.append_assoc]
        rfl

/-- Trying schemas until one accepts adds the violations of those before. -/
theorem any_eq {validate : Validation} {evaluate : Evaluator} {node : InstanceNode}
    (h : ∀ id, Tells (validate id node) (evaluate id node)) (ids : List ValidatorId)
    (report : Report) : any (validate · node) ids report =
      (fun p => (p.1, ⟨report.violations ++ p.2⟩)) <$> Check.upToMatch evaluate node ids := by
  induction ids generalizing report with
  | nil =>
    show Except.ok (false, report) = .ok (false, ⟨report.violations ++ []⟩)
    rw [List.append_nil]
  | cons id ids ih =>
    show (validate id node report >>= fun p =>
      (if p.1 then pure true else any (validate · node) ids) p.2) = _
    rw [h id report]
    unfold Check.upToMatch
    cases evaluate id node with
    | error fault => rfl
    | ok found =>
      cases found with
      | nil => rfl
      | cons violation found =>
        show any (validate · node) ids ⟨report.violations ++ violation :: found⟩ = _
        rw [ih]
        show _ = _ <$> (Check.upToMatch evaluate node ids >>= fun p =>
          Except.ok (p.1, (violation :: found) ++ p.2))
        cases Check.upToMatch evaluate node ids with
        | error fault => rfl
        | ok p =>
          show Except.ok (p.1, Report.mk (report.violations ++ violation :: found ++ p.2)) =
            .ok (p.1, ⟨report.violations ++ (violation :: found ++ p.2)⟩)
          rw [List.append_assoc]

/-- Trying a schema on items until it accepts one adds nothing. -/
theorem any_items_eq {validate : Validation} {evaluate : Evaluator} {node : InstanceNode}
    {schema : ValidatorId} (h : ∀ node, Tells (validate schema node) (evaluate schema node))
    (items : List (Json × Nat)) (report : Report) :
    any (fun (item, position) => do
      return (← apart (validate schema (node.item position item))).1) items report =
      (fun found => (found, report)) <$> Check.someItem evaluate schema node items := by
  induction items with
  | nil => rfl
  | cons item items ih =>
    obtain ⟨item, position⟩ := item
    show ((apart (validate schema (node.item position item)) report >>= fun p =>
      Except.ok (p.1.1, p.2)) >>= fun p => (if p.1 then pure true else any _ items) p.2) = _
    rw [apart_eq (h (node.item position item)) report]
    unfold Check.someItem
    cases evaluate schema (node.item position item) with
    | error fault => rfl
    | ok found =>
      cases found with
      | nil => rfl
      | cons violation found => exact ih

end Reporting

namespace Check

open Reporting

variable {check : Check} {validate : Validation} {evaluate : Evaluator} {node : InstanceNode}

theorem failWith_adds (check : Check) (node : InstanceNode) (child : Report)
    (complaint : Complaint) :
    Adds (check.failWith node child complaint) (check.fails node complaint child.violations) := by
  intro report
  show (report.fold child node.pointer check.location check.key complaint >>= fun r =>
    Except.ok ((), r)) = _
  unfold Report.fold fails
  cases Report.codeOf check.key <;> rfl

/-- A violation of another keyword. -/
theorem error_adds (pointer location key : String) (complaint : Complaint) :
    Adds (fun report => do return ((), ← report.error pointer location key complaint)) (do
      let code ← Report.codeOf key
      return [.mk pointer location (some key) code complaint []]) := by
  intro report
  unfold Report.error Report.fold
  cases Report.codeOf key <;> rfl

section Lists

variable (h : ∀ id, Tells (validate id node) (evaluate id node))
include h

/-- What several schemas answer with a report of their own. -/
theorem apart_answers (ids : List ValidatorId) (report : Report) :
    apart (answers (validate · node) ids) report =
      (fun founds => ((founds.map (·.isEmpty), ⟨founds.flatten⟩), report)) <$>
        verdicts (evaluate · node) ids := by
  show (answers (validate · node) ids .empty >>= fun p => Except.ok (p, report)) = _
  rw [answers_eq h]
  cases verdicts (evaluate · node) ids <;> rfl

theorem reportAll_adds (check : Check) (ids : List ValidatorId) :
    Adds (check.reportAll validate node ids) (check.runAll evaluate ids node) := by
  intro report
  show (apart (answers (validate · node) ids) report >>= fun p => _) = _
  rw [apart_answers h]
  unfold runAll
  cases verdicts (evaluate · node) ids with
  | error fault => rfl
  | ok founds =>
    have count : (founds.map (·.isEmpty)).count false = (founds.filter (!·.isEmpty)).length := by
      rw [List.count, List.countP_map, List.countP_eq_length_filter]
      congr 2
      funext found
      cases found <;> rfl
    show (if (founds.map (·.isEmpty)).count false = 0 then pure () else
      check.failWith node ⟨founds.flatten⟩ (.schemasFailed ((founds.map (·.isEmpty)).count false)
        ids.length) : Reporting Unit) report = _ <$> (if (founds.filter (!·.isEmpty)).length = 0
      then .ok [] else check.fails node (.schemasFailed (founds.filter (!·.isEmpty)).length ids.length)
        founds.flatten)
    rw [count]
    split
    · exact adds_nothing report
    · exact failWith_adds check node _ _ report

theorem reportAny_adds (check : Check) (ids : List ValidatorId) :
    Adds (check.reportAny validate node ids) (check.runAny evaluate ids node) := by
  intro report
  show ((any (validate · node) ids .empty >>= fun p => Except.ok (p, report)) >>= fun p => _) = _
  rw [any_eq h]
  unfold runAny
  cases upToMatch evaluate node ids with
  | error fault => rfl
  | ok p =>
    obtain ⟨matched, found⟩ := p
    cases matched with
    | true => exact adds_nothing report
    | false => exact failWith_adds check node _ _ report

theorem reportOne_adds (check : Check) (ids : List ValidatorId) :
    Adds (check.reportOne validate node ids) (check.runOne evaluate ids node) := by
  intro report
  show (apart (answers (validate · node) ids) report >>= fun p => _) = _
  rw [apart_answers h]
  unfold runOne
  cases verdicts (evaluate · node) ids with
  | error fault => rfl
  | ok founds =>
    have count : (founds.map (·.isEmpty)).count true = (founds.filter (·.isEmpty)).length := by
      rw [List.count, List.countP_map, List.countP_eq_length_filter]
      congr 2
      funext found
      cases found <;> rfl
    show (if (founds.map (·.isEmpty)).count true = 1 then pure () else
      check.failWith node (if (founds.map (·.isEmpty)).count true = 0 then ⟨founds.flatten⟩ else .empty)
        (.notOneMatched ((founds.map (·.isEmpty)).count true)) : Reporting Unit) report =
      _ <$> (if (founds.filter (·.isEmpty)).length = 1 then .ok [] else
        check.fails node (.notOneMatched (founds.filter (·.isEmpty)).length)
          (if (founds.filter (·.isEmpty)).length = 0 then founds.flatten else []))
    rw [count]
    split
    · exact adds_nothing report
    · split <;> exact failWith_adds check node _ _ report

theorem reportNot_adds (check : Check) (id : ValidatorId) :
    Adds (check.reportNot validate node id) (check.runNot evaluate id node) := by
  intro report
  show (apart (validate id node) report >>= fun p => _) = _
  rw [apart_eq (h id)]
  unfold runNot demand
  cases evaluate id node with
  | error fault => rfl
  | ok found =>
    cases found with
    | nil => exact failWith_adds check node .empty _ report
    | cons violation found => exact adds_nothing report

end Lists

theorem withItems_adds (check : Check) {report : List Json → Reporting Unit}
    {run : List Json → Verdict} (adds : ∀ items, Adds (report items) (run items)) :
    Adds (check.withItems node report) (check.onItems node run) := by
  unfold withItems onItems
  cases node.value with
  | array items => exact adds items
  | _ => exact adds_throw _

theorem withMembers_adds (check : Check) {report : List (String × Json) → Reporting Unit}
    {run : List (String × Json) → Verdict} (adds : ∀ members, Adds (report members) (run members)) :
    Adds (check.withMembers node report) (check.onMembers node run) := by
  unfold withMembers onMembers
  cases node.value with
  | object members => exact adds members
  | _ => exact adds_throw _

section Inside

variable (h : ∀ id node, Tells (validate id node) (evaluate id node))
include h

theorem reportContains_adds (check : Check) (id : ValidatorId) (items : List Json) :
    Adds (check.reportContains validate node id items)
      (check.runContains evaluate id node items) := by
  intro report
  show (any _ items.zipIdx report >>= fun p => _) = _
  rw [any_items_eq (h id)]
  unfold runContains demand
  cases someItem evaluate id node items.zipIdx with
  | error fault => rfl
  | ok found =>
    cases found with
    | true => exact adds_nothing report
    | false => exact failWith_adds check node .empty _ report

theorem reportNames_adds (check : Check) (id : ValidatorId) (members : List (String × Json)) :
    Adds (check.reportNames validate node id members)
      (check.runNames evaluate id node members) := by
  have names := adds_each (Members.keys members) fun name _ =>
    (h id (node.child name (.string name))).silent
  intro report
  show (apart (each _ (Members.keys members)) report >>= fun p => _) = _
  rw [apart_adds names]
  unfold runNames
  cases together (fun name => evaluate id (node.child name (.string name)))
    (Members.keys members) with
  | error fault => rfl
  | ok found =>
    cases found with
    | nil => exact adds_nothing report
    | cons violation found => exact failWith_adds check node ⟨violation :: found⟩ _ report

theorem reportEvery_adds (id : ValidatorId) (items : List Json) :
    Adds (reportEvery validate node id items) (runEvery evaluate id node items) :=
  adds_each _ fun (item, position) _ => (h id (node.item position item)).silent

theorem reportEach_adds (ids : List ValidatorId) (additional : Option ValidatorId) (forbid : Bool)
    (place : String) (items : List Json) :
    Adds (reportEach validate node ids additional forbid place items)
      (runEach evaluate ids additional forbid place node items) := by
  have listed := adds_each (ids.zip items.zipIdx) fun entry _ =>
    (h entry.1 (node.item entry.2.2 entry.2.1)).silent
  unfold reportEach runEach
  split
  · simpa using listed
  · split
    · have joined := listed.append (error_adds node.pointer place Builtin.additionalItems.key
        (.surplusItems ids.length items.length))
      simpa using joined
    · cases additional with
      | none =>
        simpa using listed
      | some id =>
        exact listed.append (adds_each _ fun entry _ => (h id (node.item entry.2 entry.1)).silent)

theorem reportProperties_adds (schemas : List (String × ValidatorId))
    (required : List (String × String)) (members : List (String × Json)) :
    Adds (reportProperties validate node schemas required members)
      (runProperties evaluate schemas required node members) := by
  refine adds_each _ ?_
  rintro ⟨name, id⟩ -
  dsimp only
  cases members.lookup name with
  | some value => exact (h id (node.child name value)).silent
  | none =>
    cases required.lookup name with
    | some place => exact error_adds _ _ _ _
    | none => exact adds_nothing

theorem reportPatterns_adds (schemas : List ((String → Bool) × ValidatorId))
    (members : List (String × Json)) :
    Adds (reportPatterns validate node schemas members)
      (runPatterns evaluate schemas node members) := by
  refine adds_each _ ?_
  rintro ⟨name, value⟩ -
  refine adds_each _ ?_
  rintro ⟨search, id⟩ -
  dsimp only
  split
  · exact (h id _).silent
  · exact adds_nothing

theorem reportAdditional_adds (check : Check) (id : ValidatorId) (forbid : Bool)
    (declared : List String) (patterns : List (String → Bool)) (members : List (String × Json)) :
    Adds (check.reportAdditional validate node id forbid declared patterns members)
      (check.runAdditional evaluate id forbid declared patterns node members) := by
  refine adds_each _ ?_
  rintro ⟨name, value⟩ -
  dsimp only
  split
  · exact failWith_adds check (node.child name value) .empty _
  · exact (h id _).silent

theorem reportDependencies_adds (check : Check) (names : List (String × List String))
    (schemas : List (String × ValidatorId)) (members : List (String × Json)) :
    Adds (check.reportDependencies validate node names schemas members)
      (check.runDependencies evaluate names schemas node members) := by
  refine Adds.append (adds_each _ ?_) (adds_each _ ?_)
  · rintro ⟨name, needed⟩ -
    dsimp only [demand]
    split
    · exact adds_nothing
    · split
      · exact adds_nothing
      · exact failWith_adds check node .empty _
  · rintro ⟨name, id⟩ -
    dsimp only
    split
    · exact adds_nothing
    · exact (h id node).silent

/-- A check with a report adds what it finds without one. -/
theorem report_adds (check : Check) {refer : Evaluator}
    {report : ValidatorId → InstanceNode → Reporting Unit}
    (refers : ∀ id node, Adds (report id node) (refer id node)) :
    Adds (check.report validate node report) (check.run evaluate refer node) := by
  obtain ⟨keyword, location, rule⟩ := check
  cases rule with
  | allOf schemas => exact reportAll_adds (fun id => h id node) _ schemas
  | anyOf schemas => exact reportAny_adds (fun id => h id node) _ schemas
  | oneOf schemas => exact reportOne_adds (fun id => h id node) _ schemas
  | not schema => exact reportNot_adds (fun id => h id node) _ schema
  | reference target => exact refers target node
  | items every each additional forbid place =>
    refine withItems_adds _ (fun items => ?_)
    cases each with
    | some schemas => exact reportEach_adds h schemas additional forbid place items
    | none =>
      cases every with
      | some schema => exact reportEvery_adds h schema items
      | none => exact adds_nothing
  | contains schema => exact withItems_adds _ (reportContains_adds h _ schema)
  | properties schemas required =>
    exact withMembers_adds _ (reportProperties_adds h schemas required)
  | patternProperties schemas => exact withMembers_adds _ (reportPatterns_adds h schemas)
  | additionalProperties schema forbid declared patterns =>
    exact withMembers_adds _ (reportAdditional_adds h _ schema forbid declared patterns)
  | propertyNames schema => exact withMembers_adds _ (reportNames_adds h _ schema)
  | dependencies names schemas =>
    exact withMembers_adds _ (reportDependencies_adds h _ names schemas)
  | _ => exact adds_all _

end Inside

/-- A check that applies adds what it finds, another one nothing. -/
theorem report_applies_adds (check : Check) {validate : Validation} {evaluate refer : Evaluator}
    (h : ∀ id node, Tells (validate id node) (evaluate id node))
    {report : ValidatorId → InstanceNode → Reporting Unit}
    (refers : ∀ id node, Adds (report id node) (refer id node)) (node : InstanceNode) :
    Adds (do if ← check.applies node then check.report validate node report)
      (do if ← check.applies node then check.run evaluate refer node else return []) := by
  cases check.applies node with
  | error fault => exact adds_throw fault
  | ok applies =>
    cases applies with
    | true => exact report_adds h check refers
    | false => exact adds_nothing

end Check

/-- Violations are folded into none only if there are none. -/
@[simp] theorem Report.isEmpty_folded (pointer location : String) (found : List Violation) :
    (Report.folded pointer location found).isEmpty = found.isEmpty := by
  match found with
  | [] | [_] | _ :: _ :: _ => rfl

open Reporting

/-- A schema with a report adds what it finds without one, and says whether that is nothing. -/
theorem Validator.report_tells {validate : Validation} {evaluate refer : Evaluator}
    (h : ∀ id node, Tells (validate id node) (evaluate id node))
    {report : ValidatorId → InstanceNode → Reporting Unit}
    (refers : ∀ id node, Adds (report id node) (refer id node)) (validator : Validator)
    (node : InstanceNode) :
    Tells (validator.report validate report node) (validator.evaluateWith evaluate refer node) := by
  have checks := adds_each validator.checkList fun check _ =>
    check.report_applies_adds h refers node
  intro report
  show (apart (each _ validator.checkList) report >>= fun p => _) = _
  rw [apart_adds checks]
  unfold evaluateWith
  cases Check.together (fun check : Check => do
    if ← check.applies node then check.run evaluate refer node else return [])
    validator.checkList with
  | error fault => rfl
  | ok found =>
    show Except.ok (found.isEmpty, (⟨report.violations ++
        Report.folded node.pointer validator.location found⟩ : Report)) =
      Except.ok ((Report.folded node.pointer validator.location found).isEmpty,
        ⟨report.violations ++ Report.folded node.pointer validator.location found⟩)
    rw [Report.isEmpty_folded]

theorem follow_adds {validate : ActiveReferences → Validation}
    {evaluate : ActiveReferences → Evaluator} {target : ValidatorId} {node : InstanceNode}
    (h : ∀ active, Tells (validate active target node) (evaluate active target node))
    (active : ActiveReferences) :
    Adds (follow validate active target node)
      (if active.contains (target, node.path) then .ok []
        else evaluate ((target, node.path) :: active) target node) := by
  unfold follow
  split
  · exact adds_nothing
  · exact (h _).silent

/-- Evaluating with a report adds what the verdict lists, and the answer is whether that is
nothing. -/
theorem tells_validateWithin (table : Array Validator) (depth : Nat) (active : ActiveReferences)
    (id : ValidatorId) (node : InstanceNode) :
    Tells (validateWithin table depth active id node)
      (evaluateWithin table depth active id node) := by
  induction depth generalizing active id node with
  | zero => exact fun _ => rfl
  | succ depth ih =>
    unfold validateWithin evaluateWithin
    cases table[id.index]? with
    | none => exact fun _ => rfl
    | some validator =>
      refine validator.report_tells (fun id node => ih active id node) (fun target node => ?_) node
      exact follow_adds (fun active => ih active target node) active

/-- A reference adds what the verdict of its schema lists, unless it is being evaluated. -/
theorem adds_follow (table : Array Validator) (depth : Nat) (active : ActiveReferences)
    (target : ValidatorId) (node : InstanceNode) :
    Adds (follow (validateWithin table depth) active target node)
      (if active.contains (target, node.path) then .ok []
        else evaluateWithin table depth ((target, node.path) :: active) target node) :=
  follow_adds (fun active => tells_validateWithin table depth active target node) active

end JsonSchema
