import JsonSchema.Proofs.Folding

/-!
# Where violations come from

A run of a check gives violations that the check raises itself (`Check.Raises`) and those of the
schemas that it goes on to: for the same value, for an item or a member of it, or for the name of a
member (`Check.Origin`). So a property holds of all violations of a table if a check passes it on
and folding keeps it (`keeps_evaluateWithin`).
-/

namespace JsonSchema

open Verdict

/-! ## Violations that checks raise -/

/-- A rule complains about the value that it is run on. The others complain about places of their
own, or leave it to the schemas that they go on to. -/
def Rule.Complains : Rule → Prop
  | .reference _ | .items .. | .properties .. | .patternProperties _ | .additionalProperties ..
  | .nothing => False
  | _ => True

theorem Rule.IsPlain.complains {rule : Rule} (plain : rule.IsPlain) : rule.Complains := by
  cases rule <;> first | exact plain.elim | trivial

namespace Check

/-- A check that is run on a value raises a violation that points to the value or to a member of
it. -/
inductive Raises (check : Check) (node : InstanceNode) : InstanceNode → Violation → Prop
  | own {complaint : Complaint} {causes : List Violation} (complains : check.rule.Complains) :
    check.Raises node node (check.violation node complaint causes)
  /-- More items than schemas, at the place that forbids them. -/
  | surplus {every additional : Option ValidatorId} {schemas : List ValidatorId} {place : String}
    {complaint : Complaint} (rule : check.rule = .items every (some schemas) additional true place) :
    check.Raises node node (.mk node.pointer place (some Builtin.additionalItems.key)
      (.keyword Builtin.additionalItems.key) complaint [])
  /-- A member that is not there, at the place that says that it has to be. -/
  | missing {schemas : List (String × ValidatorId)} {required : List (String × String)}
    {members : List (String × Json)} {name place : String}
    (rule : check.rule = .properties schemas required) (value : node.value = .object members)
    (absent : members.lookup name = none) (flagged : required.lookup name = some place) :
    check.Raises node node (.mk node.pointer place (some Builtin.required.key)
      (.keyword Builtin.required.key) (.memberMissing name) [])
  /-- A member that the check forbids. -/
  | forbidden {schema : ValidatorId} {declared : List String} {patterns : List (String → Bool)}
    {members : List (String × Json)} {name : String} {inner : Json}
    (rule : check.rule = .additionalProperties schema true declared patterns)
    (value : node.value = .object members) (mem : (name, inner) ∈ members)
    (additional : isAdditional declared patterns name = true) :
    check.Raises node (node.child name inner)
      (check.violation (node.child name inner) (.memberForbidden name) [])
  | nothing (rule : check.rule = .nothing) :
    check.Raises node node (.mk node.pointer check.location none .schemaFalse .nothingAllowed [])

/-- The violations of a check run on a value: those it raises, and those that schemas give. -/
inductive Origin (gives : InstanceNode → Violation → Prop) (check : Check) (node : InstanceNode) :
    Violation → Prop
  | raised {spot : InstanceNode} {v : Violation} (raises : check.Raises node spot v)
    (causes : ∀ cause ∈ v.causes, gives node cause) : check.Origin gives node v
  /-- The causes are what a schema says of the names. -/
  | names {schema : ValidatorId} {members : List (String × Json)} {complaint : Complaint}
    {causes : List Violation} (rule : check.rule = .propertyNames schema)
    (value : node.value = .object members) (some : causes ≠ [])
    (each : ∀ cause ∈ causes, ∃ name ∈ Members.keys members,
      gives (node.child name (.string name)) cause) :
    check.Origin gives node (check.violation node complaint causes)
  | here {v : Violation} (given : gives node v) : check.Origin gives node v
  | item {items : List Json} {position : Nat} {item : Json} {v : Violation}
    (value : node.value = .array items) (mem : (item, position) ∈ items.zipIdx)
    (given : gives (node.item position item) v) : check.Origin gives node v
  | member {members : List (String × Json)} {name : String} {inner : Json} {v : Violation}
    (value : node.value = .object members) (mem : (name, inner) ∈ members)
    (given : gives (node.child name inner) v) : check.Origin gives node v

variable {P : Violation → Prop} {gives : InstanceNode → Violation → Prop} {check : Check}
  {evaluate refer : Evaluator} {node : InstanceNode}

/-! ## Runs of checks -/

theorem of_verdicts {α : Type} {f : α → Verdict} {xs : List α} {founds : List (List Violation)}
    (each : ∀ x ∈ xs, Keeps P (f x)) (ok : verdicts f xs = .ok founds) :
    ∀ v ∈ founds.flatten, P v :=
  keeps_together each founds.flatten (by unfold together; rw [ok]; rfl)

theorem of_upToMatch {schemas : List ValidatorId} {matched : Bool} {found : List Violation}
    (each : ∀ id, Keeps P (evaluate id node))
    (ok : upToMatch evaluate node schemas = .ok (matched, found)) : ∀ v ∈ found, P v := by
  induction schemas generalizing matched found with
  | nil =>
    cases ok
    exact List.forall_mem_nil P
  | cons id schemas ih =>
    unfold upToMatch at ok
    obtain ⟨first, given, ok⟩ := except_bind_ok ok
    split at ok
    · cases ok
      exact List.forall_mem_nil P
    · obtain ⟨⟨_, others⟩, rest, ok⟩ := except_bind_ok ok
      cases ok
      exact List.forall_mem_append.2 ⟨each id first given, ih rest⟩

section Gives

variable (each : ∀ id node, Keeps (gives node) (evaluate id node))
include each

theorem origin_runAll (complains : check.rule.Complains) (schemas : List ValidatorId) :
    Keeps (check.Origin gives node) (check.runAll evaluate schemas node) := by
  refine keeps_bind fun founds ok => ?_
  dsimp only
  split
  · exact keeps_nothing
  · exact keeps_fails (.raised (.own complains) (of_verdicts (fun id _ => each id node) ok))

theorem origin_runAny (complains : check.rule.Complains) (schemas : List ValidatorId) :
    Keeps (check.Origin gives node) (check.runAny evaluate schemas node) := by
  refine keeps_bind fun (matched, found) ok => ?_
  dsimp only
  split
  · exact keeps_nothing
  · exact keeps_fails (.raised (.own complains) (of_upToMatch (fun id => each id node) ok))

theorem origin_runOne (complains : check.rule.Complains) (schemas : List ValidatorId) :
    Keeps (check.Origin gives node) (check.runOne evaluate schemas node) := by
  refine keeps_bind fun founds ok => ?_
  dsimp only
  split
  · exact keeps_nothing
  · refine keeps_fails (.raised (.own complains) ?_)
    split
    · exact of_verdicts (fun id _ => each id node) ok
    · exact List.forall_mem_nil _

theorem origin_runNames {schema : ValidatorId} {members : List (String × Json)}
    (rule : check.rule = .propertyNames schema) (value : node.value = .object members) :
    Keeps (check.Origin gives node) (check.runNames evaluate schema node members) := by
  refine keeps_bind fun found ok => ?_
  split
  · exact keeps_nothing
  · next some =>
    have named : Keeps (fun cause => ∃ name ∈ Members.keys members,
        gives (node.child name (.string name)) cause)
        (together (fun name => evaluate schema (node.child name (.string name)))
          (Members.keys members)) :=
      keeps_together fun name mem found ok v given => ⟨name, mem, each _ _ found ok v given⟩
    exact keeps_fails (.names rule value (fun none => some (by rw [none]; rfl)) (named found ok))

/-- What a schema says of an item. -/
theorem origin_item {items : List Json} {position : Nat} {item : Json}
    (value : node.value = .array items) (mem : (item, position) ∈ items.zipIdx)
    (schema : ValidatorId) :
    Keeps (check.Origin gives node) (evaluate schema (node.item position item)) :=
  fun found ok v given => .item value mem (each _ _ found ok v given)

/-- What a schema says of a member. -/
theorem origin_member {members : List (String × Json)} {name : String} {inner : Json}
    (value : node.value = .object members) (mem : (name, inner) ∈ members)
    (schema : ValidatorId) :
    Keeps (check.Origin gives node) (evaluate schema (node.child name inner)) :=
  fun found ok v given => .member value mem (each _ _ found ok v given)

theorem origin_runEvery {items : List Json} (value : node.value = .array items)
    (schema : ValidatorId) :
    Keeps (check.Origin gives node) (runEvery evaluate schema node items) :=
  keeps_together fun (_, _) mem => origin_item each value mem schema

theorem origin_runEach {every additional : Option ValidatorId} {schemas : List ValidatorId}
    {forbid : Bool} {place : String}
    (rule : check.rule = .items every (some schemas) additional forbid place) {items : List Json}
    (value : node.value = .array items) :
    Keeps (check.Origin gives node)
      (runEach evaluate schemas additional forbid place node items) := by
  have listed : Keeps (check.Origin gives node) (together
      (fun entry => evaluate entry.1 (node.item entry.2.2 entry.2.1))
      (schemas.zip items.zipIdx)) :=
    keeps_together fun (schema, _, _) mem =>
      origin_item each value (List.of_mem_zip mem).2 schema
  unfold runEach
  split
  · simpa using listed
  · split
    · next forbids =>
      rw [forbids] at rule
      have surplus : Keeps (check.Origin gives node) (do
          let code ← Report.codeOf Builtin.additionalItems.key
          return [.mk node.pointer place (some Builtin.additionalItems.key) code
            (.surplusItems schemas.length items.length) []]) :=
        keeps_other (.raised (.surplus rule) (List.forall_mem_nil _))
      simpa using keeps_append listed surplus
    · cases additional with
      | none => simpa using listed
      | some schema =>
        exact keeps_append listed (keeps_together fun (_, _) mem =>
          origin_item each value (List.mem_of_mem_drop mem) schema)

theorem origin_runProperties {schemas : List (String × ValidatorId)}
    {required : List (String × String)} (rule : check.rule = .properties schemas required)
    {members : List (String × Json)} (value : node.value = .object members) :
    Keeps (check.Origin gives node) (runProperties evaluate schemas required node members) := by
  refine keeps_together fun (name, schema) _ => ?_
  dsimp only
  split
  · next inner found => exact origin_member each value (Members.mem_of_lookup found) schema
  · next absent flagged =>
    exact keeps_other (.raised (.missing rule value absent flagged) (List.forall_mem_nil _))
  · exact keeps_nothing

theorem origin_runPatterns (schemas : List ((String → Bool) × ValidatorId))
    {members : List (String × Json)} (value : node.value = .object members) :
    Keeps (check.Origin gives node) (runPatterns evaluate schemas node members) := by
  refine keeps_together fun (name, inner) mem => keeps_together fun (search, schema) _ => ?_
  dsimp only
  split
  · exact origin_member each value mem schema
  · exact keeps_nothing

theorem origin_runAdditional {schema : ValidatorId} {forbid : Bool} {declared : List String}
    {patterns : List (String → Bool)}
    (rule : check.rule = .additionalProperties schema forbid declared patterns)
    {members : List (String × Json)} (value : node.value = .object members) :
    Keeps (check.Origin gives node)
      (check.runAdditional evaluate schema forbid declared patterns node members) := by
  refine keeps_together fun (name, inner) mem => ?_
  obtain ⟨mem, additional⟩ := List.mem_filter.1 mem
  dsimp only
  split
  · next forbids =>
    rw [forbids] at rule
    exact keeps_fails
      (.raised (.forbidden rule value mem additional) (List.forall_mem_nil _))
  · exact origin_member each value mem schema

theorem origin_runDependencies (complains : check.rule.Complains)
    (names : List (String × List String)) (schemas : List (String × ValidatorId))
    (members : List (String × Json)) :
    Keeps (check.Origin gives node) (check.runDependencies evaluate names schemas node members) := by
  refine keeps_append (keeps_together fun (name, needed) _ => ?_)
    (keeps_together fun (name, schema) _ => ?_)
  · dsimp only
    split
    · exact keeps_nothing
    · exact keeps_demand (fun _ => .raised (.own complains) (List.forall_mem_nil _)) _ _
  · dsimp only
    split
    · exact keeps_nothing
    · exact fun found ok v given => .here (each _ _ found ok v given)

/-- Whatever the schemas give, the violations of a check have their origin in it or in them. -/
theorem origin_run (refers : ∀ target, Keeps (gives node) (refer target node)) :
    Keeps (check.Origin gives node) (check.run evaluate refer node) := by
  by_cases plain : check.rule.IsPlain
  · exact keeps_runPlain
      (fun _ => .raised (.own plain.complains) (List.forall_mem_nil _)) plain
  unfold run
  cases rule : check.rule <;> rw [rule] at plain <;> dsimp only
  case allOf => exact origin_runAll each (by rw [rule]; trivial) _
  case anyOf => exact origin_runAny each (by rw [rule]; trivial) _
  case oneOf => exact origin_runOne each (by rw [rule]; trivial) _
  case propertyNames => exact keeps_onMembers fun _ value => origin_runNames each rule value
  case reference target => exact fun found ok v given => .here (refers target found ok v given)
  case items every schemas additional forbid place =>
    refine keeps_onItems fun items value => ?_
    cases schemas with
    | some schemas => exact origin_runEach each rule value
    | none =>
      cases every with
      | some schema => exact origin_runEvery each value schema
      | none => exact keeps_nothing
  case properties => exact keeps_onMembers fun _ value => origin_runProperties each rule value
  case patternProperties => exact keeps_onMembers fun _ value => origin_runPatterns each _ value
  case additionalProperties =>
    exact keeps_onMembers fun _ value => origin_runAdditional each rule value
  case dependencies =>
    exact keeps_onMembers fun _ _ => origin_runDependencies each (by rw [rule]; trivial) _ _ _
  case nothing => exact keeps_one (.raised (.nothing rule) (List.forall_mem_nil _))
  all_goals exact (plain trivial).elim

end Gives

/-! ## Violations of tables -/

/-- A check that applies to a value gives a violation when it is run on it. -/
def Finds (table : Array Validator) (check : Check) (node : InstanceNode) (v : Violation) : Prop :=
  ∃ depth active found, check.applies node = .ok true ∧
    check.run (evaluateWithin table depth active) (fun target node =>
      if active.contains (target, node.path) then .ok []
      else evaluateWithin table depth ((target, node.path) :: active) target node) node
        = .ok found ∧ v ∈ found

end Check

/-- What the checks of a table pass on and folding keeps, holds of all that evaluation gives. -/
theorem keeps_evaluateWithin {table : Array Validator} {P : InstanceNode → Violation → Prop}
    (checks : ∀ check node v, Listed table check → check.Finds table node v →
      check.Origin P node v → P node v)
    (several : ∀ node location causes, (∀ cause ∈ causes, P node cause) →
      P node (.mk node.pointer location none .schema (.severalViolations causes.length) causes))
    (depth : Nat) (active : ActiveReferences) (id : ValidatorId) (node : InstanceNode) :
    Keeps (P node) (evaluateWithin table depth active id node) := by
  induction depth generalizing active id node with
  | zero => exact keeps_error _
  | succ depth ih =>
    unfold evaluateWithin
    cases stored : table[id.index]? with
    | none => exact keeps_error _
    | some validator =>
      refine keeps_bind fun found ok => ?_
      have each : Keeps (P node) (.ok found) := by
        rw [← ok]
        refine keeps_together fun check mem => keeps_bind fun applies answer => ?_
        cases applies with
        | false => exact keeps_nothing
        | true =>
          intro given ran v mem'
          rw [if_pos rfl] at ran
          refine checks check node v ⟨id.index, validator, stored, mem⟩
            ⟨depth, active, given, answer, ran, mem'⟩ ?_
          refine Check.origin_run (ih active) (fun target => ?_) given ran v mem'
          split
          · exact keeps_nothing
          · exact ih _ target node
      rintro violations ⟨⟩
      have given := each found rfl
      exact Report.forall_folded given fun _ => several node validator.location found given

/-- Every violation of a tree that has a keyword is raised by a check of a table. -/
def Violation.AreRaised (table : Array Validator) (v : Violation) : Prop :=
  ∀ w : Violation, w.Under v → w.keyword.isSome = true →
    ∃ check node spot, Listed table check ∧ check.Raises node spot w

theorem Check.Origin.areRaised {table : Array Validator} {check : Check} {node : InstanceNode}
    {v : Violation} (listed : Listed table check)
    (origin : check.Origin (fun _ v => v.AreRaised table) node v) : v.AreRaised table := by
  cases origin with
  | raised raises causes =>
    exact Violation.forall_under (fun _ => ⟨check, node, _, listed, raises⟩) causes
  | names rule _ _ each =>
    refine Violation.forall_under (fun _ => ?_) fun cause mem => ?_
    · exact ⟨check, node, node, listed, .own (by rw [rule]; trivial)⟩
    · obtain ⟨_, _, given⟩ := each cause mem
      exact given
  | here given => exact given
  | item _ _ given => exact given
  | member _ _ given => exact given

theorem areRaised_evaluateWithin (table : Array Validator) (depth : Nat)
    (active : ActiveReferences) (id : ValidatorId) (node : InstanceNode) :
    Keeps (Violation.AreRaised table) (evaluateWithin table depth active id node) :=
  @keeps_evaluateWithin table (fun _ v => v.AreRaised table)
    (fun _ _ _ listed _ origin => origin.areRaised listed)
    (fun _ _ _ each => Violation.forall_under (fun named => nomatch named) each)
    depth active id node

end JsonSchema
