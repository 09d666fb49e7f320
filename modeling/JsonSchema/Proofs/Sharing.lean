import JsonSchema.Proofs.Checking
import Mathlib.Data.Finset.Basic

/-!
# One set of active references

`evaluateWithin` passes the references that are being evaluated down to the schemas that they lead
to. A program may as well keep one set of them for a whole run, which all checks share: a reference
enters itself into the set, has its target evaluated, and leaves the set again even if that stops
with a fault (`Sharing.during`). Here evaluation is written in this way, with the set going through
all checks one after the other, up to the first schema that settles a matter.

A reference in the set also tells which object it is being evaluated on. Two objects may stand at
one place, the value of a member and its name, so there are two ways of telling the objects apart:
one for the values and one for the names. A run on a name tells all objects apart as names.

An evaluation leaves any set as it found it, also after a fault, so what runs later sees nothing of
what ran before: it does what it does where the set is passed down (`Sharing.mirrors_evaluateFrom`).
Where the set holds the references that `evaluateWithin` is given it does what this does
(`Sharing.mirrors_evaluateWithin`), whatever tells the objects apart. `Sharing.Mirrors` says this of
a computation, and each check keeps it (`Sharing.mirrors_run`).
-/

namespace JsonSchema

/-- References to schemas that are being evaluated, each with the object and its place. -/
abbrev ReferenceSet (ι : Type) := Finset (ValidatorId × ι × Pointer)

/-- A computation that works on a set of references; what it did to the set outlives a fault. -/
abbrev Joint (ι : Type) := ExceptT Fault (StateM (ReferenceSet ι))

/-- The evaluation for what a rule goes on to, the values or the names of members. -/
def Rule.pick {α : Type} (rule : Rule) (values names : α) : α :=
  match rule with
  | .propertyNames _ => names
  | _ => values

theorem Rule.pick_self {α : Type} (rule : Rule) (values : α) :
    rule.pick values values = values := by
  cases rule <;> rfl

/-- The violations of the checks of a schema that apply to a value, as at most one, with an
evaluation for each rule. -/
def Validator.evaluateEach (evaluate : Rule → Evaluator) (refer : Evaluator) (node : InstanceNode)
    (validator : Validator) : Verdict := do
  let found ← Check.together (fun (check : Check) => do
    if ← check.applies node then check.run (evaluate check.rule) refer node else return [])
    validator.checkList
  return Report.folded node.pointer validator.location found

namespace Sharing

variable {ι : Type}

/-- A function that evaluates a compiled schema on a value, with a set of references. -/
abbrev Evaluator (ι : Type) := ValidatorId → InstanceNode → Joint ι (List Violation)

/-! ## Evaluation -/

/-- A computation that leaves the set alone. -/
def lift {α : Type} : Except Fault α → Joint ι α
  | .ok a => pure a
  | .error fault => throw fault

/-- A computation while a reference is in the set, which it leaves however the computation ends. -/
def during {α : Type} [DecidableEq ι] (reference : ValidatorId × ι × Pointer) (act : Joint ι α) :
    Joint ι α :=
  ExceptT.mk fun set =>
    let (result, after) := act.run.run (insert reference set)
    (result, after.erase reference)

variable (check : Check) (evaluate : Evaluator ι) (node : InstanceNode)

/-- The violations of several evaluations together. -/
def together {α : Type} (act : α → Joint ι (List Violation)) (values : List α) :
    Joint ι (List Violation) :=
  (·.flatten) <$> values.mapM act

/-- Every schema accepts the value. -/
def runAll (schemas : List ValidatorId) : Joint ι (List Violation) := do
  let found ← schemas.mapM (evaluate · node)
  let failed := (found.filter (!·.isEmpty)).length
  if failed = 0 then return []
  lift (check.fails node (.schemasFailed failed schemas.length) found.flatten)

/-- The violations of schemas up to the first that accepts the value, and whether there is one. -/
def upToMatch : List ValidatorId → Joint ι (Bool × List Violation)
  | [] => return (false, [])
  | schema :: rest => do
    let found ← evaluate schema node
    if found.isEmpty then return (true, [])
    let (matched, others) ← upToMatch rest
    return (matched, found ++ others)

/-- Some schema accepts the value; those behind the first are not looked at. -/
def runAny (schemas : List ValidatorId) : Joint ι (List Violation) := do
  let (matched, found) ← upToMatch evaluate node schemas
  if matched then return []
  lift (check.fails node (.noSchemaMatched schemas.length) found)

/-- Exactly one schema accepts the value. -/
def runOne (schemas : List ValidatorId) : Joint ι (List Violation) := do
  let found ← schemas.mapM (evaluate · node)
  let matched := (found.filter (·.isEmpty)).length
  if matched = 1 then return []
  lift (check.fails node (.notOneMatched matched) (if matched = 0 then found.flatten else []))

/-- The schema does not accept the value. -/
def runNot (schema : ValidatorId) : Joint ι (List Violation) := do
  let found ← evaluate schema node
  lift (check.demand node (!found.isEmpty) .forbiddenMatch)

/-- The violations of items with their positions. -/
def runNumbered (schema : ValidatorId) (items : List (Json × Nat)) : Joint ι (List Violation) :=
  together (fun (item, position) => evaluate schema (node.item position item)) items

/-- The violations of items under the schemas for their positions, and of the others. -/
def runEach (schemas : List ValidatorId) (additional : Option ValidatorId) (forbid : Bool)
    (place : String) (items : List Json) : Joint ι (List Violation) := do
  let listed ← together (fun (schema, item, position) => evaluate schema (node.item position item))
    (schemas.zip items.zipIdx)
  if items.length ≤ schemas.length then return listed
  if forbid then
    let key := Builtin.additionalItems.key
    let code ← lift (Report.codeOf key)
    return listed
      ++ [.mk node.pointer place (some key) code (.surplusItems schemas.length items.length) []]
  match additional with
  | none => return listed
  | some schema =>
    let surplus ← runNumbered evaluate node schema (items.zipIdx.drop schemas.length)
    return listed ++ surplus

/-- Whether some item is accepted; those behind the first are not looked at. -/
def someItem (schema : ValidatorId) : List (Json × Nat) → Joint ι Bool
  | [] => return false
  | (item, position) :: rest => do
    let found ← evaluate schema (node.item position item)
    if found.isEmpty then return true
    someItem schema rest

/-- Some item is accepted by a schema. -/
def runContains (schema : ValidatorId) (items : List Json) : Joint ι (List Violation) := do
  let found ← someItem evaluate node schema items.zipIdx
  lift (check.demand node found .nothingContained)

/-- The members that have a schema are accepted by it, and those that must be there are. -/
def runProperties (schemas : List (String × ValidatorId)) (required : List (String × String))
    (members : List (String × Json)) : Joint ι (List Violation) :=
  together (fun (name, schema) =>
    match members.lookup name, required.lookup name with
    | some value, _ => evaluate schema (node.child name value)
    | none, some place => lift do
      let code ← Report.codeOf Builtin.required.key
      return [.mk node.pointer place (some Builtin.required.key) code (.memberMissing name) []]
    | none, none => return []) schemas

/-- The members are accepted by the schemas of all patterns that their names match. -/
def runPatterns (schemas : List ((String → Bool) × ValidatorId)) (members : List (String × Json)) :
    Joint ι (List Violation) :=
  together (fun (name, value) =>
    together (fun (search, schema) =>
      if search name then evaluate schema (node.child name value) else return [])
      schemas) members

/-- The additional members are accepted by a schema, or there are none. -/
def runAdditional (schema : ValidatorId) (forbid : Bool) (declared : List String)
    (patterns : List (String → Bool)) (members : List (String × Json)) :
    Joint ι (List Violation) :=
  together (fun (name, value) =>
    let member := node.child name value
    if forbid then lift (check.fails member (.memberForbidden name) [])
    else evaluate schema member)
    (members.filter fun (name, _) => Check.isAdditional declared patterns name)

/-- The names of members are accepted by a schema. -/
def runNames (schema : ValidatorId) (members : List (String × Json)) :
    Joint ι (List Violation) := do
  let found ←
    together (fun name => evaluate schema (node.child name (.string name))) (Members.keys members)
  if found.isEmpty then return []
  lift (check.fails node (.badNames found.length) found)

/-- The members that others depend on are there, and the value is accepted by the schemas that its
members bring. -/
def runDependencies (names : List (String × List String)) (schemas : List (String × ValidatorId))
    (members : List (String × Json)) : Joint ι (List Violation) := do
  let fromNames ← together (fun (name, needed) => lift <|
    if (members.lookup name).isNone then .ok []
    else
      let missing := Check.missingNames members needed
      check.demand node missing.isEmpty (.dependencyMissing name missing)) names
  let fromSchemas ← together (fun (name, schema) =>
    if (members.lookup name).isNone then return [] else evaluate schema node) schemas
  return fromNames ++ fromSchemas

/-- A computation on the items of an array. -/
def onItems (run : List Json → Joint ι (List Violation)) : Joint ι (List Violation) :=
  match node.value with
  | .array items => run items
  | _ => lift check.misfit

/-- A computation on the members of an object. -/
def onMembers (run : List (String × Json) → Joint ι (List Violation)) : Joint ι (List Violation) :=
  match node.value with
  | .object members => run members
  | _ => lift check.misfit

/-- Runs a check on a value. A rule that goes on to no schema leaves the set alone. -/
def run (refer : Evaluator ι) : Joint ι (List Violation) :=
  match check.rule with
  | .allOf schemas => runAll check evaluate node schemas
  | .anyOf schemas => runAny check evaluate node schemas
  | .oneOf schemas => runOne check evaluate node schemas
  | .not schema => runNot check evaluate node schema
  | .reference target => refer target node
  | .items every each additional forbid place =>
    onItems check node fun items =>
      match each, every with
      | some schemas, _ => runEach evaluate node schemas additional forbid place items
      | none, some schema => runNumbered evaluate node schema items.zipIdx
      | none, none => return []
  | .contains schema => onItems check node (runContains check evaluate node schema)
  | .properties schemas required =>
    onMembers check node (runProperties evaluate node schemas required)
  | .patternProperties schemas => onMembers check node (runPatterns evaluate node schemas)
  | .additionalProperties schema forbid declared patterns =>
    onMembers check node (runAdditional check evaluate node schema forbid declared patterns)
  | .propertyNames schema => onMembers check node (runNames check evaluate node schema)
  | .dependencies names schemas =>
    onMembers check node (runDependencies check evaluate node names schemas)
  | _ => lift (check.run (fun _ _ => .ok []) (fun _ _ => .ok []) node)

/-- The violations of the checks of a schema that apply to a value, as at most one, with an
evaluation for each rule. -/
def evaluateEach (evaluate : Rule → Evaluator ι) (refer : Evaluator ι) (validator : Validator) :
    Joint ι (List Violation) := do
  let found ← together (fun (check : Check) => do
    if ← lift (check.applies node) then run check (evaluate check.rule) node refer else return [])
    validator.checkList
  return Report.folded node.pointer validator.location found

/-- Evaluates the target of a reference, unless this is being done on the same object at the same
place. -/
def refer [DecidableEq ι] (object : Pointer → ι) (target : ValidatorId) :
    Joint ι (List Violation) := do
  let set ← get
  if (target, object node.path, node.path) ∈ set then return []
  during (target, object node.path, node.path) (evaluate target node)

/-- Evaluates a compiled schema on a value, at most `depth` schemas deep; `object` tells apart what
is evaluated, and `name` the names of members. -/
def evaluateWithin [DecidableEq ι] (name : Pointer → ι) (table : Array Validator) (depth : Nat)
    (object : Pointer → ι) (id : ValidatorId) (node : InstanceNode) : Joint ι (List Violation) :=
  match depth, table[id.index]? with
  | depth + 1, some validator =>
    evaluateEach node
      (fun rule => rule.pick (evaluateWithin name table depth object)
        (evaluateWithin name table depth name))
      (fun target node => refer (evaluateWithin name table depth object) node object target)
      validator
  | _, _ => throw .exhausted

/-- The same with the set passed down. -/
def evaluateFrom [DecidableEq ι] (name : Pointer → ι) (table : Array Validator) (depth : Nat)
    (object : Pointer → ι) (set : ReferenceSet ι) (id : ValidatorId) (node : InstanceNode) :
    Verdict :=
  match depth, table[id.index]? with
  | depth + 1, some validator =>
    validator.evaluateEach
      (fun rule => rule.pick (evaluateFrom name table depth object set)
        (evaluateFrom name table depth name set))
      (fun target node =>
        let reference := (target, object node.path, node.path)
        if reference ∈ set then .ok []
        else evaluateFrom name table depth object (insert reference set) target node) node
  | _, _ => .error .exhausted

/-! ## The set is left as it was found -/

/-- With a set, a computation does what another one does without it, and leaves the set as it
was. -/
def Mirrors {α : Type} (set : ReferenceSet ι) (act : Joint ι α) (result : Except Fault α) : Prop :=
  act.run.run set = (result, set)

section Mirrors

variable {α β : Type} {set : ReferenceSet ι}

theorem mirrors_pure (a : α) : Mirrors set (pure a) (.ok a) :=
  rfl

theorem mirrors_lift (result : Except Fault α) : Mirrors set (lift result) result := by
  cases result <;> rfl

theorem Mirrors.bind {act : Joint ι α} {result : Except Fault α} {next : α → Joint ι β}
    {next' : α → Except Fault β} (first : Mirrors set act result)
    (rest : ∀ a, Mirrors set (next a) (next' a)) :
    Mirrors set (act >>= next) (result >>= next') := by
  cases result with
  | ok a => exact (run_bind_ok first).trans (rest a)
  | error fault => exact run_bind_error first

theorem mirrors_mapM {act : α → Joint ι β} {result : α → Except Fault β} {xs : List α}
    (each : ∀ a ∈ xs, Mirrors set (act a) (result a)) :
    Mirrors set (xs.mapM act) (xs.mapM result) := by
  induction xs with
  | nil => exact mirrors_pure []
  | cons a rest ih =>
    rw [List.mapM_cons, List.mapM_cons]
    refine (each a List.mem_cons_self).bind fun b => ?_
    refine (ih fun a' mem => each a' (List.mem_cons_of_mem _ mem)).bind fun bs => ?_
    exact mirrors_pure (b :: bs)

/-- A reference that was not in the set is not in it afterwards. -/
theorem mirrors_during [DecidableEq ι] {reference : ValidatorId × ι × Pointer} {act : Joint ι α}
    {result : Except Fault α} (fresh : reference ∉ set)
    (inner : Mirrors (insert reference set) act result) :
    Mirrors set (during reference act) result := by
  unfold Mirrors at inner ⊢
  have same : (insert reference set).erase reference = set := Finset.erase_insert fresh
  unfold during
  change (let (result, after) := act.run.run (insert reference set)
    (result, after.erase reference)) = _
  rw [inner]
  exact congrArg (result, ·) same

end Mirrors

section Checks

variable {check : Check} {node : InstanceNode} {set : ReferenceSet ι} {evaluate : Evaluator ι}
  {evaluate' : JsonSchema.Evaluator}

theorem mirrors_together {α : Type} {act : α → Joint ι (List Violation)} {result : α → Verdict}
    {xs : List α} (each : ∀ a ∈ xs, Mirrors set (act a) (result a)) :
    Mirrors set (together act xs) (Check.together result xs) := by
  unfold together Check.together Check.verdicts
  rw [map_eq_pure_bind, map_eq_pure_bind]
  exact (mirrors_mapM each).bind fun found => mirrors_pure found.flatten

section Here

variable {schemas : List ValidatorId}
  (h : ∀ id ∈ schemas, Mirrors set (evaluate id node) (evaluate' id node))
include h

theorem mirrors_all :
    Mirrors set (runAll check evaluate node schemas) (check.runAll evaluate' schemas node) := by
  refine (mirrors_mapM h).bind fun found => ?_
  dsimp only
  split
  · exact mirrors_pure []
  · exact mirrors_lift _

theorem mirrors_upToMatch :
    Mirrors set (upToMatch evaluate node schemas) (Check.upToMatch evaluate' node schemas) := by
  induction schemas with
  | nil => exact mirrors_pure _
  | cons id rest ih =>
    refine (h id List.mem_cons_self).bind fun found => ?_
    dsimp only
    split
    · exact mirrors_pure _
    · exact (ih fun id' mem => h id' (List.mem_cons_of_mem _ mem)).bind fun _ => mirrors_pure _

theorem mirrors_any :
    Mirrors set (runAny check evaluate node schemas) (check.runAny evaluate' schemas node) := by
  refine (mirrors_upToMatch h).bind fun found => ?_
  dsimp only
  split
  · exact mirrors_pure []
  · exact mirrors_lift _

theorem mirrors_one :
    Mirrors set (runOne check evaluate node schemas) (check.runOne evaluate' schemas node) := by
  refine (mirrors_mapM h).bind fun found => ?_
  dsimp only
  split
  · exact mirrors_pure []
  · exact mirrors_lift _

end Here

theorem mirrors_not {schema : ValidatorId}
    (h : Mirrors set (evaluate schema node) (evaluate' schema node)) :
    Mirrors set (runNot check evaluate node schema) (check.runNot evaluate' schema node) :=
  h.bind fun _ => mirrors_lift _

/-- The evaluations of a place inside a value mirror each other. -/
def MirrorsInside (set : ReferenceSet ι) (evaluate : Evaluator ι)
    (evaluate' : JsonSchema.Evaluator) (node : InstanceNode) (id : ValidatorId) : Prop :=
  ∀ segment inner, Mirrors set (evaluate id (node.child segment inner))
    (evaluate' id (node.child segment inner))

section Inside

variable {schema : ValidatorId} (h : MirrorsInside set evaluate evaluate' node schema)

include h in
theorem mirrors_numbered (items : List (Json × Nat)) :
    Mirrors set (runNumbered evaluate node schema items)
      (Check.together (fun (item, position) => evaluate' schema (node.item position item)) items) :=
  mirrors_together fun _ _ => h _ _

theorem mirrors_each {schemas : List ValidatorId} {additional : Option ValidatorId} (forbid : Bool)
    (place : String) (items : List Json)
    (listed : ∀ id ∈ schemas, MirrorsInside set evaluate evaluate' node id)
    (more : ∀ id ∈ additional, MirrorsInside set evaluate evaluate' node id) :
    Mirrors set (runEach evaluate node schemas additional forbid place items)
      (Check.runEach evaluate' schemas additional forbid place node items) := by
  unfold runEach Check.runEach
  refine (mirrors_together fun a mem => ?_).bind fun found => ?_
  · exact listed a.1 (List.of_mem_zip mem).1 _ _
  dsimp only
  split
  · exact mirrors_pure _
  split
  · exact (mirrors_lift _).bind fun _ => mirrors_pure _
  cases additional with
  | none => exact mirrors_pure _
  | some schema => exact (mirrors_numbered (more schema rfl) _).bind fun _ => mirrors_pure _

include h

theorem mirrors_someItem (items : List (Json × Nat)) :
    Mirrors set (someItem evaluate node schema items)
      (Check.someItem evaluate' schema node items) := by
  induction items with
  | nil => exact mirrors_pure false
  | cons first rest ih =>
    refine (h _ _).bind fun found => ?_
    split
    · exact mirrors_pure true
    · exact ih

theorem mirrors_contains (items : List Json) :
    Mirrors set (runContains check evaluate node schema items)
      (check.runContains evaluate' schema node items) :=
  (mirrors_someItem h _).bind fun _ => mirrors_lift _

theorem mirrors_additional (forbid : Bool) (declared : List String)
    (patterns : List (String → Bool)) (members : List (String × Json)) :
    Mirrors set (runAdditional check evaluate node schema forbid declared patterns members)
      (check.runAdditional evaluate' schema forbid declared patterns node members) := by
  refine mirrors_together fun (name, value) _ => ?_
  dsimp only
  split
  · exact mirrors_lift _
  · exact h _ _

theorem mirrors_names (members : List (String × Json)) :
    Mirrors set (runNames check evaluate node schema members)
      (check.runNames evaluate' schema node members) := by
  refine (mirrors_together fun name _ => h _ _).bind fun found => ?_
  split
  · exact mirrors_pure []
  · exact mirrors_lift _

end Inside

theorem mirrors_properties {schemas : List (String × ValidatorId)}
    (required : List (String × String)) (members : List (String × Json))
    (h : ∀ entry ∈ schemas, MirrorsInside set evaluate evaluate' node entry.2) :
    Mirrors set (runProperties evaluate node schemas required members)
      (Check.runProperties evaluate' schemas required node members) := by
  refine mirrors_together fun (name, schema) mem => ?_
  dsimp only
  cases members.lookup name with
  | some value => exact h (name, schema) mem _ _
  | none =>
    cases required.lookup name with
    | some place => exact mirrors_lift _
    | none => exact mirrors_pure []

theorem mirrors_patterns {schemas : List ((String → Bool) × ValidatorId)}
    (members : List (String × Json))
    (h : ∀ entry ∈ schemas, MirrorsInside set evaluate evaluate' node entry.2) :
    Mirrors set (runPatterns evaluate node schemas members)
      (Check.runPatterns evaluate' schemas node members) := by
  refine mirrors_together fun (name, value) _ => ?_
  refine mirrors_together fun (search, schema) mem => ?_
  dsimp only
  split
  · exact h (search, schema) mem _ _
  · exact mirrors_pure []

theorem mirrors_dependencies (names : List (String × List String))
    {schemas : List (String × ValidatorId)} (members : List (String × Json))
    (h : ∀ entry ∈ schemas, Mirrors set (evaluate entry.2 node) (evaluate' entry.2 node)) :
    Mirrors set (runDependencies check evaluate node names schemas members)
      (check.runDependencies evaluate' names schemas node members) := by
  refine (mirrors_together fun _ _ => mirrors_lift _).bind fun fromNames => ?_
  refine (mirrors_together fun (name, schema) mem => ?_).bind fun _ => mirrors_pure _
  dsimp only
  split
  · exact mirrors_pure []
  · exact h (name, schema) mem

theorem mirrors_onItems {run : List Json → Joint ι (List Violation)} {run' : List Json → Verdict}
    (each : ∀ items, Mirrors set (run items) (run' items)) :
    Mirrors set (onItems check node run) (check.onItems node run') := by
  unfold onItems Check.onItems
  cases node.value with
  | array items => exact each items
  | _ => exact mirrors_lift _

theorem mirrors_onMembers {run : List (String × Json) → Joint ι (List Violation)}
    {run' : List (String × Json) → Verdict}
    (each : ∀ members, Mirrors set (run members) (run' members)) :
    Mirrors set (onMembers check node run) (check.onMembers node run') := by
  unfold onMembers Check.onMembers
  cases node.value with
  | object members => exact each members
  | _ => exact mirrors_lift _

/-- The evaluations of the places that a rule goes on to mirror each other. -/
structure MirrorsOn (set : ReferenceSet ι) (rule : Rule) (node : InstanceNode)
    (evaluate refer : Evaluator ι) (evaluate' refer' : JsonSchema.Evaluator) : Prop where
  here : ∀ use id, (use, id) ∈ rule.uses → use = .beside ∨ use = .judged →
    Mirrors set (evaluate id node) (evaluate' id node)
  target : ∀ id, Mirrors set (refer id node) (refer' id node)
  inside : ∀ id, MirrorsInside set evaluate evaluate' node id

variable {refer : Evaluator ι} {refer' : JsonSchema.Evaluator}

/-- A check leaves the set as it was, if the evaluations that it goes on to do. -/
theorem mirrors_run (h : MirrorsOn set check.rule node evaluate refer evaluate' refer') :
    Mirrors set (run check evaluate node refer) (check.run evaluate' refer' node) := by
  unfold run Check.run
  cases rule : check.rule with
  | allOf schemas =>
    rw [rule] at h
    exact mirrors_all fun id mem => h.here .beside id (List.mem_map_of_mem mem) (.inl rfl)
  | anyOf schemas =>
    rw [rule] at h
    exact mirrors_any fun id mem => h.here .beside id (List.mem_map_of_mem mem) (.inl rfl)
  | oneOf schemas =>
    rw [rule] at h
    exact mirrors_one fun id mem => h.here .judged id (List.mem_map_of_mem mem) (.inr rfl)
  | not schema =>
    rw [rule] at h
    exact mirrors_not (h.here .judged schema List.mem_cons_self (.inr rfl))
  | reference target => exact h.target target
  | items every each additional forbid place =>
    refine mirrors_onItems fun items => ?_
    cases each with
    | some schemas =>
      exact mirrors_each forbid place items (fun id _ => h.inside id) fun id _ => h.inside id
    | none =>
      cases every with
      | some schema => exact mirrors_numbered (h.inside schema) items.zipIdx
      | none => exact mirrors_pure []
  | contains schema => exact mirrors_onItems (mirrors_contains (h.inside schema))
  | properties schemas required =>
    exact mirrors_onMembers fun members =>
      mirrors_properties required members fun entry _ => h.inside entry.2
  | patternProperties schemas =>
    exact mirrors_onMembers fun members =>
      mirrors_patterns members fun entry _ => h.inside entry.2
  | additionalProperties schema forbid declared patterns =>
    exact mirrors_onMembers (mirrors_additional (h.inside schema) forbid declared patterns)
  | propertyNames schema => exact mirrors_onMembers (mirrors_names (h.inside schema))
  | dependencies names schemas =>
    rw [rule] at h
    exact mirrors_onMembers fun members => mirrors_dependencies names members fun entry mem =>
      h.here .beside entry.2 (Check.mem_uses_map mem) (.inl rfl)
  | _ => exact mirrors_lift _

theorem mirrors_evaluateEach {evaluate : Rule → Evaluator ι}
    {evaluate' : Rule → JsonSchema.Evaluator} (validator : Validator)
    (h : ∀ rule, MirrorsOn set rule node (evaluate rule) refer (evaluate' rule) refer') :
    Mirrors set (evaluateEach node evaluate refer validator)
      (validator.evaluateEach evaluate' refer' node) := by
  refine (mirrors_together fun check _ => ?_).bind fun _ => mirrors_pure _
  refine (mirrors_lift (check.applies node)).bind fun applies => ?_
  split
  · exact mirrors_run (h check.rule)
  · exact mirrors_pure []

theorem mirrors_evaluateWith {evaluate : Rule → Evaluator ι} (validator : Validator)
    (h : ∀ rule, MirrorsOn set rule node (evaluate rule) refer evaluate' refer') :
    Mirrors set (evaluateEach node evaluate refer validator)
      (validator.evaluateWith evaluate' refer' node) :=
  mirrors_evaluateEach validator h

end Checks

/-! ## Runs -/

theorem MirrorsOn.of_pick {set : ReferenceSet ι} {node : InstanceNode}
    {values names refer : Evaluator ι} {values' names' refer' : JsonSchema.Evaluator} (rule : Rule)
    (here : ∀ id, Mirrors set (values id node) (values' id node))
    (target : ∀ id, Mirrors set (refer id node) (refer' id node))
    (inside : ∀ id, MirrorsInside set values values' node id)
    (named : ∀ id, MirrorsInside set names names' node id) :
    MirrorsOn set rule node (rule.pick values names) refer (rule.pick values' names') refer' := by
  cases rule with
  | propertyNames schema =>
    refine ⟨fun use id mem here => ?_, target, named⟩
    cases List.mem_singleton.1 mem
    rcases here with same | same <;> cases same
  | _ => exact ⟨fun _ id _ _ => here id, target, inside⟩

section Runs

variable [DecidableEq ι] {name object : Pointer → ι} {set : ReferenceSet ι}

/-- A reference leaves the set as it was, if evaluating its target from the larger set does. -/
theorem mirrors_refer {evaluate : Evaluator ι} {target : ValidatorId} {node : InstanceNode}
    {result : Verdict}
    (h : Mirrors (insert (target, object node.path, node.path) set) (evaluate target node) result) :
    Mirrors set (refer evaluate node object target)
      (if (target, object node.path, node.path) ∈ set then .ok [] else result) := by
  have got : (get : Joint ι (ReferenceSet ι)).run.run set = (.ok set, set) := rfl
  refine (run_bind_ok got).trans ?_
  by_cases mem : (target, object node.path, node.path) ∈ set
  · rw [if_pos mem, if_pos mem]
    rfl
  · rw [if_neg mem, if_neg mem]
    exact mirrors_during mem h

/-- An evaluation leaves any set of references as it found it, also if it ends with a fault, and
does what it does where the set is passed down. -/
theorem mirrors_evaluateFrom (table : Array Validator) (depth : Nat) (id : ValidatorId)
    (node : InstanceNode) :
    Mirrors set (evaluateWithin name table depth object id node)
      (evaluateFrom name table depth object set id node) := by
  induction depth generalizing object set id node with
  | zero => exact mirrors_lift (.error .exhausted)
  | succ depth ih =>
    unfold evaluateWithin evaluateFrom
    cases table[id.index]? with
    | none => exact mirrors_lift (.error .exhausted)
    | some validator =>
      refine mirrors_evaluateEach validator fun rule => .of_pick rule ?_ ?_ ?_ ?_
      · exact fun id => ih id node
      · exact fun target => mirrors_refer (ih target node)
      · exact fun id segment inner => ih id (node.child segment inner)
      · exact fun id segment inner => ih id (node.child segment inner)

theorem mem_insert_reference {id target : ValidatorId} {path inner : Pointer} :
    (id, object inner, inner) ∈ insert (target, object path, path) set ↔
      (id, inner) = (target, path) ∨ (id, object inner, inner) ∈ set := by
  rw [Finset.mem_insert, Prod.mk.injEq, Prod.mk.injEq, Prod.mk.injEq]
  refine or_congr_left (and_congr_right fun _ => ⟨And.right, ?_⟩)
  rintro rfl
  exact ⟨rfl, rfl⟩

/-- At a place and below it, a set holds the references that are passed down. -/
structure Tracks (name object : Pointer → ι) (set : ReferenceSet ι) (active : ActiveReferences)
    (path : Pointer) : Prop where
  values : ∀ inner, path <+: inner → ∀ id, (id, object inner, inner) ∈ set ↔ (id, inner) ∈ active
  names : ∀ segment inner, path ++ [segment] <+: inner →
    ∀ id, (id, name inner, inner) ∈ set ↔ (id, inner) ∈ active

namespace Tracks

variable {active : ActiveReferences} {path : Pointer}

omit [DecidableEq ι] in
theorem nothing (path : Pointer) : Tracks name object ∅ [] path :=
  ⟨by simp, by simp⟩

omit [DecidableEq ι] in
theorem child (tracks : Tracks name object set active path) (segment : String) :
    Tracks name object set active (path ++ [segment]) :=
  ⟨fun inner under => tracks.values inner ((List.prefix_append _ _).trans under),
    fun _ inner under => tracks.names segment inner ((List.prefix_append _ _).trans under)⟩

omit [DecidableEq ι] in
theorem named (tracks : Tracks name object set active path) (segment : String) :
    Tracks name name set active (path ++ [segment]) :=
  ⟨tracks.names segment,
    fun _ inner under => tracks.names segment inner ((List.prefix_append _ _).trans under)⟩

/-- A new reference is tracked at its place, and no name below is mistaken for it. -/
theorem enter (tracks : Tracks name object set active path) (target : ValidatorId) :
    Tracks name object (insert (target, object path, path) set) ((target, path) :: active)
      path := by
  constructor
  · intro inner under id
    rw [mem_insert_reference, List.mem_cons, tracks.values inner under]
  · intro segment inner under id
    have apart : inner ≠ path := by
      rintro rfl
      exact absurd under.length_le (by simp)
    rw [Finset.mem_insert, List.mem_cons, tracks.names segment inner under, Prod.mk.injEq,
      Prod.mk.injEq, Prod.mk.injEq]
    exact or_congr_left (and_congr_right fun _ =>
      ⟨fun same => absurd same.2 apart, fun same => absurd same apart⟩)

end Tracks

/-- An evaluation does what it does where the references of the set are passed down, and leaves the
set as it was. -/
theorem mirrors_evaluateWithin (table : Array Validator) (depth : Nat) {active : ActiveReferences}
    (id : ValidatorId) (node : InstanceNode)
    (tracks : Tracks name object set active node.path) :
    Mirrors set (evaluateWithin name table depth object id node)
      (JsonSchema.evaluateWithin table depth active id node) := by
  induction depth generalizing object set active id node with
  | zero => exact mirrors_lift (.error .exhausted)
  | succ depth ih =>
    unfold evaluateWithin JsonSchema.evaluateWithin
    cases table[id.index]? with
    | none => exact mirrors_lift (.error .exhausted)
    | some validator =>
      refine mirrors_evaluateWith validator fun rule => ?_
      rw [← rule.pick_self (JsonSchema.evaluateWithin table depth active)]
      refine .of_pick rule ?_ ?_ ?_ ?_
      · exact fun id => ih id node tracks
      · intro target
        have known : active.contains (target, node.path) = true ↔
            (target, object node.path, node.path) ∈ set := by
          rw [List.contains_iff_mem, tracks.values node.path (List.prefix_refl _)]
        have inner := mirrors_refer (ih target node (tracks.enter target))
        simpa only [known] using inner
      · exact fun id segment inner => ih id (node.child segment inner) (tracks.child segment)
      · exact fun id segment inner => ih id (node.child segment inner) (tracks.named segment)

end Runs

end Sharing

end JsonSchema
