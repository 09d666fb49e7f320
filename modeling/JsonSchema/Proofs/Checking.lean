import JsonSchema.Proofs.Compiled
import JsonSchema.Proofs.Finishing

/-!
# Where checks go on to

The places of the table that a rule goes on to, and in which way it does, are `Rule.uses`. Running a
check finishes if the evaluations of these places finish, and two evaluations that coincide on them
make it run alike (`Check.coincide_run`). Only places inside an array or an object are evaluated at
another value, and that value is less deep.

Nothing is assumed about the value or about what the rule holds: where they do not fit, the check
ends with a fault of its own.
-/

namespace JsonSchema

/-! ## Computations that coincide -/

/-- Two computations are the same and do not run out of a recursion bound. -/
structure Coincide {α : Type} (x y : Except Fault α) : Prop where
  same : y = x
  finishes : Finishes x

section Rules

variable {α β : Type} {x y : Except Fault α}

theorem Finishes.coincide (h : Finishes x) : Coincide x x :=
  ⟨rfl, h⟩

theorem coincide_ok (a : α) : Coincide (.ok a) (.ok a) :=
  (finishes_ok a).coincide

theorem Coincide.bind {f g : α → Except Fault β} (first : Coincide x y)
    (rest : ∀ a, x = .ok a → Coincide (f a) (g a)) : Coincide (x >>= f) (y >>= g) := by
  refine ⟨?_, finishes_bind first.finishes fun a ok => (rest a ok).finishes⟩
  rw [first.same]
  cases x with
  | ok a => exact (rest a rfl).same
  | error fault => rfl

theorem coincide_mapM {f g : α → Except Fault β} {xs : List α}
    (each : ∀ a ∈ xs, Coincide (f a) (g a)) : Coincide (xs.mapM f) (xs.mapM g) := by
  induction xs with
  | nil => exact coincide_ok []
  | cons a rest ih =>
    rw [List.mapM_cons, List.mapM_cons]
    refine (each a List.mem_cons_self).bind (fun b _ => ?_)
    refine (ih fun a' mem => each a' (List.mem_cons_of_mem _ mem)).bind (fun bs _ => ?_)
    exact coincide_ok (b :: bs)

end Rules

/-- The places that a rule goes on to, with the way in which it does. -/
def Rule.uses : Rule → List (Use × ValidatorId)
  | .allOf schemas => schemas.map (.beside, ·)
  | .anyOf schemas => schemas.map (.beside, ·)
  | .oneOf schemas => schemas.map (.judged, ·)
  | .not schema => [schema].map (.judged, ·)
  | .reference target => [target].map (.target, ·)
  | .items every each additional _ _ =>
    (every.toList ++ each.getD [] ++ additional.toList).map (.inside, ·)
  | .contains schema => [schema].map (.inside, ·)
  | .properties schemas _ => (schemas.map (·.2)).map (.inside, ·)
  | .patternProperties schemas => (schemas.map (·.2)).map (.inside, ·)
  | .additionalProperties schema _ _ _ => [schema].map (.inside, ·)
  | .propertyNames schema => [schema].map (.inside, ·)
  | .dependencies _ schemas => (schemas.map (·.2)).map (.beside, ·)
  | _ => []

namespace Check

variable {check : Check} {node : InstanceNode} {evaluate evaluate' refer refer' : Evaluator}

/-! ## Checks without schemas -/

theorem finishes_codeOf (key : String) : Finishes (Report.codeOf key) := by
  unfold Report.codeOf
  split <;> exact nofun

theorem finishes_fails (check : Check) (node : InstanceNode) (complaint : Complaint)
    (causes : List Violation) : Finishes (check.fails node complaint causes) :=
  finishes_bind (finishes_codeOf _) (fun _ _ => finishes_ok _)

theorem finishes_demand (check : Check) (node : InstanceNode) (holds : Bool)
    (complaint : Complaint) : Finishes (check.demand node holds complaint) := by
  unfold demand
  split
  · exact finishes_ok _
  · exact finishes_fails _ _ _ _

theorem finishes_misfit (check : Check) : Finishes check.misfit :=
  nofun

theorem finishes_nodeType (node : InstanceNode) : Finishes node.type := by
  unfold InstanceNode.type
  split <;> exact nofun

theorem finishes_isOfType (node : InstanceNode) (types : List InstanceType) :
    Finishes (isOfType node types) :=
  finishes_bind (finishes_nodeType node) (fun _ _ => finishes_ok _)

theorem finishes_multiple (check : Check) (divisor : Json) (fraction : Rat)
    (node : InstanceNode) : Finishes (check.runMultiple divisor fraction node) := by
  unfold runMultiple
  split
  · split
    · exact finishes_fails _ _ _ _
    · exact finishes_bind (finishes_mapError nofun _) (fun _ _ => finishes_demand _ _ _ _)
  · exact finishes_misfit check

theorem finishes_compare (operator : String) (test : Number → Number → Bool) (value : Number)
    (bound : Json) : Finishes (Limit.compare operator test value bound) := by
  unfold Limit.compare
  split
  · split <;> exact nofun
  · exact nofun

theorem finishes_violation (strict loose : String) (beyond : Number → Number → Bool)
    (limit : Limit) (value : Number) :
    Finishes (limit.violation strict loose beyond value) := by
  have loosely : ∀ bound, Finishes (do
      let outside ← Limit.compare loose (fun x y => beyond x y || x.equals y) value bound
      if outside then return some (bound, true)
      return none : Except Fault (Option (Json × Bool))) := by
    intro bound
    refine finishes_bind (finishes_compare _ _ _ _) (fun outside _ => ?_)
    split <;> exact finishes_ok _
  unfold Limit.violation
  dsimp only
  split
  · refine finishes_bind (finishes_compare _ _ _ _) (fun outside _ => ?_)
    split
    · exact finishes_ok _
    · split
      · exact loosely _
      · exact finishes_ok _
  · split
    · exact loosely _
    · exact finishes_ok _

theorem finishes_limit (check : Check) {violation : Number → Except Fault (Option (Json × Bool))}
    (finishes : ∀ n, Finishes (violation n)) (complaint : Json → Json → Bool → Complaint)
    (node : InstanceNode) : Finishes (check.runLimit violation complaint node) := by
  unfold runLimit
  split
  · next n _ =>
    refine finishes_bind (finishes n) (fun found _ => ?_)
    split
    · exact finishes_ok _
    · exact finishes_fails _ _ _ _
  · exact finishes_misfit check

theorem finishes_least (check : Check) (least : Int) (complaint : Int → Nat → Complaint)
    (node : InstanceNode) : Finishes (check.runLeast least complaint node) := by
  unfold runLeast
  split
  · exact finishes_demand _ _ _ _
  · exact finishes_misfit check

theorem finishes_most (check : Check) (most : Int) (complaint : Int → Nat → Complaint)
    (node : InstanceNode) : Finishes (check.runMost most complaint node) := by
  unfold runMost
  split
  · exact finishes_demand _ _ _ _
  · exact finishes_misfit check

theorem finishes_freeze (value : Json) : Finishes value.freeze := by
  unfold Json.freeze
  split <;> exact nofun

theorem finishes_firstRepetition (position : Nat) (seen : List (Frozen × Nat))
    (items : List Json) : Finishes (firstRepetition position seen items) := by
  induction items generalizing position seen with
  | nil => exact finishes_ok _
  | cons item rest ih =>
    refine finishes_bind (finishes_freeze item) (fun frozen _ => ?_)
    split
    · exact finishes_ok _
    · exact ih _ _

theorem finishes_unique (check : Check) (node : InstanceNode) (items : List Json) :
    Finishes (check.runUnique node items) := by
  refine finishes_bind (finishes_firstRepetition _ _ _) (fun found _ => ?_)
  split
  · exact finishes_ok _
  · exact finishes_fails _ _ _ _

theorem finishes_required (check : Check) (names : List String) (node : InstanceNode)
    (members : List (String × Json)) : Finishes (check.runRequired names node members) := by
  unfold runRequired
  split
  · exact finishes_ok _
  · exact finishes_fails _ _ _ _
  · exact finishes_fails _ _ _ _

/-! ## Several verdicts -/

theorem coincide_together {α : Type} {f g : α → Verdict} {values : List α}
    (each : ∀ a ∈ values, Coincide (f a) (g a)) :
    Coincide (together f values) (together g values) := by
  unfold together verdicts
  rw [map_eq_pure_bind, map_eq_pure_bind]
  exact (coincide_mapM each).bind (fun _ _ => coincide_ok _)

section Same

variable {schemas : List ValidatorId}
  (each : ∀ id ∈ schemas, Coincide (evaluate id node) (evaluate' id node))
include each

theorem coincide_all :
    Coincide (check.runAll evaluate schemas node) (check.runAll evaluate' schemas node) := by
  refine (coincide_mapM each).bind (fun found _ => ?_)
  dsimp only
  split
  · exact coincide_ok _
  · exact (finishes_fails _ _ _ _).coincide

theorem coincide_upToMatch :
    Coincide (upToMatch evaluate node schemas) (upToMatch evaluate' node schemas) := by
  induction schemas with
  | nil => exact coincide_ok _
  | cons first rest ih =>
    refine (each first List.mem_cons_self).bind (fun found _ => ?_)
    dsimp only
    split
    · exact coincide_ok _
    · exact (ih fun id mem => each id (List.mem_cons_of_mem _ mem)).bind
        (fun _ _ => coincide_ok _)

theorem coincide_any :
    Coincide (check.runAny evaluate schemas node) (check.runAny evaluate' schemas node) := by
  refine (coincide_upToMatch each).bind (fun found _ => ?_)
  dsimp only
  split
  · exact coincide_ok _
  · exact (finishes_fails _ _ _ _).coincide

theorem coincide_one :
    Coincide (check.runOne evaluate schemas node) (check.runOne evaluate' schemas node) := by
  refine (coincide_mapM each).bind (fun found _ => ?_)
  dsimp only
  split
  · exact coincide_ok _
  · exact (finishes_fails _ _ _ _).coincide

end Same

theorem coincide_not {schema : ValidatorId}
    (h : Coincide (evaluate schema node) (evaluate' schema node)) :
    Coincide (check.runNot evaluate schema node) (check.runNot evaluate' schema node) :=
  h.bind (fun _ _ => (finishes_demand _ _ _ _).coincide)

/-! ## Items -/

/-- Two evaluations of a place coincide at the values inside a value. -/
def CoincideInside (evaluate evaluate' : Evaluator) (node : InstanceNode) (id : ValidatorId) :
    Prop :=
  ∀ segment inner, inner.depth < node.value.depth →
    Coincide (evaluate id (node.child segment inner)) (evaluate' id (node.child segment inner))

theorem CoincideInside.item {id : ValidatorId} (h : CoincideInside evaluate evaluate' node id)
    {items : List Json} (array : node.value = .array items) {item : Json} (mem : item ∈ items)
    (position : Nat) :
    Coincide (evaluate id (node.item position item)) (evaluate' id (node.item position item)) := by
  refine h (toString position) item ?_
  rw [array]
  exact Json.depth_item mem

theorem CoincideInside.member {id : ValidatorId} (h : CoincideInside evaluate evaluate' node id)
    {members : List (String × Json)} (object : node.value = .object members) {name : String}
    {value : Json} (mem : (name, value) ∈ members) :
    Coincide (evaluate id (node.child name value)) (evaluate' id (node.child name value)) := by
  refine h name value ?_
  rw [object]
  exact Json.depth_member mem

theorem CoincideInside.name {id : ValidatorId} (h : CoincideInside evaluate evaluate' node id)
    {members : List (String × Json)} (object : node.value = .object members) {name : String}
    (mem : name ∈ Members.keys members) :
    Coincide (evaluate id (node.child name (.string name)))
      (evaluate' id (node.child name (.string name))) := by
  obtain ⟨⟨name', value⟩, mem', rfl⟩ := List.mem_map.1 mem
  refine h name' (.string name') ?_
  rw [object]
  exact Json.depth_name mem'

theorem coincide_onItems {run run' : List Json → Verdict}
    (h : ∀ items, node.value = .array items → Coincide (run items) (run' items)) :
    Coincide (check.onItems node run) (check.onItems node run') := by
  unfold onItems
  split
  · next items array => exact h items array
  · exact (finishes_misfit check).coincide

theorem coincide_onMembers {run run' : List (String × Json) → Verdict}
    (h : ∀ members, node.value = .object members → Coincide (run members) (run' members)) :
    Coincide (check.onMembers node run) (check.onMembers node run') := by
  unfold onMembers
  split
  · next members object => exact h members object
  · exact (finishes_misfit check).coincide

theorem finishes_onText {run : String → Verdict} (h : ∀ text, Finishes (run text)) :
    Finishes (check.onText node run) := by
  unfold onText
  split
  · next text _ => exact h text
  · exact finishes_misfit check

section Items

variable {items : List Json} (array : node.value = .array items)
include array

theorem coincide_every {schema : ValidatorId}
    (h : CoincideInside evaluate evaluate' node schema) :
    Coincide (runEvery evaluate schema node items) (runEvery evaluate' schema node items) := by
  refine coincide_together ?_
  rintro ⟨item, position⟩ mem
  exact h.item array (mem_of_mem_zipIdx mem) position

theorem coincide_each {schemas : List ValidatorId} {additional : Option ValidatorId}
    (forbid : Bool) (place : String)
    (listed : ∀ id ∈ schemas, CoincideInside evaluate evaluate' node id)
    (more : ∀ id ∈ additional, CoincideInside evaluate evaluate' node id) :
    Coincide (runEach evaluate schemas additional forbid place node items)
      (runEach evaluate' schemas additional forbid place node items) := by
  unfold runEach
  refine Coincide.bind (coincide_together ?_) (fun found _ => ?_)
  · rintro ⟨id, item, position⟩ mem
    obtain ⟨known, there⟩ := List.of_mem_zip mem
    exact (listed id known).item array (mem_of_mem_zipIdx there) position
  dsimp only
  split
  · exact coincide_ok _
  split
  · exact (finishes_bind (finishes_codeOf _) (fun _ _ => finishes_ok _)).coincide
  cases additional with
  | none => exact coincide_ok _
  | some id =>
    refine Coincide.bind (coincide_together ?_) (fun _ _ => coincide_ok _)
    rintro ⟨item, position⟩ mem
    exact (more id rfl).item array (mem_of_mem_zipIdx (List.mem_of_mem_drop mem)) position

theorem coincide_contains {schema : ValidatorId}
    (h : CoincideInside evaluate evaluate' node schema) :
    Coincide (check.runContains evaluate schema node items)
      (check.runContains evaluate' schema node items) := by
  have search : ∀ numbered : List (Json × Nat), (∀ entry ∈ numbered, entry.1 ∈ items) →
      Coincide (someItem evaluate schema node numbered)
        (someItem evaluate' schema node numbered) := by
    intro numbered inside
    induction numbered with
    | nil => exact coincide_ok _
    | cons first rest ih =>
      refine (h.item array (inside first List.mem_cons_self) first.2).bind (fun found _ => ?_)
      split
      · exact coincide_ok _
      · exact ih fun entry mem => inside entry (List.mem_cons_of_mem _ mem)
  have inside : ∀ entry ∈ items.zipIdx, entry.1 ∈ items :=
    fun (_, _) mem => mem_of_mem_zipIdx mem
  refine (search items.zipIdx inside).bind (fun _ _ => ?_)
  exact (finishes_demand _ _ _ _).coincide

end Items

/-! ## Members -/

section Members

variable {members : List (String × Json)} (object : node.value = .object members)
include object

theorem coincide_properties {schemas : List (String × ValidatorId)}
    (required : List (String × String))
    (h : ∀ entry ∈ schemas, CoincideInside evaluate evaluate' node entry.2) :
    Coincide (runProperties evaluate schemas required node members)
      (runProperties evaluate' schemas required node members) := by
  refine coincide_together ?_
  rintro ⟨name, id⟩ mem
  dsimp only
  split
  · next found => exact (h (name, id) mem).member object (Members.mem_of_lookup found)
  · exact (finishes_bind (finishes_codeOf _) (fun _ _ => finishes_ok _)).coincide
  · exact coincide_ok _

theorem coincide_patterns {schemas : List ((String → Bool) × ValidatorId)}
    (h : ∀ entry ∈ schemas, CoincideInside evaluate evaluate' node entry.2) :
    Coincide (runPatterns evaluate schemas node members)
      (runPatterns evaluate' schemas node members) := by
  refine coincide_together ?_
  rintro ⟨name, value⟩ member
  refine coincide_together ?_
  rintro ⟨search, id⟩ mem
  dsimp only
  split
  · exact (h (search, id) mem).member object member
  · exact coincide_ok _

theorem coincide_additional {schema : ValidatorId} (forbid : Bool) (declared : List String)
    (patterns : List (String → Bool)) (h : CoincideInside evaluate evaluate' node schema) :
    Coincide (check.runAdditional evaluate schema forbid declared patterns node members)
      (check.runAdditional evaluate' schema forbid declared patterns node members) := by
  refine coincide_together ?_
  rintro ⟨name, value⟩ mem
  dsimp only
  split
  · exact (finishes_fails _ _ _ _).coincide
  · exact h.member object (List.mem_of_mem_filter mem)

theorem coincide_names {schema : ValidatorId}
    (h : CoincideInside evaluate evaluate' node schema) :
    Coincide (check.runNames evaluate schema node members)
      (check.runNames evaluate' schema node members) := by
  refine Coincide.bind (coincide_together fun name mem => h.name object mem) (fun found _ => ?_)
  split
  · exact coincide_ok _
  · exact (finishes_fails _ _ _ _).coincide

end Members

theorem coincide_dependencies (names : List (String × List String))
    {schemas : List (String × ValidatorId)} {members : List (String × Json)}
    (h : ∀ entry ∈ schemas, Coincide (evaluate entry.2 node) (evaluate' entry.2 node)) :
    Coincide (check.runDependencies evaluate names schemas node members)
      (check.runDependencies evaluate' names schemas node members) := by
  unfold runDependencies
  refine Coincide.bind (coincide_together ?_) (fun fromNames _ => ?_)
  · rintro ⟨name, needed⟩ -
    dsimp only
    split
    · exact coincide_ok _
    · exact (finishes_demand _ _ _ _).coincide
  refine Coincide.bind (coincide_together ?_) (fun _ _ => coincide_ok _)
  rintro ⟨name, id⟩ mem
  dsimp only
  split
  · exact coincide_ok _
  · exact h (name, id) mem

/-! ## Rules -/

/-- Two evaluations coincide on the places that a rule goes on to from a value. -/
structure CoincideOn (rule : Rule) (node : InstanceNode)
    (evaluate refer evaluate' refer' : Evaluator) : Prop where
  here : ∀ use id, (use, id) ∈ rule.uses → use = .beside ∨ use = .judged →
    Coincide (evaluate id node) (evaluate' id node)
  target : ∀ id, (.target, id) ∈ rule.uses → Coincide (refer id node) (refer' id node)
  inside : ∀ id, (.inside, id) ∈ rule.uses → CoincideInside evaluate evaluate' node id

theorem mem_uses_map {α : Type} {use : Use} {schemas : List (α × ValidatorId)}
    {entry : α × ValidatorId} (mem : entry ∈ schemas) :
    (use, entry.2) ∈ (schemas.map (·.2)).map (use, ·) :=
  List.mem_map_of_mem (List.mem_map_of_mem mem)

/-- A check finishes if the tests of formats and the places that its rule goes on to do, and runs
alike where these coincide. -/
theorem coincide_run
    (tests : ∀ name test, check.rule = .format name test → ∀ text, Finishes (test text))
    (h : CoincideOn check.rule node evaluate refer evaluate' refer') :
    Coincide (check.run evaluate refer node) (check.run evaluate' refer' node) := by
  unfold run
  cases rule : check.rule with
  | type types | disallow types =>
    refine Finishes.coincide (finishes_bind (finishes_isOfType _ _) (fun _ _ => ?_))
    exact finishes_demand _ _ _ _
  | enum values => exact (finishes_demand _ _ _ _).coincide
  | const value => exact (finishes_demand _ _ _ _).coincide
  | allOf schemas =>
    rw [rule] at h
    exact coincide_all fun id mem => h.here .beside id (List.mem_map_of_mem mem) (.inl rfl)
  | anyOf schemas =>
    rw [rule] at h
    exact coincide_any fun id mem => h.here .beside id (List.mem_map_of_mem mem) (.inl rfl)
  | oneOf schemas =>
    rw [rule] at h
    exact coincide_one fun id mem => h.here .judged id (List.mem_map_of_mem mem) (.inr rfl)
  | not schema =>
    rw [rule] at h
    exact coincide_not (h.here .judged schema List.mem_cons_self (.inr rfl))
  | reference target =>
    rw [rule] at h
    exact h.target target List.mem_cons_self
  | multipleOf divisor fraction => exact (finishes_multiple _ _ _ _).coincide
  | minimum limit | maximum limit =>
    exact (finishes_limit check (finishes_violation _ _ _ limit) _ _).coincide
  | minLength least | minItems least | minProperties least =>
    exact (finishes_least _ _ _ _).coincide
  | maxLength most | maxItems most | maxProperties most =>
    exact (finishes_most _ _ _ _).coincide
  | pattern source search =>
    exact (finishes_onText fun text => finishes_demand _ _ _ _).coincide
  | format name test =>
    refine Finishes.coincide (finishes_onText fun text => ?_)
    exact finishes_bind (tests name test rule text) (fun _ _ => finishes_demand _ _ _ _)
  | items every each additional forbid place =>
    rw [rule] at h
    have inside : ∀ id ∈ every.toList ++ each.getD [] ++ additional.toList,
        CoincideInside evaluate evaluate' node id :=
      fun id mem => h.inside id (List.mem_map_of_mem mem)
    refine coincide_onItems fun items array => ?_
    cases each with
    | some schemas =>
      refine coincide_each array forbid place (fun id mem => inside id ?_)
        (fun id more => inside id ?_)
      · exact List.mem_append_left _ (List.mem_append_right _ mem)
      · exact List.mem_append_right _ (Option.mem_toList.2 more)
    | none =>
      cases every with
      | some schema => exact coincide_every array (inside schema (by simp))
      | none => exact coincide_ok _
  | uniqueItems =>
    exact coincide_onItems fun items _ => (finishes_unique _ _ _).coincide
  | contains schema =>
    rw [rule] at h
    exact coincide_onItems fun items array =>
      coincide_contains array (h.inside schema List.mem_cons_self)
  | properties schemas required =>
    rw [rule] at h
    exact coincide_onMembers fun members object =>
      coincide_properties object required fun entry mem => h.inside entry.2 (mem_uses_map mem)
  | patternProperties schemas =>
    rw [rule] at h
    exact coincide_onMembers fun members object =>
      coincide_patterns object fun entry mem => h.inside entry.2 (mem_uses_map mem)
  | additionalProperties schema forbid declared patterns =>
    rw [rule] at h
    exact coincide_onMembers fun members object =>
      coincide_additional object forbid declared patterns (h.inside schema List.mem_cons_self)
  | required names =>
    exact coincide_onMembers fun members _ => (finishes_required _ _ _ _).coincide
  | propertyNames schema =>
    rw [rule] at h
    exact coincide_onMembers fun members object =>
      coincide_names object (h.inside schema List.mem_cons_self)
  | dependencies names schemas =>
    rw [rule] at h
    exact coincide_onMembers fun members _ =>
      coincide_dependencies names fun entry mem =>
        h.here .beside entry.2 (mem_uses_map mem) (.inl rfl)
  | nothing => exact coincide_ok _
  | unfit kind => exact ⟨rfl, nofun⟩

theorem finishes_applies (check : Check) (node : InstanceNode) :
    Finishes (check.applies node) := by
  unfold applies
  split
  · exact finishes_ok _
  · exact finishes_bind (finishes_nodeType node) (fun _ _ => finishes_ok _)

end Check

theorem Validator.coincide_evaluateWith {validator : Validator} {node : InstanceNode}
    {evaluate refer evaluate' refer' : Evaluator}
    (each : ∀ check ∈ validator.checkList,
      Coincide (check.run evaluate refer node) (check.run evaluate' refer' node)) :
    Coincide (validator.evaluateWith evaluate refer node)
      (validator.evaluateWith evaluate' refer' node) := by
  refine Coincide.bind (Check.coincide_together fun check mem => ?_) (fun _ _ => coincide_ok _)
  refine (Check.finishes_applies check node).coincide.bind (fun applies _ => ?_)
  split
  · exact each check mem
  · exact coincide_ok _

end JsonSchema
