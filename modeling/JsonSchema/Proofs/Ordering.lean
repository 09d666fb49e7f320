import JsonSchema.Proofs.Concord
import JsonSchema.Proofs.Halting
import JsonSchema.Proofs.Placing
import JsonSchema.Proofs.Sharing

/-!
# The order of evaluation

The verdict of a compiled schema on a value does not depend on the order of the checks, of the
schemas of a combinator, of the entries of a map or of the members of an object, whatever references
are being evaluated when it starts (`CompiledSchema.reordered_agrees`). The set of these references
is the same afterwards.

Where the number of a value does not compare with a bound, the order decides whether this is
noticed, since a combinator stops at the first schema that settles the matter: the verdict may be a
fault in one order and not in another. So the numbers are required to compare. Then all evaluations
reach a verdict (`Layout.agree_evaluateFrom`), by the same count of steps in the value, new
references and parts of schemas that ends them in one order (`Layout.effort`). That each check works
with the values it applies to is known from compiling (`Represents.exists_run`).
-/

namespace JsonSchema

/-! ## Codes of compiled checks -/

theorem Check.HasCode.isCoded {check : Check} (code : check.HasCode) : check.IsCoded := by
  unfold IsCoded
  split
  iterate 5 exact trivial
  exact code

namespace Compile

variable (compiler : Compiler) (graph : SchemaGraph) (recur : SchemaCompiler) (owner : Schema)
  (value : KeywordValue) (place : String)

/-- The keyword for properties has a rule for properties, if it has any. -/
theorem ruleOf_properties : Yields (ruleOf compiler graph recur owner .properties value place)
    fun rule => ∀ r, rule = some r → ∃ schemas flags, r = .properties schemas flags := by
  unfold ruleOf
  cases value with
  | schemaMap schemas =>
    refine yields_bind fun ids => yields_pure ?_
    rintro _ ⟨⟩
    exact ⟨_, _, rfl⟩
  | _ => exact yields_throw

theorem ruleOf_patterns : Yields (ruleOf compiler graph recur owner .patternProperties value place)
    fun rule => ∀ r, rule = some r → ∃ schemas, r = .patternProperties schemas := by
  unfold ruleOf
  cases value with
  | schemaMap schemas =>
    refine yields_bind fun ids => yields_bind fun searches => yields_pure ?_
    rintro _ ⟨⟩
    exact ⟨_, rfl⟩
  | _ => exact yields_throw

/-- The check of a keyword is coded. -/
theorem isCoded_checkOf (location : String) (keyword : Keyword) :
    Yields (checkOf compiler graph recur owner location keyword value)
      fun check => ∀ c, check = some c → c.IsCoded := by
  unfold checkOf
  split
  · exact yields_pure fun _ absent => by cases absent
  · next assertion known =>
    intro state check state' run
    obtain ⟨rule, state₁, ran, rest⟩ := run_bind_eq_ok run
    cases rest
    cases rule with
    | none => rintro _ ⟨⟩
    | some rule =>
      rintro _ ⟨⟩
      by_cases single : assertion = .properties
      · subst single
        obtain ⟨_, _, rfl⟩ := ruleOf_properties _ _ _ _ _ _ state _ _ ran rule rfl
        trivial
      by_cases several : assertion = .patternProperties
      · subst several
        obtain ⟨_, rfl⟩ := ruleOf_patterns _ _ _ _ _ _ state _ _ ran rule rfl
        trivial
      have key : keyword.key = assertion.keyword.key := (Assertion.ofKey?_keyword known).symm
      exact (hasCode key single several).isCoded

end Compile

section Compiled

variable {compiler : Compiler} {graph : SchemaGraph} {member : Schema → Prop} {root : Schema}

/-- The checks of a compiled schema are coded. -/
theorem CompiledSchema.isCoded {compiled : CompiledSchema} (apart : graph.TellsApart member)
    (owned : member root) (ok : CompiledSchema.ofSchema compiler graph root = .ok compiled)
    {check : Check} (listed : Listed compiled.table check) : check.IsCoded := by
  have reached : ∀ schema, root.Reaches graph schema → member schema := by
    intro schema reaches
    induction reaches with
    | refl => exact owned
    | tail _ step ih =>
      obtain ⟨use, used⟩ := step
      exact apart.closed _ ih use _ used
  have distinct : ∀ schema other id, root.Reaches graph schema → root.Reaches graph other →
      schema.id? = some id → other.id? = some id → schema = other :=
    fun schema other id reaches reaches' =>
      apart.distinct schema other id (reached _ reaches) (reached _ reaches')
  obtain ⟨changes, owner, location, checks, -, -, compiles, mem⟩ :=
    exists_compiles distinct ok listed
  cases compiles with
  | nothing =>
    cases List.mem_singleton.1 mem
    trivial
  | keywords _ each =>
    obtain ⟨_, given, rfl⟩ := List.mem_filterMap.1 mem
    obtain ⟨entry, _, gave⟩ := exists_of_forall₂ each.flip given
    obtain ⟨depth, before, after, -, -, run⟩ := gave.run
    exact Compile.isCoded_checkOf _ _ _ _ _ _ _ _ _ _ run check rfl

/-! ## Checks that run -/

/-- Finds nothing, but where a schema accepts nothing. -/
def Schema.lenient (stands : List Schema) : Evaluator := fun id node =>
  match stands[id.index]? with
  | some schema =>
    if schema.isAlwaysInvalid then .ok [.mk node.pointer "" none .schemaFalse .nothingAllowed []]
    else .ok []
  | none => .ok []

theorem Schema.settles_lenient {stands : List Schema} {schema : Schema} {id : ValidatorId}
    (found : stands[id.index]? = some schema) (node : InstanceNode) :
    Settles (lenient stands id node) (schema.isAlwaysInvalid = false) := by
  unfold lenient
  rw [found]
  dsimp only
  cases schema.isAlwaysInvalid with
  | true => exact ⟨_, rfl, by simp⟩
  | false => exact settles_nil rfl

/-- The checks at a place of a compiled table run without a fault on the values whose numbers
compare with the bounds, with some evaluators. -/
theorem Represents.exists_run {table : Array Validator} {stands : List Schema}
    (represents : Represents compiler graph member table stands) {id : ValidatorId}
    (bound : id.index < table.size) {node : InstanceNode} (proper : node.value.IsProper)
    (comparable : node.value.IsComparable member) :
    ∃ validator, table[id.index]? = some validator ∧
      ∃ evaluate refer found, validator.evaluateWith evaluate refer node = .ok found := by
  rw [represents.size_eq] at bound
  obtain ⟨location, checks, place, judges⟩ :=
    represents.judged id.index _ (List.getElem?_eq_getElem bound)
  have follows : Follows graph stands (fun _ schema _ => schema.isAlwaysInvalid = false)
      stands[id.index] (Schema.lenient stands) (Schema.lenient stands) node := by
    constructor
    · exact fun use schema place _ _ _ found => Schema.settles_lenient found node
    · exact fun schema place _ found => Schema.settles_lenient found node
    · exact fun schema place segment inner _ found _ _ => Schema.settles_lenient found _
    · intro n number
      rw [number] at comparable
      exact comparable n .here _ (represents.members _ (List.getElem_mem bound))
    · exact fun use schema v valid => Schema.not_invalid_of_valid valid
    · intro schema v invalid _
      rw [invalid]
      exact Bool.noConfusion
  obtain ⟨found, ok, -⟩ := judges.settles location _ _ _ node proper follows
  exact ⟨_, place, _, _, found, ok⟩

end Compiled

/-! ## Schemas in other orders -/

section Validators

variable {validator validator' : Validator} {node node' : InstanceNode}

/-- The checks of a schema that ran without a fault. -/
theorem Validator.exists_found {evaluate refer : Evaluator} {found : List Violation}
    (ok : validator.evaluateWith evaluate refer node = .ok found) {check : Check}
    (mem : check ∈ validator.checkList) (applies : check.applies node = .ok true) :
    ∃ found, check.run evaluate refer node = .ok found := by
  unfold evaluateWith at ok
  obtain ⟨all, together, -⟩ := except_bind_ok ok
  obtain ⟨founds, verdicts, -⟩ := Check.together_ok together
  obtain ⟨one, -, here⟩ := exists_of_forall₂ (Check.forall₂_of_verdicts verdicts) mem
  obtain ⟨applies', decided, ran⟩ := except_bind_ok here
  rw [applies] at decided
  cases decided
  exact ⟨one, ran⟩

/-- A reordered check applies to the same values. -/
theorem Check.Reordered.applies_eq {check check' : Check} (checks : check.Reordered check')
    (nodes : node.Reordered node') (proper : node.value.IsProper) :
    ∃ applies, check.applies node = .ok applies ∧ check'.applies node' = .ok applies := by
  obtain ⟨type, typed⟩ := proper.type
  have typed' := nodes.value.instanceType_eq.symm.trans typed
  unfold applies InstanceNode.type
  rw [checks.keyword, typed, typed']
  cases check.keyword with
  | none => exact ⟨true, rfl, rfl⟩
  | some keyword => exact ⟨keyword.appliesToType type, rfl, rfl⟩

/-- A reordered rule goes on to values, or to names, as the rule does. -/
theorem Rule.Reordered.pick_eq {α : Type} {rule rule' : Rule} (rules : rule.Reordered rule')
    (values names : α) : rule'.pick values names = rule.pick values names := by
  cases rules <;> rfl

/-- Evaluations agree on what a rule goes on to, if they do on values and on names. -/
theorem Check.AgreeOn.of_pick {values names refer values' names' refer' : Evaluator} {rule : Rule}
    (here : ∀ use id, (use, id) ∈ rule.uses → use = .beside ∨ use = .judged →
      Agree (values id node) (values' id node'))
    (target : ∀ id, (.target, id) ∈ rule.uses → Agree (refer id node) (refer' id node'))
    (inside : ∀ id, (.inside, id) ∈ rule.uses → AgreeInside values values' node node' id)
    (named : ∀ id, (.inside, id) ∈ rule.uses → AgreeInside names names' node node' id) :
    AgreeOn rule node node' (rule.pick values names) refer (rule.pick values' names') refer' := by
  cases rule with
  | propertyNames schema =>
    refine ⟨fun use id mem here => ?_, target, named⟩
    cases List.mem_singleton.1 mem
    rcases here with same | same <;> cases same
  | _ => exact ⟨here, target, inside⟩

/-- A reordered schema agrees with the schema on a reordered value, if the places that its rules go
on to do and it runs without a fault with some evaluators. -/
theorem Validator.agree_evaluateEach {values names refer values' names' refer' : Evaluator}
    (validators : validator.Reordered validator') (nodes : node.Reordered node')
    (proper : node.value.IsProper) (coded : ∀ check ∈ validator.checkList, check.IsCoded)
    (fits : ∃ evaluate₀ refer₀ found, validator.evaluateWith evaluate₀ refer₀ node = .ok found)
    (h : ∀ check ∈ validator.checkList, Check.AgreeOn check.rule node node'
      (check.rule.pick values names) refer (check.rule.pick values' names') refer') :
    Agree (validator.evaluateEach (·.pick values names) refer node)
      (validator'.evaluateEach (·.pick values' names') refer' node') := by
  obtain ⟨evaluate₀, refer₀, _, ran⟩ := fits
  have checks : Agree
      (Check.together (fun (check : Check) => do
        if ← check.applies node then check.run (check.rule.pick values names) refer node
        else return [])
        validator.checkList)
      (Check.together (fun (check : Check) => do
        if ← check.applies node' then check.run (check.rule.pick values' names') refer' node'
        else return [])
        validator'.checkList) := by
    refine Check.agree_together (validators.checks.with_mem.imp ?_)
    rintro check check' ⟨mem, related⟩
    obtain ⟨applies, here, there⟩ := related.applies_eq nodes proper
    rw [here, there, related.rule.pick_eq]
    cases applies with
    | false => exact agree_nil
    | true =>
      obtain ⟨found, ok⟩ := exists_found ran mem here
      exact Check.agree_run related nodes proper (coded check mem) ⟨_, _, found, ok⟩ (h check mem)
  obtain ⟨P, ⟨found, ok, iff⟩, ⟨found', ok', iff'⟩⟩ := checks
  unfold evaluateEach
  rw [ok, ok']
  exact ⟨P, ⟨_, rfl, Report.folded_eq_nil.trans iff⟩, ⟨_, rfl, Report.folded_eq_nil.trans iff'⟩⟩

end Validators

/-! ## Evaluation in other orders -/

namespace Layout

variable {compiler : Compiler} {graph : SchemaGraph} {member : Schema → Prop}
  {w : Layout compiler graph member} {stands : List Schema} {table : Array Validator}
  {ι : Type} [DecidableEq ι] {name object : Pointer → ι} {set : ReferenceSet ι}

/-- The references in a set, on the objects that are told apart in one way. -/
theorem exists_active (object : Pointer → ι) (set : ReferenceSet ι) :
    ∃ active : ActiveReferences,
      ∀ id path, (id, object path, path) ∈ set ↔ (id, path) ∈ active := by
  refine ⟨(set.toList.filter fun reference =>
    reference.2.1 = object reference.2.2).map fun reference => (reference.1, reference.2.2), ?_⟩
  intro id path
  simp only [List.mem_map, List.mem_filter, Finset.mem_toList, decide_eq_true_eq, Prod.mk.injEq]
  constructor
  · exact fun mem => ⟨_, ⟨mem, rfl⟩, rfl, rfl⟩
  · rintro ⟨⟨id', other, path'⟩, ⟨mem, same⟩, rfl, rfl⟩
    dsimp only at same ⊢
    rwa [← same]

/-- Evaluating at most `depth` schemas deep reaches a verdict, and agrees with evaluating a
reordered table, if `depth` is enough for the effort. -/
theorem agree_evaluateFrom
    (represents : Represents compiler graph member w.state.validators stands)
    (coded : ∀ check, Listed w.state.validators check → check.IsCoded)
    (reordered : Validator.AreReordered w.state.validators table) (depth depth' : Nat)
    {active : ActiveReferences} {schema : Schema} {id : ValidatorId} {node node' : InstanceNode}
    (same : ∀ id path, (id, object path, path) ∈ set ↔ (id, path) ∈ active)
    (found : w.stands[id.index]? = some schema) (nodes : node.Reordered node')
    (proper : node.value.IsProper) (comparable : node.value.IsComparable member)
    (enough : w.effort active schema node ≤ depth)
    (enough' : w.effort active schema node ≤ depth') :
    Agree (Sharing.evaluateFrom name w.state.validators depth object set id node)
      (Sharing.evaluateFrom name table depth' object set id node') := by
  induction depth generalizing depth' object set active schema id node node' with
  | zero => exact absurd enough (by unfold effort; omega)
  | succ depth ih =>
    cases depth' with
    | zero => exact absurd enough' (by unfold effort; omega)
    | succ depth' =>
      have bound : id.index < w.state.validators.size := by
        rw [w.size_eq]
        exact (List.getElem?_eq_some_iff.1 found).1
      obtain ⟨validator, filled, fits⟩ := represents.exists_run bound proper comparable
      obtain ⟨validator', filled', related⟩ := reordered.get filled
      obtain ⟨named, same_named⟩ := exists_active name set
      unfold Sharing.evaluateFrom
      rw [filled, filled']
      refine Validator.agree_evaluateEach related nodes proper ?_ fits fun check mem => ?_
      · exact fun check mem => coded check ⟨id.index, validator, filled, mem⟩
      have tied := w.tied id.index schema _ found filled check mem
      refine Check.AgreeOn.of_pick ?_ ?_ ?_ ?_
      · intro use id' mem' here
        obtain ⟨inner, found', used⟩ := tied.places use id' mem'
        have less : w.effort active inner node < w.effort active schema node :=
          w.effort_lt_of_uses found' used here
        exact ih depth' same found' nodes proper comparable (by omega) (by omega)
      · intro id' mem'
        obtain ⟨target, found', -⟩ := tied.places .target id' mem'
        dsimp only
        rw [nodes.path]
        split
        · exact agree_nil
        · next inactive =>
          have fresh : active.contains (id', node.path) = false := by
            rwa [← Bool.not_eq_true, List.contains_iff_mem, ← same]
          have less : w.effort ((id', node.path) :: active) target node <
              w.effort active schema node := w.effort_lt_of_target found' fresh
          have more : ∀ id path, (id, object path, path) ∈
              insert (id', object node.path, node.path) set ↔
              (id, path) ∈ (id', node.path) :: active := by
            intro id path
            rw [Sharing.mem_insert_reference, List.mem_cons, same]
          exact ih depth' more found' nodes proper comparable (by omega) (by omega)
      · intro id' mem' segment value value' within values
        obtain ⟨inner, found', -⟩ := tied.places .inside id' mem'
        have less : w.effort active inner (node.child segment value) <
            w.effort active schema node := effort_lt_of_inside within.depth_lt
        exact ih depth' same found' (nodes.child segment values) (proper.inside within)
          (comparable.inside within) (by omega) (by omega)
      · intro id' mem' segment value value' within values
        obtain ⟨inner, found', -⟩ := tied.places .inside id' mem'
        have less : w.effort named inner (node.child segment value) <
            w.effort active schema node := effort_lt_of_inside within.depth_lt
        exact ih depth' same_named found' (nodes.child segment values) (proper.inside within)
          (comparable.inside within) (by omega) (by omega)

end Layout

/-! ### Two references to one schema -/

namespace Shared

theorem orderly : Orderly graph (root.Reaches graph) where
  closed _ reaches use _ used := .tail reaches ⟨use, used⟩
  typed := by
    intro schema reaches keyword assertion value asserts
    have ref : Assertion.ofKey? Builtin.ref.key = some .ref := by decide
    have properties : Assertion.ofKey? Builtin.properties.key = some .properties := by decide
    have mem := mem_of_reaches reaches
    obtain ⟨listed, known⟩ := asserts
    fin_cases mem <;> cases List.mem_singleton.1 listed
    · cases properties.symm.trans known
      exact ⟨trivial, fun _ applies => applies⟩
    all_goals
      cases ref.symm.trans known
      exact ⟨trivial, fun _ applies => applies⟩
  distinct _ _ _ reaches reaches' := distinct reaches reaches'

/-- An object with the two properties. -/
def value : Json :=
  .object [("a", .object []), ("b", .null)]

/-- The object with its members the other way round. -/
def swapped : Json :=
  .object [("b", .null), ("a", .object [])]

/-- A mark of names. -/
def name (_ : Pointer) : Bool :=
  true

/-- A mark of values. -/
def object (_ : Pointer) : Bool :=
  false

/-- The schema is being evaluated on the value of the first member. -/
def references : ReferenceSet Bool :=
  {(⟨0⟩, false, ["a"])}

end Shared

/-! ### Every order -/

/-- The order of evaluation does not matter. For a compiled schema whose checks, schemas of
combinators, entries of maps and members of the value come in another order, every place has a
verdict on the value, and this finds it valid in both orders or in neither, whatever references are
being evaluated; the numbers of the value have to compare with the bounds. The references are in one
set, which every evaluation leaves as it found it, whatever table it evaluates and also if it ends
with a fault; from an empty set it does what it does where they are passed down. -/
theorem CompiledSchema.reordered_agrees {compiler : Compiler} {graph : SchemaGraph}
    {member : Schema → Prop} {root : Schema} {compiled : CompiledSchema} {ι : Type} [DecidableEq ι]
    (orderly : Orderly graph member)
    (given : ∀ schema id, member schema → schema.id? = some id → id.index < graph.nextNode)
    (total : compiler.IsTotal) (owned : member root)
    (ok : CompiledSchema.ofSchema compiler graph root = .ok compiled) (name object : Pointer → ι) :
    (∀ (table : Array Validator) (depth : Nat) (id : ValidatorId) (node : InstanceNode)
      (set : ReferenceSet ι), ∃ result,
        (Sharing.evaluateWithin name table depth object id node).run.run set = (result, set)) ∧
    (∀ (table : Array Validator) (depth : Nat) (id : ValidatorId) (node : InstanceNode),
      (Sharing.evaluateWithin name table depth object id node).run.run ∅ =
        (evaluateWithin table depth [] id node, ∅)) ∧
    ∀ table v w, Validator.AreReordered compiled.table table → v.Reordered w → v.IsProper →
      v.IsComparable member → ∀ (id : ValidatorId) (path : Pointer) (set : ReferenceSet ι),
        id.index < compiled.table.size → ∀ depth depth',
          evaluationBound compiled.table v ≤ depth → evaluationBound table w ≤ depth' →
          ∃ found found',
            (Sharing.evaluateWithin name compiled.table depth object id ⟨v, path⟩).run.run set =
              (.ok found, set) ∧
            (Sharing.evaluateWithin name table depth' object id ⟨w, path⟩).run.run set =
              (.ok found', set) ∧
            (found = [] ↔ found' = []) := by
  refine ⟨?_, ?_, ?_⟩
  · exact fun table depth id node set => ⟨_, Sharing.mirrors_evaluateFrom table depth id node⟩
  · exact fun table depth id node =>
      Sharing.mirrors_evaluateWithin table depth id node (.nothing node.path)
  intro table v w reordered values proper comparable id path set bound depth depth' enough enough'
  have apart : graph.TellsApart member := ⟨orderly.closed, given, orderly.distinct⟩
  have coded : ∀ check, Listed compiled.table check → check.IsCoded :=
    fun check listed => isCoded apart owned ok listed
  obtain ⟨stands, -, represents⟩ := ofSchema_represents orderly total owned ok
  obtain ⟨layout, same, -⟩ := exists_layout apart owned ok
  rw [← reordered.evaluationBound_eq values] at enough'
  rw [← same] at reordered represents coded bound enough enough' ⊢
  have stood : id.index < layout.stands.length := by rwa [← layout.size_eq]
  have nodes : InstanceNode.Reordered ⟨v, path⟩ ⟨w, path⟩ := ⟨rfl, values⟩
  obtain ⟨active, tracked⟩ := Layout.exists_active object set
  obtain ⟨P, ⟨found, here, iff⟩, ⟨found', there, iff'⟩⟩ :=
    layout.agree_evaluateFrom represents coded reordered depth depth' tracked
      (List.getElem?_eq_getElem stood) nodes proper comparable
      (layout.effort_le.trans enough) (layout.effort_le.trans enough')
  refine ⟨found, found', ?_, ?_, iff.trans iff'.symm⟩
  · rw [← here]
    exact Sharing.mirrors_evaluateFrom layout.state.validators depth id ⟨v, path⟩
  · rw [← there]
    exact Sharing.mirrors_evaluateFrom table depth' id ⟨w, path⟩

/-- A schema whose properties refer to it finds an object valid from the front and from the back, or
in neither order, also while the reference in its first property is being evaluated. -/
theorem shared_reordered_agrees : ∃ compiled found found',
    CompiledSchema.ofSchema Loop.compiler Shared.graph Shared.root = .ok compiled ∧
    (Sharing.evaluateWithin Shared.name compiled.table 64 Shared.object ⟨0⟩
      ⟨Shared.value, []⟩).run.run Shared.references = (.ok found, Shared.references) ∧
    (Sharing.evaluateWithin Shared.name (compiled.table.map Validator.reversed) 64 Shared.object
      ⟨0⟩ ⟨Shared.swapped, []⟩).run.run Shared.references = (.ok found', Shared.references) ∧
    (found = [] ↔ found' = []) := by
  obtain ⟨compiled, ok, three⟩ : ∃ compiled,
      CompiledSchema.ofSchema Loop.compiler Shared.graph Shared.root = .ok compiled ∧
      compiled.table.size = 3 := ⟨_, rfl, rfl⟩
  have given : ∀ schema id, Shared.root.Reaches Shared.graph schema → schema.id? = some id →
      id.index < Shared.graph.nextNode := by
    intro schema id reaches named
    have mem := Shared.mem_of_reaches reaches
    fin_cases mem <;> cases named <;> decide
  have total : Loop.compiler.IsTotal := fun name test found => nomatch found
  have proper : Shared.value.IsProper :=
    ⟨by decide, ⟨⟨List.nodup_nil, trivial⟩, trivial, trivial⟩⟩
  have comparable : Shared.value.IsComparable (Shared.root.Reaches Shared.graph) := by
    intro n _ schema reaches keyword limit listed
    have mem := Shared.mem_of_reaches reaches
    fin_cases mem <;> cases List.mem_singleton.1 listed
  have bound : evaluationBound compiled.table Shared.value ≤ 64 := by
    unfold evaluationBound
    rw [three]
    decide
  have bound' : evaluationBound (compiled.table.map Validator.reversed) Shared.swapped ≤ 64 := by
    unfold evaluationBound
    rw [Array.size_map, three]
    decide
  obtain ⟨-, -, agrees⟩ := CompiledSchema.reordered_agrees Shared.orderly given total .refl ok
    Shared.name Shared.object
  obtain ⟨found, found', front, back, same⟩ := agrees _ _ _
    (Validator.areReordered_reversed compiled.table) (.reorder (.swap ..)) proper comparable ⟨0⟩ []
    Shared.references (by rw [three]; decide) 64 64 bound bound'
  exact ⟨compiled, found, found', ok, front, back, same⟩

/-! ### A bound that does not compare -/

/-- A table whose first schema accepts what one of two others accepts: the one behind it, which has
a decimal bound, or the last, which accepts everything. -/
def Bounded.table (schemas : List ValidatorId) : Array Validator :=
  #[⟨"#", some [⟨some Builtin.anyOf, "#/anyOf", .anyOf schemas⟩]⟩,
    ⟨"#/anyOf/0", some [⟨some Builtin.minimum, "#/anyOf/0/minimum",
      .minimum ⟨some (.number (.decimal (.finite false 1 0))), false, none⟩⟩]⟩,
    ⟨"#/anyOf/1", some []⟩]

/-- The decimal bound does not compare with the double that is no number, and the order decides
whether this is noticed. -/
example :
    evaluate (Bounded.table [⟨1⟩, ⟨2⟩]) ⟨0⟩ (.number (.double .nan)) = .error .invalidOperation ∧
      evaluate (Bounded.table [⟨2⟩, ⟨1⟩]) ⟨0⟩ (.number (.double .nan)) = .ok [] :=
  ⟨rfl, rfl⟩

end JsonSchema
