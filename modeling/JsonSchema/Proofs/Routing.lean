import JsonSchema.Proofs.Routes

/-!
# Routing of members

Three checks are compiled from `properties`, `patternProperties` and `additionalProperties`, the last
one with its own copy of the names and patterns of the others. Run on an object they do what the
keywords ask (`Schema.asks`), no more and no less: every member is evaluated at the place of every
schema that is meant for it, and a forbidden member or a missing property is a leaf
(`CompiledSchema.ofSchema_routes`).

A member that fails gives one violation. It stands at the member, or below it: a schema that has only
one violation passes it on as it is (`nested_below`).
-/

namespace JsonSchema

/-! ## Verdicts on lists -/

namespace Check

variable {α β : Type} {f : α → Verdict} {g : β → Verdict} {xs : List α} {ys : List β}

theorem together_append (f : α → Verdict) (xs xs' : List α) :
    together f (xs ++ xs') = do return (← together f xs) ++ (← together f xs') := by
  induction xs with
  | nil =>
    show together f xs' = together f xs' >>= pure
    rw [bind_pure]
  | cons x xs ih =>
    rw [List.cons_append, Reporting.together_cons, Reporting.together_cons, ih]
    simp only [bind_assoc, pure_bind, List.append_assoc]

theorem together_singleton (f : α → Verdict) (x : α) : together f [x] = f x := by
  rw [Reporting.together_cons]
  show (do return (← f x) ++ []) = f x
  simp only [List.append_nil, bind_pure]

/-- A list in which each element stands for a list of others. -/
theorem together_flatMap {h : α → List β} (each : ∀ x ∈ xs, f x = together g (h x)) :
    together f xs = together g (xs.flatMap h) := by
  induction xs with
  | nil => rfl
  | cons x xs ih =>
    rw [Reporting.together_cons, List.flatMap_cons, together_append,
      each x List.mem_cons_self, ih fun x' mem => each x' (List.mem_cons_of_mem _ mem)]

theorem together_filter (f : α → Verdict) (p : α → Bool) (xs : List α) :
    together f (xs.filter p) = together (fun x => if p x then f x else .ok []) xs := by
  induction xs with
  | nil => rfl
  | cons x xs ih =>
    rw [Reporting.together_cons, ← ih, List.filter_cons]
    cases p x with
    | true => rw [if_pos rfl, Reporting.together_cons, if_pos rfl]
    | false =>
      show together f (xs.filter p) = together f (xs.filter p) >>= pure
      rw [bind_pure]

end Check

/-! ## Answers -/

/-- What is done about something that is asked: a value is evaluated at a place, or there is a
violation at once. -/
inductive Answer where
  | evaluated (place : ValidatorId) (node : InstanceNode)
  | refused (violation : Violation)

/-- The verdict of an answer. -/
def Answer.verdict (evaluate : Evaluator) : Answer → Verdict
  | .evaluated place node => evaluate place node
  | .refused violation => .ok [violation]

/-- The violation of a forbidden member, at the pointer of the member. -/
def Violation.forbidden (location : String) (member : InstanceNode) (name : String) : Violation :=
  .mk member.pointer (Place.join location [Builtin.additionalProperties.key])
    (some Builtin.additionalProperties.key) (.keyword Builtin.additionalProperties.key)
    (.memberForbidden name) []

/-- The violation of a missing property, at the pointer of the object. -/
def Violation.missing (object : InstanceNode) (name place : String) : Violation :=
  .mk object.pointer place (some Builtin.required.key) (.keyword Builtin.required.key)
    (.memberMissing name) []

/-- An answer to what the keywords of a schema ask. A member is evaluated at a place that stands for
the schema; a schema for additional members that accepts nothing is not asked, the member is
forbidden. -/
inductive Ask.AnsweredBy (stands : Schema → ValidatorId → Prop) (owner : Schema) (location : String)
    (node : InstanceNode) : Ask → Answer → Prop
  | evaluated {name : String} {value : Json} {source : Source} {schema : Schema}
    {place : ValidatorId} (provides : owner.Provides source schema) (stood : stands schema place)
    (demanding : source = .additional → schema.isAlwaysInvalid = false) :
    AnsweredBy stands owner location node (.member name value source)
      (.evaluated place (node.child name value))
  | forbidden {name : String} {value : Json} {schema : Schema}
    (provides : owner.Provides .additional schema) (invalid : schema.isAlwaysInvalid = true) :
    AnsweredBy stands owner location node (.member name value .additional)
      (.refused (.forbidden location (node.child name value) name))
  | missing {name place : String} :
    AnsweredBy stands owner location node (.missing name place)
      (.refused (.missing node name place))

namespace Check

variable {stands : Schema → ValidatorId → Prop} {owner : Schema} {location : String}
  {node : InstanceNode} {members : List (String × Json)} {schemas : List (String × Schema)}
  {evaluate : Evaluator}

/-! ### Runs -/

/-- The answers of `properties`. -/
def declaredAnswers (ids : List (String × ValidatorId)) (required : List (String × String))
    (node : InstanceNode) (members : List (String × Json)) : List Answer :=
  ids.flatMap fun entry =>
    match members.lookup entry.1, required.lookup entry.1 with
    | some value, _ => [.evaluated entry.2 (node.child entry.1 value)]
    | none, some place => [.refused (.missing node entry.1 place)]
    | none, none => []

theorem runProperties_eq (ids : List (String × ValidatorId)) (required : List (String × String)) :
    runProperties evaluate ids required node members =
      together (Answer.verdict evaluate) (declaredAnswers ids required node members) := by
  refine together_flatMap fun entry _ => ?_
  dsimp only
  cases members.lookup entry.1 with
  | some value => exact (together_singleton _ _).symm
  | none =>
    cases required.lookup entry.1 with
    | some place => exact (together_singleton _ _).symm
    | none => rfl

/-- The answers of `patternProperties`. -/
def matchedAnswers (searches : List ((String → Bool) × ValidatorId)) (node : InstanceNode)
    (members : List (String × Json)) : List Answer :=
  members.flatMap fun member => searches.flatMap fun entry =>
    if entry.1 member.1 then [.evaluated entry.2 (node.child member.1 member.2)] else []

theorem runPatterns_eq (searches : List ((String → Bool) × ValidatorId)) :
    runPatterns evaluate searches node members =
      together (Answer.verdict evaluate) (matchedAnswers searches node members) := by
  refine together_flatMap fun member _ => together_flatMap fun entry _ => ?_
  dsimp only
  split
  · exact (together_singleton _ _).symm
  · rfl

/-- The answers of `additionalProperties`. -/
def additionalAnswers (id : ValidatorId) (forbid : Bool) (declared : List String)
    (searches : List (String → Bool)) (location : String) (node : InstanceNode)
    (members : List (String × Json)) : List Answer :=
  members.flatMap fun member =>
    if isAdditional declared searches member.1 then
      [if forbid then .refused (.forbidden location (node.child member.1 member.2) member.1)
        else .evaluated id (node.child member.1 member.2)]
    else []

theorem runAdditional_eq (id : ValidatorId) (forbid : Bool) (declared : List String)
    (searches : List (String → Bool)) (rule : Rule) :
    runAdditional
        { keyword := some Builtin.additionalProperties,
          location := Place.join location [Builtin.additionalProperties.key], rule }
        evaluate id forbid declared searches node members =
      together (Answer.verdict evaluate)
        (additionalAnswers id forbid declared searches location node members) := by
  unfold runAdditional
  rw [together_filter]
  refine together_flatMap fun member _ => ?_
  dsimp only
  split
  · rw [together_singleton]
    cases forbid <;> rfl
  · rfl

/-! ### Answers to what is asked -/

theorem answered_declared {place : String} {ids : List (String × ValidatorId)}
    (keyword : owner.get? Builtin.properties = some (.schemaMap schemas))
    (each : List.Forall₂ (fun entry entry' => entry'.1 = entry.1 ∧ stands entry.2 entry'.2)
      schemas ids) :
    List.Forall₂ (Ask.AnsweredBy stands owner location node)
      (Schema.declaredAsks schemas place members)
      (declaredAnswers ids (Compile.flaggedNames schemas place) node members) := by
  have provided := (List.forall₂_and_left _ _).2
    ⟨fun entry (mem : entry ∈ schemas) => Schema.Provides.property keyword mem, each⟩
  refine List.rel_flatMap provided ?_
  rintro ⟨name, schema⟩ ⟨other, id⟩ ⟨provides, same, stood⟩
  obtain rfl : name = other := same.symm
  dsimp only at provides stood ⊢
  cases members.lookup name with
  | some value => exact .cons (.evaluated provides stood nofun) .nil
  | none =>
    cases (Compile.flaggedNames schemas place).lookup name with
    | some flag => exact .cons .missing .nil
    | none => exact .nil

theorem answered_matched {compiler : Compiler} {searches : List ((String → Bool) × ValidatorId)}
    (keyword : owner.get? Builtin.patternProperties = some (.schemaMap schemas))
    (each : List.Forall₂ (fun entry entry' => compiler.search entry.1 = .ok entry'.1 ∧
      stands entry.2 entry'.2) schemas searches) :
    List.Forall₂ (Ask.AnsweredBy stands owner location node)
      (Schema.matchedAsks compiler schemas members) (matchedAnswers searches node members) := by
  have provided := (List.forall₂_and_left _ _).2
    ⟨fun entry (mem : entry ∈ schemas) => Schema.Provides.pattern keyword mem, each⟩
  refine List.rel_flatMap (List.forall₂_same.2 fun _ _ => rfl : List.Forall₂ Eq members members) ?_
  rintro ⟨name, value⟩ _ rfl
  refine List.rel_flatMap provided ?_
  rintro ⟨text, schema⟩ ⟨search, id⟩ ⟨provides, ok, stood⟩
  dsimp only at provides ok stood ⊢
  rw [Compiler.finds_of_ok ok]
  by_cases found : search name = true
  · rw [if_pos found, if_pos found]
    exact .cons (.evaluated provides stood nofun) .nil
  · rw [if_neg found, if_neg found]
    exact .nil

theorem answered_additional {compiler : Compiler} {schema : Schema} {id : ValidatorId}
    {searches : List (String → Bool)}
    (keyword : owner.get? Builtin.additionalProperties = some (.schema schema))
    (asking : schema.isAlwaysValid = false) (stood : stands schema id)
    (each : List.Forall₂ (fun pattern search => compiler.search pattern = .ok search)
      (Compile.namesUnder owner Builtin.patternProperties) searches) :
    List.Forall₂ (Ask.AnsweredBy stands owner location node)
      (owner.additionalAsks compiler schema members)
      (additionalAnswers id schema.isAlwaysInvalid (Compile.namesUnder owner Builtin.properties)
        searches location node members) := by
  unfold Schema.additionalAsks
  rw [asking, if_neg Bool.false_ne_true]
  refine List.rel_flatMap (List.forall₂_same.2 fun _ _ => rfl : List.Forall₂ Eq members members) ?_
  rintro ⟨name, value⟩ _ rfl
  have same : owner.leavesOver compiler name =
      isAdditional (Compile.namesUnder owner Builtin.properties) searches name := by
    rw [Bool.eq_iff_iff, isAdditional_iff each]
    exact Schema.leavesOver_iff.trans
      ⟨fun | .additional undeclared unmatched => ⟨undeclared, unmatched⟩,
        fun ⟨undeclared, unmatched⟩ => .additional undeclared unmatched⟩
  dsimp only
  rw [same]
  cases isAdditional (Compile.namesUnder owner Builtin.properties) searches name with
  | false => exact .nil
  | true =>
    cases invalid : schema.isAlwaysInvalid with
    | true => exact .cons (.forbidden (.additional keyword) invalid) .nil
    | false => exact .cons (.evaluated (.additional keyword) stood fun _ => invalid) .nil

end Check

/-! ## What the keywords are compiled to -/

namespace Compile

variable {compiler : Compiler} {graph : SchemaGraph} {recur : SchemaCompiler} {owner : Schema}
  {location place : String} {keyword : Keyword} {value : KeywordValue}

section Yields

variable {α β : Type} {act : Compile α} {P : α → Prop} {Q : β → Prop}

theorem Yields.bind {next : α → Compile β} (first : Yields act P)
    (rest : ∀ a, P a → Yields (next a) Q) : Yields (act >>= next) Q := by
  intro state b state' run
  obtain ⟨a, state₁, ran, run⟩ := run_bind_eq_ok run
  exact rest a (first state a state₁ ran) state₁ b state' run

theorem yields_any : Yields act fun _ => True :=
  fun _ _ _ _ => trivial

theorem yields_mapM {f : α → Compile β} {R : α → β → Prop} {xs : List α}
    (each : ∀ a ∈ xs, Yields (f a) (R a)) : Yields (xs.mapM f) (List.Forall₂ R xs) := by
  induction xs with
  | nil => exact yields_pure .nil
  | cons a rest ih =>
    rw [List.mapM_cons]
    refine (each a List.mem_cons_self).bind fun b first => ?_
    refine (ih fun a' mem => each a' (List.mem_cons_of_mem _ mem)).bind fun bs others => ?_
    exact yields_pure (.cons first others)

theorem yields_searchOf (pattern : String) :
    Yields (searchOf compiler pattern) fun search => compiler.search pattern = .ok search := by
  unfold searchOf
  cases compiler.search pattern with
  | ok search => exact yields_pure rfl
  | error fault => exact yields_throw

/-- The places of a map have the names of the schemas. -/
theorem yields_map (schemas : List (String × Schema)) :
    Yields (map recur schemas place) (List.Forall₂ (fun entry entry' => entry'.1 = entry.1) schemas) :=
  yields_mapM fun _ _ => yields_any.bind fun _ _ => yields_pure rfl

end Yields

/-- The check of a keyword has the rule that its value is compiled to. -/
theorem yields_checkOf {assertion : Assertion} {P : Option Rule → Prop}
    (known : Assertion.ofKey? keyword.key = some assertion)
    (rule : Yields (ruleOf compiler graph recur owner assertion value
      (Place.join location [keyword.key])) P) :
    Yields (checkOf compiler graph recur owner location keyword value) fun check =>
      ∃ rule, P rule ∧ check = rule.map fun rule =>
        { keyword := some keyword, location := Place.join location [keyword.key], rule } := by
  unfold checkOf
  rw [known]
  exact rule.bind fun rule holds => yields_pure ⟨rule, holds, rfl⟩

theorem yields_properties :
    Yields (ruleOf compiler graph recur owner .properties value place) fun rule =>
      ∃ schemas ids, value = .schemaMap schemas ∧
        List.Forall₂ (fun entry entry' => entry'.1 = entry.1) schemas ids ∧
        rule = some (.properties ids (flaggedNames schemas place)) := by
  cases value with
  | schemaMap schemas =>
    exact (yields_map schemas).bind fun ids named => yields_pure ⟨schemas, ids, rfl, named, rfl⟩
  | _ => exact yields_throw

theorem yields_patternProperties :
    Yields (ruleOf compiler graph recur owner .patternProperties value place) fun rule =>
      ∃ schemas searches, value = .schemaMap schemas ∧
        List.Forall₂ (fun entry entry' => compiler.search entry.1 = .ok entry'.1) schemas searches ∧
        rule = some (.patternProperties searches) := by
  cases value with
  | schemaMap schemas =>
    refine (yields_map schemas).bind fun ids named => ?_
    have searched : Yields (ids.mapM fun entry => do
          return (← searchOf compiler entry.1, entry.2))
        (List.Forall₂ (fun entry entry' => compiler.search entry.1 = .ok entry'.1) ids) :=
      yields_mapM fun entry _ => (yields_searchOf entry.1).bind fun search ok => yields_pure ok
    refine searched.bind fun searches found => yields_pure ⟨schemas, searches, rfl, ?_, rfl⟩
    refine (forall₂_comp named found).imp ?_
    rintro entry entry' ⟨between, same, ok⟩
    rw [← same]
    exact ok
  | _ => exact yields_throw

theorem yields_additionalProperties :
    Yields (ruleOf compiler graph recur owner .additionalProperties value place) fun rule =>
      ∃ schema, value = .schema schema ∧ (schema.isAlwaysValid = true ∧ rule = none ∨
        schema.isAlwaysValid = false ∧ ∃ id searches,
          List.Forall₂ (fun pattern search => compiler.search pattern = .ok search)
            (namesUnder owner Builtin.patternProperties) searches ∧
          rule = some (.additionalProperties id schema.isAlwaysInvalid
            (namesUnder owner Builtin.properties) searches)) := by
  cases value with
  | schema schema =>
    change Yields (additionalRule compiler recur owner schema place) _
    unfold additionalRule
    cases valid : schema.isAlwaysValid with
    | true => exact yields_pure ⟨schema, rfl, .inl ⟨valid, rfl⟩⟩
    | false =>
      refine yields_any.bind fun id _ => ?_
      refine (yields_mapM fun pattern _ => yields_searchOf pattern).bind fun searches found => ?_
      exact yields_pure ⟨schema, rfl, .inr ⟨valid, id, searches, found, rfl⟩⟩
  | _ => exact yields_throw

end Compile

/-! ## Checks of a schema -/

/-- A check of one of the keywords for members. -/
def Check.isRouting (check : Check) : Bool :=
  [Builtin.properties.key, Builtin.patternProperties.key,
    Builtin.additionalProperties.key].contains check.key

/-- The checks of the keywords for members. -/
def Validator.routing (validator : Validator) : List Check :=
  validator.checkList.filter Check.isRouting

namespace Served

variable {stands : Schema → ValidatorId → Prop} {needs : List (Use × Schema)}
  {places : List (Use × ValidatorId)}

theorem length_le (served : Served stands needs places) : places.length ≤ needs.length := by
  induction served with
  | nil => exact le_rfl
  | placed _ _ ih => exact Nat.succ_le_succ ih
  | spared _ _ ih => exact Nat.le_succ_of_le ih

/-- As many places as schemas: none was spared. -/
theorem forall₂ (served : Served stands needs places) (length : places.length = needs.length) :
    List.Forall₂ (fun need place => stands need.2 place.2) needs places := by
  induction served with
  | nil => exact .nil
  | placed stood _ ih => exact .cons stood (ih (Nat.succ.inj length))
  | spared _ rest _ => exact absurd (rest.length_le) (by rw [length]; exact Nat.not_succ_le_self _)

end Served

/-- Checks do on an object what is asked: they apply to it, and together they run one answer to each
ask. -/
structure Complies (stands : Schema → ValidatorId → Prop) (owner : Schema) (location : String)
    (node : InstanceNode) (asks : List Ask) (checks : List Check) : Prop where
  applies : ∀ check ∈ checks, check.applies node = .ok true
  answers : ∃ answers, List.Forall₂ (Ask.AnsweredBy stands owner location node) asks answers ∧
    ∀ evaluate refer, Check.together (fun check => check.run evaluate refer node) checks =
      Check.together (Answer.verdict evaluate) answers

namespace Complies

variable {stands : Schema → ValidatorId → Prop} {owner : Schema} {location : String}
  {node : InstanceNode} {asks asks' : List Ask} {checks checks' : List Check} {check : Check}
  {members : List (String × Json)}

theorem nil : Complies stands owner location node [] [] :=
  ⟨List.forall_mem_nil _, [], .nil, fun _ _ => rfl⟩

theorem append (first : Complies stands owner location node asks checks)
    (rest : Complies stands owner location node asks' checks') :
    Complies stands owner location node (asks ++ asks') (checks ++ checks') := by
  obtain ⟨applies, answers, answered, runs⟩ := first
  obtain ⟨applies', answers', answered', runs'⟩ := rest
  refine ⟨List.forall_mem_append.2 ⟨applies, applies'⟩, answers ++ answers',
    List.rel_append answered answered', fun evaluate refer => ?_⟩
  rw [Check.together_append, Check.together_append, runs, runs']

/-- One check that runs answers to what its keyword asks. -/
theorem single {keyword : Keyword} {answers : List Answer} (object : node.value = .object members)
    (named : check.keyword = some keyword) (constrains : keyword.appliesToType .object = true)
    (answered : List.Forall₂ (Ask.AnsweredBy stands owner location node) asks answers)
    (runs : ∀ evaluate refer,
      check.run evaluate refer node = Check.together (Answer.verdict evaluate) answers) :
    Complies stands owner location node asks [check] := by
  refine ⟨List.forall_mem_singleton.2 ?_, answers, answered, fun evaluate refer => ?_⟩
  · unfold Check.applies InstanceNode.type
    rw [named, object]
    exact congrArg Except.ok constrains
  · rw [Check.together_singleton, runs]

end Complies

namespace Compilation

variable {compiler : Compiler} {graph : SchemaGraph} {changes : List Change} {owner : Schema}
  {location : String} {keyword : Keyword} {value : KeywordValue} {check : Option Check}
  {node : InstanceNode} {members : List (String × Json)}

theorem forall₂_and {α β : Type} {R S : α → β → Prop} {xs : List α} {ys : List β}
    (first : List.Forall₂ R xs ys) (second : List.Forall₂ S xs ys) :
    List.Forall₂ (fun x y => R x y ∧ S x y) xs ys := by
  induction first with
  | nil => exact .nil
  | cons here _ ih =>
    cases second with
    | cons here' rest => exact .cons ⟨here, here'⟩ (ih rest)

/-- The places of a map of schemas for the values inside stand for the schemas. -/
theorem forall₂_of_served {stands : Schema → ValidatorId → Prop} {α : Type}
    {schemas : List (String × Schema)} {ids : List (α × ValidatorId)}
    (served : Served stands (schemas.map fun entry => (.inside, entry.2))
      ((ids.map (·.2)).map (.inside, ·))) (length : schemas.length = ids.length) :
    List.Forall₂ (fun entry entry' => stands entry.2 entry'.2) schemas ids := by
  have each := served.forall₂ (by simp [length])
  rw [List.map_map] at each
  exact List.forall₂_map_left_iff.1 (List.forall₂_map_right_iff.1 each)

section Keywords

variable (gave : Gave compiler graph changes owner location keyword value check)
  (regular : owner.IsRegular) (mem : (keyword, value) ∈ owner.keywords)
  (object : node.value = .object members)
include gave regular mem object

/-- What `properties` gave. -/
theorem Gave.declared (known : Assertion.ofKey? keyword.key = some .properties) :
    Complies (Taken changes) owner location node
      (owner.asksOf compiler location members (keyword, value))
      (check.toList.filter Check.isRouting) := by
  obtain ⟨depth, before, after, -, -, run⟩ := gave.run
  obtain ⟨_, ⟨schemas, ids, rfl, named, rfl⟩, rfl⟩ :=
    Compile.yields_checkOf known Compile.yields_properties _ _ _ run
  have found := regular.get?_of_asserts ⟨mem, known⟩
  obtain rfl := regular.standard _ _ _ ⟨mem, known⟩
  have stood := forall₂_of_served (gave.serves _ known) named.length_eq
  unfold Schema.asksOf
  rw [known]
  refine Complies.single object rfl (by decide)
    (Check.answered_declared found (forall₂_and named stood)) fun evaluate refer => ?_
  unfold Check.run Check.onMembers
  rw [object]
  exact Check.runProperties_eq _ _

/-- What `patternProperties` gave. -/
theorem Gave.matched (known : Assertion.ofKey? keyword.key = some .patternProperties) :
    Complies (Taken changes) owner location node
      (owner.asksOf compiler location members (keyword, value))
      (check.toList.filter Check.isRouting) := by
  obtain ⟨depth, before, after, -, -, run⟩ := gave.run
  obtain ⟨_, ⟨schemas, searches, rfl, named, rfl⟩, rfl⟩ :=
    Compile.yields_checkOf known Compile.yields_patternProperties _ _ _ run
  have found := regular.get?_of_asserts ⟨mem, known⟩
  obtain rfl := regular.standard _ _ _ ⟨mem, known⟩
  have stood := forall₂_of_served (gave.serves _ known) named.length_eq
  unfold Schema.asksOf
  rw [known]
  refine Complies.single object rfl (by decide)
    (Check.answered_matched found (forall₂_and named stood)) fun evaluate refer => ?_
  unfold Check.run Check.onMembers
  rw [object]
  exact Check.runPatterns_eq _

/-- What `additionalProperties` gave. -/
theorem Gave.additional (known : Assertion.ofKey? keyword.key = some .additionalProperties) :
    Complies (Taken changes) owner location node
      (owner.asksOf compiler location members (keyword, value))
      (check.toList.filter Check.isRouting) := by
  obtain ⟨depth, before, after, -, -, run⟩ := gave.run
  obtain ⟨_, ⟨schema, rfl, ⟨valid, rfl⟩ | ⟨asking, id, searches, compiled, rfl⟩⟩, rfl⟩ :=
    Compile.yields_checkOf known Compile.yields_additionalProperties _ _ _ run
  · unfold Schema.asksOf
    rw [known]
    dsimp only
    unfold Schema.additionalAsks
    rw [if_pos valid]
    exact .nil
  · have found := regular.get?_of_asserts ⟨mem, known⟩
    obtain rfl := regular.standard _ _ _ ⟨mem, known⟩
    have stood : Taken changes schema id := by
      cases (gave.serves _ known).forall₂ rfl with
      | cons stood _ => exact stood
    unfold Schema.asksOf
    rw [known]
    refine Complies.single object rfl (by decide)
      (Check.answered_additional found asking stood compiled) fun evaluate refer => ?_
    unfold Check.run Check.onMembers
    rw [object]
    exact Check.runAdditional_eq _ _ _ _ _

end Keywords

/-- A keyword that is not about members asks nothing and gave nothing that is. -/
theorem Gave.unrelated (gave : Gave compiler graph changes owner location keyword value check)
    (declared : Assertion.ofKey? keyword.key ≠ some .properties)
    (matched : Assertion.ofKey? keyword.key ≠ some .patternProperties)
    (additional : Assertion.ofKey? keyword.key ≠ some .additionalProperties) :
    Complies (Taken changes) owner location node
      (owner.asksOf compiler location members (keyword, value))
      (check.toList.filter Check.isRouting) := by
  have nothing : owner.asksOf compiler location members (keyword, value) = [] := by
    unfold Schema.asksOf
    split
    · next known _ => exact absurd known declared
    · next known _ => exact absurd known matched
    · next known _ => exact absurd known additional
    · rfl
  have none : check.toList.filter Check.isRouting = [] := by
    rw [List.filter_eq_nil_iff]
    intro c mem routing
    obtain ⟨depth, before, after, -, -, run⟩ := gave.run
    have named := (Compile.isCheckOf_checkOf _ _ _ _ _ _ _ _ _ _ run c (Option.mem_toList.1 mem)).named
    have key : c.key = keyword.key := by
      unfold Check.key
      rw [named]
      rfl
    unfold Check.isRouting at routing
    rw [key] at routing
    simp only [List.contains_eq_mem, List.mem_cons, List.not_mem_nil, or_false,
      decide_eq_true_eq] at routing
    rcases routing with same | same | same
    · exact declared (same ▸ by decide)
    · exact matched (same ▸ by decide)
    · exact additional (same ▸ by decide)
  rw [nothing, none]
  exact .nil

/-- What a keyword gave does on an object what the keyword asks of the members. -/
theorem Gave.complies (gave : Gave compiler graph changes owner location keyword value check)
    (regular : owner.IsRegular) (mem : (keyword, value) ∈ owner.keywords)
    (object : node.value = .object members) :
    Complies (Taken changes) owner location node
      (owner.asksOf compiler location members (keyword, value))
      (check.toList.filter Check.isRouting) := by
  by_cases declared : Assertion.ofKey? keyword.key = some .properties
  · exact gave.declared regular mem object declared
  by_cases matched : Assertion.ofKey? keyword.key = some .patternProperties
  · exact gave.matched regular mem object matched
  by_cases additional : Assertion.ofKey? keyword.key = some .additionalProperties
  · exact gave.additional regular mem object additional
  · exact gave.unrelated declared matched additional

/-- The checks that a schema is compiled to do on an object what the keywords ask of the members. -/
theorem Compiles.complies {checks : List Check}
    (compiles : Compiles compiler graph changes owner location checks) (regular : owner.IsRegular)
    (object : node.value = .object members) :
    Complies (Taken changes) owner location node (owner.asks compiler location members)
      (checks.filter Check.isRouting) := by
  cases compiles with
  | nothing invalid =>
    unfold Schema.isAlwaysInvalid at invalid
    split at invalid
    · next keyword inner only =>
      obtain rfl : keyword = Builtin.not := by
        simpa using (Bool.and_eq_true_iff.1 invalid).1
      unfold Schema.asks
      rw [only]
      exact .nil
    · cases invalid
  | @keywords given _ each =>
    have all : ∀ {entries : List (Keyword × KeywordValue)} {given : List (Option Check)},
        (∀ entry ∈ entries, entry ∈ owner.keywords) →
        List.Forall₂ (fun entry check =>
          Gave compiler graph changes owner location entry.1 entry.2 check) entries given →
        Complies (Taken changes) owner location node
          (entries.flatMap (owner.asksOf compiler location members))
          ((given.filterMap fun check => check).filter Check.isRouting) := by
      intro entries given among each
      induction each with
      | nil => exact .nil
      | @cons entry check entries given gave _ ih =>
        have first := gave.complies regular (among entry List.mem_cons_self) object
        have rest := ih fun entry' mem => among entry' (List.mem_cons_of_mem _ mem)
        have split : ((check :: given).filterMap fun check => check).filter Check.isRouting =
            check.toList.filter Check.isRouting ++
              (given.filterMap fun check => check).filter Check.isRouting := by
          rw [← List.filter_append]
          cases check <;> rfl
        rw [split]
        exact first.append rest
    exact all (fun _ mem => mem) each

end Compilation

/-! ## What evaluation gives for a member -/

section Tables

variable {table : Array Validator} {depth : Nat} {active : ActiveReferences} {place : ValidatorId}
  {node : InstanceNode} {found : List Violation}

/-- How a reference is followed while a schema is evaluated. -/
def referWithin (table : Array Validator) (depth : Nat) (active : ActiveReferences) : Evaluator :=
  fun target node =>
    if active.contains (target, node.path) then .ok []
    else evaluateWithin table depth ((target, node.path) :: active) target node

/-- What the checks of a schema that apply to a value find, one check after the other. -/
def Validator.findings (evaluate refer : Evaluator) (validator : Validator) (node : InstanceNode) :
    Verdict :=
  Check.together (fun check => do
    if ← check.applies node then check.run evaluate refer node else return []) validator.checkList

/-- What evaluating a value at a place gives: what the checks there find, as at most one violation.
One is passed on as it is, several become the causes of one at the value. So the violation stands at
the value or below it. -/
structure GivesOne (table : Array Validator) (depth : Nat) (active : ActiveReferences)
    (place : ValidatorId) (node : InstanceNode) (found : List Violation) : Prop where
  single : found.length ≤ 1
  folded : ∃ validator inner findings, table[place.index]? = some validator ∧ depth = inner + 1 ∧
    validator.findings (evaluateWithin table inner active) (referWithin table inner active) node =
      .ok findings ∧
    found = Report.folded node.pointer validator.location findings
  behind : ∀ v ∈ found, ∃ below, v.Points (node.path ++ below)

/-- A violation that points behind a child of a node points behind the node. -/
theorem Violation.points_up {v : Violation} {segment : String} {value : Json}
    (behind : ∃ below, v.Points ((node.child segment value).path ++ below)) :
    ∃ below, v.Points (node.path ++ below) := by
  obtain ⟨below, points⟩ := behind
  refine ⟨segment :: below, ?_⟩
  rwa [InstanceNode.child, List.append_assoc] at points

/-- The pointers of violations go on from the value that is evaluated. -/
theorem behind_evaluateWithin : Verdict.Keeps (fun v => ∃ below, v.Points (node.path ++ below))
    (evaluateWithin table depth active place node) := by
  have here : ∀ {node : InstanceNode} {v : Violation}, v.pointer = node.pointer →
      ∃ below, v.Points (node.path ++ below) := fun same =>
    ⟨[], by rw [List.append_nil]; exact Violation.points_of_pointer same⟩
  refine keeps_evaluateWithin (P := fun node v => ∃ below, v.Points (node.path ++ below))
    (fun check node v _ _ origin => ?_) (fun node location causes _ => here rfl) _ _ _ _
  cases origin with
  | raised raises _ =>
    rcases raises.spot_cases with rfl | ⟨-, _, _, _, _, _, rfl⟩
    · exact here raises.pointer
    · exact Violation.points_up (here raises.pointer)
  | names _ _ _ _ => exact here rfl
  | here given => exact given
  | item _ _ given => exact Violation.points_up given
  | member _ _ given => exact Violation.points_up given

theorem givesOne_evaluateWithin (ok : evaluateWithin table depth active place node = .ok found) :
    GivesOne table depth active place node found := by
  refine ⟨length_evaluateWithin ok, ?_, behind_evaluateWithin found ok⟩
  unfold evaluateWithin at ok
  split at ok
  · next inner validator stored =>
    obtain ⟨findings, finds, folded⟩ := except_bind_ok ok
    cases folded
    exact ⟨validator, inner, findings, stored, rfl, finds, rfl⟩
  · cases ok

end Tables

/-! ## Routing -/

/-- The checks for members of a compiled schema do on an object what the keywords of the schema ask,
each thing once: every member under every schema that is meant for it, and every flagged property
that is missing. What they find is what the answers find, one after the other. -/
structure RoutesExactly (compiler : Compiler) (stands : Schema → ValidatorId → Prop) (owner : Schema)
    (validator : Validator) (node : InstanceNode) (members : List (String × Json)) : Prop where
  once : (owner.asks compiler validator.location members).Nodup
  asked : ∀ ask, ask ∈ owner.asks compiler validator.location members ↔
    owner.Routes compiler validator.location members ask
  applies : ∀ check ∈ validator.routing, check.applies node = .ok true
  answered : ∃ answers, List.Forall₂ (Ask.AnsweredBy stands owner validator.location node)
      (owner.asks compiler validator.location members) answers ∧
    ∀ evaluate refer,
      Check.together (fun check => check.run evaluate refer node) validator.routing =
        Check.together (Answer.verdict evaluate) answers ∧
      ∀ found,
        Check.together (fun check => check.run evaluate refer node) validator.routing = .ok found →
        ∃ said, List.Forall₂ (fun answer found => answer.verdict evaluate = .ok found) answers said ∧
          found = said.flatten

/-- Members are routed exactly. In the table of a compiled schema every place that the root leads to
stands for a schema, and its checks for members do on every object what the keywords of the schema
ask of it: a member is evaluated at the places of the declared property of its name, of the
patterns that find something in the name, and of the schema for additional members if it is neither
declared nor found by a pattern; it is refused where this schema accepts nothing, and not looked at
where it accepts everything. A member that fails gives one violation, at the member or below it. -/
theorem CompiledSchema.ofSchema_routes {compiler : Compiler} {graph : SchemaGraph} {root : Schema}
    {compiled : CompiledSchema}
    (distinct : ∀ schema other id, root.Reaches graph schema → root.Reaches graph other →
      schema.id? = some id → other.id? = some id → schema = other)
    (ok : CompiledSchema.ofSchema compiler graph root = .ok compiled) :
    ∃ stands : Schema → ValidatorId → Prop, stands root compiled.root ∧
      (∀ schema other place, stands schema place → stands other place → schema = other) ∧
      (∀ schema, Relation.ReflTransGen (Schema.Needs graph) root schema →
        ∃ place, compiled.LeadsTo place ∧ stands schema place) ∧
      (∀ place, compiled.LeadsTo place → ∃ owner validator, stands owner place ∧
        compiled.table[place.index]? = some validator ∧
        ∀ node members, owner.IsRegular → node.value = .object members →
          (Members.keys members).Nodup →
          RoutesExactly compiler stands owner validator node members) ∧
      ∀ depth active place node found,
        evaluateWithin compiled.table depth active place node = .ok found →
        GivesOne compiled.table depth active place node found := by
  obtain ⟨changes, _, table, stood, filled, _, needed⟩ := CompiledSchema.ofSchema_filled distinct ok
  refine ⟨Compilation.Taken changes, stood, fun schema other place at_place at_place' => ?_, needed,
    fun place leads => ?_, fun depth active place node found => givesOne_evaluateWithin⟩
  · exact Option.some.inj (at_place.symm.trans at_place')
  obtain ⟨_, owner, location, checks, owned, at_place, compiles⟩ := filled place leads
  rw [← table] at at_place
  refine ⟨owner, _, owned, at_place, fun node members regular object distinct => ?_⟩
  obtain ⟨applies, answers, answered, runs⟩ := compiles.complies regular object
  refine ⟨Schema.nodup_asks regular distinct, fun ask => Schema.mem_asks regular distinct, applies,
    answers, answered, fun evaluate refer => ⟨runs evaluate refer, fun found ok => ?_⟩⟩
  obtain ⟨said, each, rfl⟩ := Check.together_ok ((runs evaluate refer).symm.trans ok)
  exact ⟨said, Check.forall₂_of_verdicts each, rfl⟩

/-! ### A violation below its member -/

namespace Nested

/-- A schema for texts. -/
def text : Schema :=
  .node ⟨2⟩ none .draft6 [(Builtin.type, .types [.string])]

/-- A schema with a property. -/
def inner : Schema :=
  .node ⟨1⟩ none .draft6 [(Builtin.properties, .schemaMap [("b", text)])]

/-- A schema with a property that has a property itself. -/
def root : Schema :=
  .node ⟨0⟩ none .draft6 [(Builtin.properties, .schemaMap [("a", inner)])]

/-- The graph of this schema. -/
def graph : SchemaGraph where
  handles := #[]
  nextNode := 3

/-- The members of an object with a member that has no text in it. -/
def members : List (String × Json) :=
  [("a", .object [("b", .null)])]

/-- The object. -/
def whole : InstanceNode :=
  .root (.object members)

theorem mem_of_reaches {schema : Schema} (reaches : root.Reaches graph schema) :
    schema ∈ [root, inner, text] := by
  have properties : Assertion.ofKey? Builtin.properties.key = some .properties := by decide
  have type : Assertion.ofKey? Builtin.type.key = some .type := by decide
  induction reaches with
  | refl => exact List.mem_cons_self
  | @tail owner schema _ step ih =>
    obtain ⟨use, keyword, assertion, value, ⟨mem, known⟩, listed⟩ := step
    simp only [List.mem_cons, List.not_mem_nil, or_false] at ih
    rcases ih with rfl | rfl | rfl <;> cases List.mem_singleton.1 mem
    · cases properties.symm.trans known
      cases List.mem_singleton.1 listed
      exact List.mem_cons_of_mem _ List.mem_cons_self
    · cases properties.symm.trans known
      cases List.mem_singleton.1 listed
      exact List.mem_cons_of_mem _ (List.mem_cons_of_mem _ List.mem_cons_self)
    · cases type.symm.trans known
      cases listed

theorem distinct {schema other : Schema} {id : SchemaId} (reaches : root.Reaches graph schema)
    (reaches' : root.Reaches graph other) (named : schema.id? = some id)
    (named' : other.id? = some id) : schema = other := by
  have mem := mem_of_reaches reaches
  have mem' := mem_of_reaches reaches'
  fin_cases mem <;> fin_cases mem' <;> cases named <;> first | rfl | cases named'

theorem isRegular : root.IsRegular where
  standard := by
    rintro keyword assertion value ⟨mem, known⟩
    cases List.mem_singleton.1 mem
    have properties : Assertion.ofKey? Builtin.properties.key = some .properties := by decide
    cases properties.symm.trans known
    rfl
  once := List.nodup_singleton _
  names := by
    intro keyword schemas mem
    cases List.mem_singleton.1 mem
    exact List.nodup_singleton _

end Nested

theorem nested_routes : ∃ compiled stands validator,
    CompiledSchema.ofSchema Loop.compiler Nested.graph Nested.root = .ok compiled ∧
    compiled.table[compiled.root.index]? = some validator ∧
    RoutesExactly Loop.compiler stands Nested.root validator Nested.whole Nested.members := by
  obtain ⟨compiled, ok⟩ : ∃ compiled,
      CompiledSchema.ofSchema Loop.compiler Nested.graph Nested.root = .ok compiled := ⟨_, rfl⟩
  obtain ⟨stands, stood, single, -, routes, -⟩ :=
    CompiledSchema.ofSchema_routes (fun _ _ _ => Nested.distinct) ok
  obtain ⟨owner, validator, owned, at_place, exact⟩ := routes compiled.root .root
  obtain rfl := single _ _ _ owned stood
  exact ⟨compiled, stands, validator, ok, at_place,
    exact Nested.whole Nested.members Nested.isRegular rfl (by decide)⟩

/-- The one violation of a member may stand below the member. -/
theorem nested_below : ∃ compiled check v,
    CompiledSchema.ofSchema Loop.compiler Nested.graph Nested.root = .ok compiled ∧
    check ∈ compiled.validator.routing ∧
    check.run (evaluateWithin compiled.table 3 []) (evaluateWithin compiled.table 3 [])
      Nested.whole = .ok [v] ∧
    v.pointer = "#/a/b" ∧
    ∀ name value, (name, value) ∈ Nested.members →
      v.pointer ≠ (Nested.whole.child name value).pointer := by
  refine ⟨_, _, _, rfl, List.mem_singleton_self _, rfl, by decide, fun name value mem => ?_⟩
  cases List.mem_singleton.1 mem
  decide

end JsonSchema
