import JsonSchema.Proofs.Run
import JsonSchema.Proofs.Verdict

/-!
# Compiled checks

Compiling a keyword gives a rule that decides what the keyword demands (`ruleOf_decided`), and
compiling a schema fills a table in which every place stands for a schema and decides it
(`ofSchema_represents`). What the rule of a keyword decides is said over any evaluation of the
schemas that it goes on to (`Follows`), so nothing in here depends on how cyclic schemas are
evaluated.

A `Stage` is a table in the making, with the schemas that its places stand for. Places without
checks are open; they are the schemas that are being compiled.
-/

namespace JsonSchema

/-! ## Types of values -/

namespace Json

variable {v : Json} {type : InstanceType}

theorem exists_string (typed : v.instanceType? = some type)
    (applies : type.admittedBy [.string] = true) : ∃ text, v = .string text := by
  cases v with
  | string text => exact ⟨text, rfl⟩
  | number n =>
    simp only [instanceType?, Option.some.injEq] at typed
    subst typed
    split at applies <;> simp [InstanceType.admittedBy] at applies
  | _ => cases typed <;> simp [InstanceType.admittedBy] at applies

theorem exists_array (typed : v.instanceType? = some type)
    (applies : type.admittedBy [.array] = true) : ∃ items, v = .array items := by
  cases v with
  | array items => exact ⟨items, rfl⟩
  | number n =>
    simp only [instanceType?, Option.some.injEq] at typed
    subst typed
    split at applies <;> simp [InstanceType.admittedBy] at applies
  | _ => cases typed <;> simp [InstanceType.admittedBy] at applies

theorem exists_object (typed : v.instanceType? = some type)
    (applies : type.admittedBy [.object] = true) : ∃ members, v = .object members := by
  cases v with
  | object members => exact ⟨members, rfl⟩
  | number n =>
    simp only [instanceType?, Option.some.injEq] at typed
    subst typed
    split at applies <;> simp [InstanceType.admittedBy] at applies
  | _ => cases typed <;> simp [InstanceType.admittedBy] at applies

theorem exists_number (typed : v.instanceType? = some type)
    (applies : type.admittedBy Builtin.numeric = true) : ∃ n, v = .number n := by
  cases v with
  | number n => exact ⟨n, rfl⟩
  | _ => cases typed <;> simp [InstanceType.admittedBy, Builtin.numeric] at applies

end Json

/-! ### Demands on values of one type -/

section Typed

variable {verdict : Verdict} {v : Json}

theorem Settles.string {text : String} (h : v = .string text) {P : String → Prop}
    (settles : Settles verdict (P text)) :
    Settles verdict (∀ text', v = .string text' → P text') := by
  subst h
  exact settles.congr (by simp)

theorem Settles.array {items : List Json} (h : v = .array items) {P : List Json → Prop}
    (settles : Settles verdict (P items)) :
    Settles verdict (∀ items', v = .array items' → P items') := by
  subst h
  exact settles.congr (by simp)

theorem Settles.object {members : List (String × Json)} (h : v = .object members)
    {P : List (String × Json) → Prop} (settles : Settles verdict (P members)) :
    Settles verdict (∀ members', v = .object members' → P members') := by
  subst h
  exact settles.congr (by simp)

theorem Settles.number {n : Number} (h : v = .number n) {P : Number → Prop}
    (settles : Settles verdict (P n)) : Settles verdict (∀ n', v = .number n' → P n') := by
  subst h
  exact settles.congr (by simp)

end Typed

namespace Check

variable {check : Check} {node : InstanceNode}

theorem settles_onItems {items : List Json} (array : node.value = .array items)
    {run : List Json → Verdict} {P : List Json → Prop} (h : Settles (run items) (P items)) :
    Settles (check.onItems node run) (∀ items', node.value = .array items' → P items') := by
  refine Settles.array array ?_
  unfold onItems
  rw [array]
  exact h

theorem settles_onMembers {members : List (String × Json)} (object : node.value = .object members)
    {run : List (String × Json) → Verdict} {P : List (String × Json) → Prop}
    (h : Settles (run members) (P members)) :
    Settles (check.onMembers node run)
      (∀ members', node.value = .object members' → P members') := by
  refine Settles.object object ?_
  unfold onMembers
  rw [object]
  exact h

theorem settles_onText {text : String} (string : node.value = .string text)
    {run : String → Verdict} {P : String → Prop} (h : Settles (run text) (P text)) :
    Settles (check.onText node run) (∀ text', node.value = .string text' → P text') := by
  refine Settles.string string ?_
  unfold onText
  rw [string]
  exact h

end Check

/-! ## Rules -/

/-- An evaluation of the schemas that a schema uses, at a value: each place of the table settles the
verdict on the schema that it stands for. -/
structure Follows (graph : SchemaGraph) (stands : List Schema)
    (accepts : Use → Schema → Json → Prop) (owner : Schema) (evaluate refer : Evaluator)
    (node : InstanceNode) : Prop where
  here : ∀ use schema (id : ValidatorId), owner.Uses graph use schema → use ≠ .inside →
    use ≠ .target → stands[id.index]? = some schema →
    Settles (evaluate id node) (accepts use schema node.value)
  target : ∀ schema (id : ValidatorId), owner.Uses graph .target schema →
    stands[id.index]? = some schema → Settles (refer id node) (accepts .target schema node.value)
  inside : ∀ schema (id : ValidatorId) segment inner, owner.Uses graph .inside schema →
    stands[id.index]? = some schema → inner.IsProper → inner.IsInside node.value →
    Settles (evaluate id (node.child segment inner)) (accepts .inside schema inner)
  compares : ∀ n, node.value = .number n → owner.Compares n
  valid : ∀ use schema v, schema.isAlwaysValid = true → accepts use schema v
  invalid : ∀ schema v, schema.isAlwaysInvalid = true → v.IsProper → ¬ accepts .inside schema v

/-- A rule decides what a keyword demands; no rule is needed for what always holds. -/
def Computes (compiler : Compiler) (graph : SchemaGraph) (stands : List Schema) (owner : Schema)
    (assertion : Assertion) (value : KeywordValue) (rule : Option Rule) : Prop :=
  ∀ (keyword : Keyword) (place : String) (evaluate refer : Evaluator)
    (accepts : Use → Schema → Json → Prop) (node : InstanceNode) (type : InstanceType),
    keyword.key = assertion.keyword.key → node.value.IsProper →
    node.value.instanceType? = some type → assertion.keyword.appliesToType type = true →
    Follows graph stands accepts owner evaluate refer node →
    match rule with
    | some rule =>
      Settles (Check.run evaluate refer { keyword := some keyword, location := place, rule } node)
        (Meaning.Holds compiler graph accepts owner node.value assertion value)
    | none => Meaning.Holds compiler graph accepts owner node.value assertion value

section Rules

variable {compiler : Compiler} {graph : SchemaGraph} {stands : List Schema} {owner : Schema}
  {assertion : Assertion}

/-- The keywords that are violated by themselves, and not only below them, have a code. -/
theorem hasCode {keyword : Keyword} {place : String} {rule : Rule}
    (key : keyword.key = assertion.keyword.key) (single : assertion ≠ .properties)
    (several : assertion ≠ .patternProperties) :
    Check.HasCode { keyword := some keyword, location := place, rule } := by
  unfold Check.HasCode Check.key
  simp only [Option.map_some, Option.getD_some, key]
  cases assertion with
  | properties => exact absurd rfl single
  | patternProperties => exact absurd rfl several
  | _ => rfl

theorem exists_type {v : Json} {type : InstanceType} (typed : v.instanceType? = some type)
    (P : InstanceType → Prop) : (∃ type', v.instanceType? = some type' ∧ P type') ↔ P type := by
  rw [typed]
  simp

theorem computes_types {types : List InstanceType} :
    Computes compiler graph stands owner .type (.types types) (some (.type types)) := by
  intro keyword place evaluate refer accepts node type key proper typed applies follows
  refine (Check.settles_type (hasCode key nofun nofun) typed types id
    (fun found => .wrongType types found.name)).congr ?_
  exact (exists_type typed fun type => type.admittedBy types = true).symm

theorem computes_disallow {types : List InstanceType} :
    Computes compiler graph stands owner .disallow (.types types) (some (.disallow types)) := by
  intro keyword place evaluate refer accepts node type key proper typed applies follows
  refine (Check.settles_type (hasCode key nofun nofun) typed types (!·)
    (fun found => .disallowedType found.name)).congr ?_
  rw [Bool.not_eq_true']
  exact (exists_type typed fun type => type.admittedBy types = false).symm

theorem computes_enum {values : List Json} :
    Computes compiler graph stands owner .enum (.jsonArray values) (some (.enum values)) := by
  intro keyword place evaluate refer accepts node type key proper typed applies follows
  refine (Check.settles_demand (hasCode key nofun nofun) _ _).congr ?_
  exact List.any_eq_true

theorem computes_enum_names {names : List String} :
    Computes compiler graph stands owner .enum (.stringSet names)
      (some (.enum (names.map .string))) := by
  intro keyword place evaluate refer accepts node type key proper typed applies follows
  refine (Check.settles_demand (hasCode key nofun nofun) _ _).congr ?_
  rw [List.any_map, List.any_eq_true]
  refine exists_congr (fun name => and_congr_right (fun _ => ?_))
  cases node.value <;> simp [Json.equals]

theorem computes_const {kind : LiteralKind} {constant : Json} :
    Computes compiler graph stands owner .const (.literal kind constant)
      (some (.const constant)) := by
  intro keyword place evaluate refer accepts node type key proper typed applies follows
  exact (Check.settles_demand (hasCode key nofun nofun) _ _).congr Iff.rfl

/-! ### Schemas for the same value -/

/-- The verdicts on the schemas of a list at the same value. -/
theorem Follows.list {accepts : Use → Schema → Json → Prop} {evaluate refer : Evaluator}
    {node : InstanceNode} (follows : Follows graph stands accepts owner evaluate refer node)
    {use : Use} {schemas : List Schema} {ids : List ValidatorId}
    (used : ∀ schema ∈ schemas, owner.Uses graph use schema) (inside : use ≠ .inside)
    (target : use ≠ .target)
    (h : List.Forall₂ (fun schema (id : ValidatorId) => stands[id.index]? = some schema)
      schemas ids) :
    List.Forall₂ (fun schema id => Settles (evaluate id node) (accepts use schema node.value))
      schemas ids := by
  have known : List.Forall₂ (fun schema (id : ValidatorId) => schema ∈ schemas ∧
      stands[id.index]? = some schema) schemas ids := by
    rw [List.forall₂_and_left]
    exact ⟨fun schema mem => mem, h⟩
  refine known.imp (fun schema id hk => ?_)
  exact follows.here use schema id (used schema hk.1) inside target hk.2

section Lists

variable {schemas : List Schema} {ids : List ValidatorId}

theorem computes_all (kind : assertion = .allOf ∨ assertion = .extending)
    (used : ∀ schema ∈ schemas, owner.Uses graph .beside schema)
    (h : List.Forall₂ (fun schema (id : ValidatorId) => stands[id.index]? = some schema)
      schemas ids) :
    Computes compiler graph stands owner assertion (.schemaList schemas) (some (.allOf ids)) := by
  rcases kind with rfl | rfl
  all_goals
    intro keyword place evaluate refer accepts node type key proper typed applies follows
    exact Check.settles_all (hasCode key nofun nofun)
      (follows.list used nofun nofun h)

theorem computes_any (used : ∀ schema ∈ schemas, owner.Uses graph .beside schema)
    (h : List.Forall₂ (fun schema (id : ValidatorId) => stands[id.index]? = some schema)
      schemas ids) :
    Computes compiler graph stands owner .anyOf (.schemaList schemas) (some (.anyOf ids)) := by
  intro keyword place evaluate refer accepts node type key proper typed applies follows
  exact Check.settles_any (hasCode key nofun nofun) (follows.list used nofun nofun h)

theorem computes_one (used : ∀ schema ∈ schemas, owner.Uses graph .judged schema)
    (h : List.Forall₂ (fun schema (id : ValidatorId) => stands[id.index]? = some schema)
      schemas ids) :
    Computes compiler graph stands owner .oneOf (.schemaList schemas) (some (.oneOf ids)) := by
  intro keyword place evaluate refer accepts node type key proper typed applies follows
  exact Check.settles_one (hasCode key nofun nofun) (follows.list used nofun nofun h)

end Lists

section Single

variable {schema : Schema} {id : ValidatorId}

theorem computes_not (used : owner.Uses graph .judged schema)
    (h : stands[id.index]? = some schema) :
    Computes compiler graph stands owner .not (.schema schema) (some (.not id)) := by
  intro keyword place evaluate refer accepts node type key proper typed applies follows
  exact Check.settles_not (hasCode key nofun nofun)
    (follows.here .judged schema id used nofun nofun h)

theorem computes_ref {ref uri : String} {target : HandleId}
    (used : owner.Uses graph .target schema) (bound : graph.schema? target = some schema)
    (h : stands[id.index]? = some schema) :
    Computes compiler graph stands owner .ref (.reference ref uri target)
      (some (.reference id)) := by
  intro keyword place evaluate refer accepts node type key proper typed applies follows
  refine (follows.target schema id used h).congr ?_
  constructor
  · exact fun accepted => ⟨schema, bound, accepted⟩
  · rintro ⟨other, bound', accepted⟩
    rw [bound] at bound'
    cases bound'
    exact accepted

end Single

/-! ### Numbers and texts -/

theorem computes_multiple (kind : assertion = .multipleOf ∨ assertion = .divisibleBy)
    {literal : LiteralKind} {divisor : Number} {r : Rat} (hd : divisor.fraction = .ok r)
    (nonzero : r ≠ 0) :
    Computes compiler graph stands owner assertion (.literal literal (.number divisor))
      (some (.multipleOf (.number divisor) r)) := by
  rcases kind with rfl | rfl
  all_goals
    intro keyword place evaluate refer accepts node type key proper typed applies follows
    obtain ⟨n, number⟩ := Json.exists_number typed applies
    exact Settles.number number
      (Check.settles_multiple (hasCode key nofun nofun) number hd nonzero)

theorem computes_minimum {limit : Limit} (numeric : limit.IsNumeric) {keyword : Keyword}
    (mem : (keyword, .limit limit) ∈ owner.keywords) :
    Computes compiler graph stands owner .minimum (.limit limit) (some (.minimum limit)) := by
  intro keyword place evaluate refer accepts node type key proper typed applies follows
  obtain ⟨n, number⟩ := Json.exists_number typed applies
  exact Settles.number number (Check.settles_limit (hasCode key nofun nofun) numeric
    (follows.compares n number _ limit mem) number _)

theorem computes_maximum {limit : Limit} (numeric : limit.IsNumeric) {keyword : Keyword}
    (mem : (keyword, .limit limit) ∈ owner.keywords) :
    Computes compiler graph stands owner .maximum (.limit limit) (some (.maximum limit)) := by
  intro keyword place evaluate refer accepts node type key proper typed applies follows
  obtain ⟨n, number⟩ := Json.exists_number typed applies
  exact Settles.number number (Check.settles_limit (hasCode key nofun nofun) numeric
    (follows.compares n number _ limit mem) number _)

section Counts

variable {kind : LiteralKind} {n : Number} {bound : Int}

theorem counts_iff (h : n.truncate? = some bound) (D : Int → Prop) :
    D bound ↔ (KeywordValue.literal kind (.number n)).Counts D := by
  change D bound ↔ ∀ bound, n.truncate? = some bound → D bound
  rw [h]
  simp

theorem computes_minLength (h : n.truncate? = some bound) :
    Computes compiler graph stands owner .minLength (.literal kind (.number n))
      (some (.minLength bound)) := by
  intro keyword place evaluate refer accepts node type key proper typed applies follows
  obtain ⟨text, string⟩ := Json.exists_string typed applies
  have length : Check.lengthOf? node.value = some text.length := by
    rw [string]
    rfl
  exact Settles.string string ((Check.settles_least (hasCode key nofun nofun) length bound _).congr
    (counts_iff h (· ≤ (text.length : Int))))

theorem computes_maxLength (h : n.truncate? = some bound) :
    Computes compiler graph stands owner .maxLength (.literal kind (.number n))
      (some (.maxLength bound)) := by
  intro keyword place evaluate refer accepts node type key proper typed applies follows
  obtain ⟨text, string⟩ := Json.exists_string typed applies
  have length : Check.lengthOf? node.value = some text.length := by
    rw [string]
    rfl
  exact Settles.string string ((Check.settles_most (hasCode key nofun nofun) length bound _).congr
    (counts_iff h ((text.length : Int) ≤ ·)))

theorem computes_minItems (h : n.truncate? = some bound) :
    Computes compiler graph stands owner .minItems (.literal kind (.number n))
      (some (.minItems bound)) := by
  intro keyword place evaluate refer accepts node type key proper typed applies follows
  obtain ⟨items, array⟩ := Json.exists_array typed applies
  have length : Check.lengthOf? node.value = some items.length := by
    rw [array]
    rfl
  exact Settles.array array ((Check.settles_least (hasCode key nofun nofun) length bound _).congr
    (counts_iff h (· ≤ (items.length : Int))))

theorem computes_maxItems (h : n.truncate? = some bound) :
    Computes compiler graph stands owner .maxItems (.literal kind (.number n))
      (some (.maxItems bound)) := by
  intro keyword place evaluate refer accepts node type key proper typed applies follows
  obtain ⟨items, array⟩ := Json.exists_array typed applies
  have length : Check.lengthOf? node.value = some items.length := by
    rw [array]
    rfl
  exact Settles.array array ((Check.settles_most (hasCode key nofun nofun) length bound _).congr
    (counts_iff h ((items.length : Int) ≤ ·)))

theorem computes_minProperties (h : n.truncate? = some bound) :
    Computes compiler graph stands owner .minProperties (.literal kind (.number n))
      (some (.minProperties bound)) := by
  intro keyword place evaluate refer accepts node type key proper typed applies follows
  obtain ⟨members, object⟩ := Json.exists_object typed applies
  have length : Check.lengthOf? node.value = some members.length := by
    rw [object]
    rfl
  exact Settles.object object ((Check.settles_least (hasCode key nofun nofun) length bound _).congr
    (counts_iff h (· ≤ (members.length : Int))))

theorem computes_maxProperties (h : n.truncate? = some bound) :
    Computes compiler graph stands owner .maxProperties (.literal kind (.number n))
      (some (.maxProperties bound)) := by
  intro keyword place evaluate refer accepts node type key proper typed applies follows
  obtain ⟨members, object⟩ := Json.exists_object typed applies
  have length : Check.lengthOf? node.value = some members.length := by
    rw [object]
    rfl
  exact Settles.object object ((Check.settles_most (hasCode key nofun nofun) length bound _).congr
    (counts_iff h ((members.length : Int) ≤ ·)))

end Counts

theorem computes_pattern {kind : LiteralKind} {pattern : String} {search : String → Bool}
    (h : compiler.search pattern = .ok search) :
    Computes compiler graph stands owner .pattern (.literal kind (.string pattern))
      (some (.pattern pattern search)) := by
  intro keyword place evaluate refer accepts node type key proper typed applies follows
  obtain ⟨text, string⟩ := Json.exists_string typed applies
  have settles : Settles
      (Check.demand { keyword := some keyword, location := place, rule := .pattern pattern search }
        node (search text) (.patternUnmatched text pattern))
      (∀ search', compiler.search pattern = .ok search' → search' text = true) := by
    refine (Check.settles_demand (hasCode key nofun nofun) _ _).congr ?_
    rw [h]
    simp
  refine (Check.settles_onText string (P := fun text => ∀ search',
    compiler.search pattern = .ok search' → search' text = true) settles).congr ?_
  exact ⟨fun all text search string => all text string search,
    fun all text string search => all text search string⟩

/-- The tests of formats do not fail. -/
def Compiler.IsTotal (compiler : Compiler) : Prop :=
  ∀ name test, compiler.formats.lookup name = some test → ∀ text, ∃ found, test text = .ok found

theorem computes_format (total : compiler.IsTotal) {kind : LiteralKind} {name : String} :
    Computes compiler graph stands owner .format (.literal kind (.string name))
      ((compiler.formats.lookup name).map (.format name)) := by
  intro keyword place evaluate refer accepts node type key proper typed applies follows
  obtain ⟨text, string⟩ := Json.exists_string typed applies
  cases known : compiler.formats.lookup name with
  | none =>
    intro text' test string' known'
    rw [known] at known'
    cases known'
  | some test =>
    obtain ⟨found, ok⟩ := total name test known text
    have settles : Settles (do
        Check.demand { keyword := some keyword, location := place, rule := .format name test } node
          (← test text) (.wrongFormat text name))
        (test text = .ok true) := by
      rw [ok]
      refine (Check.settles_demand (hasCode key nofun nofun) found _).congr ?_
      rw [Except.ok.injEq]
    refine (Check.settles_onText string (P := fun text => test text = .ok true) settles).congr ?_
    constructor
    · intro all text test' string' known'
      rw [known] at known'
      cases known'
      exact all text string'
    · exact fun all text string' => all text test string' known

/-! ### Items -/

section Items

variable {accepts : Use → Schema → Json → Prop} {evaluate refer : Evaluator} {node : InstanceNode}

/-- The verdicts on the schemas of a list at the items of an array. -/
theorem Follows.item (follows : Follows graph stands accepts owner evaluate refer node)
    {items : List Json} (array : node.value = .array items) (proper : node.value.IsProper)
    {schema : Schema} {id : ValidatorId} (used : owner.Uses graph .inside schema)
    (h : stands[id.index]? = some schema) (position : Nat) :
    ∀ item ∈ items, Settles (evaluate id (node.item position item))
      (accepts .inside schema item) := by
  intro item mem
  rw [array] at proper
  refine follows.inside schema id (toString position) item used h (proper.item mem) ?_
  rw [array]
  exact .item mem

/-- The additional schema of `items` as it is compiled: left out if it accepts nothing. -/
def StandsForAdditional (stands : List Schema) (additional : Option Schema)
    (more : Option ValidatorId) : Prop :=
  ∀ schema, additional = some schema → schema.isAlwaysInvalid = false →
    ∃ id : ValidatorId, more = some id ∧ stands[id.index]? = some schema

theorem computes_items {form : ItemsForm} {additional : Option Schema} {every : Option ValidatorId}
    {each : Option (List ValidatorId)} {more : Option ValidatorId} (place : String)
    (used : ∀ schema ∈ form.schemas ++ additional.toList, owner.Uses graph .inside schema)
    (hevery : ∀ schema, form = .every schema → each = none ∧
      ∃ id : ValidatorId, every = some id ∧ stands[id.index]? = some schema)
    (heach : ∀ schemas, form = .each schemas → ∃ ids, each = some ids ∧
      List.Forall₂ (fun schema (id : ValidatorId) => stands[id.index]? = some schema) schemas ids)
    (habsent : form = .absent → each = none ∧ every = none)
    (hmore : StandsForAdditional stands additional more)
    (none_more : additional = none → more = none) :
    Computes compiler graph stands owner .items (.items form additional)
      (some (.items every each more ((additional.map (·.isAlwaysInvalid)).getD false) place)) := by
  intro keyword location evaluate refer accepts node type key proper typed applies follows
  obtain ⟨items, array⟩ := Json.exists_array typed applies
  refine Check.settles_onItems array (P := fun items => form.Holds accepts additional items) ?_
  cases form with
  | absent =>
    obtain ⟨rfl, rfl⟩ := habsent rfl
    exact settles_nil trivial
  | every schema =>
    obtain ⟨rfl, id, rfl, h⟩ := hevery schema rfl
    exact Check.settles_every
      (follows.item array proper (used schema (by simp [ItemsForm.schemas])) h)
  | each schemas =>
    obtain ⟨ids, rfl, h⟩ := heach schemas rfl
    have listed : List.Forall₂ (fun schema (id : ValidatorId) => schema ∈ schemas ∧
        stands[id.index]? = some schema) schemas ids := by
      rw [List.forall₂_and_left]
      exact ⟨fun schema mem => mem, h⟩
    have settles := listed.imp (fun schema id known =>
      follows.item array proper (used schema (List.mem_append_left _ known.1)) known.2)
    refine Check.settles_each (P := accepts .inside) settles place ?_ ?_
    · intro forbid
      cases additional with
      | none => simp at forbid
      | some schema =>
        refine ⟨schema, rfl, fun item mem => ?_⟩
        rw [array] at proper
        exact follows.invalid schema item (by simpa using forbid) (proper.item mem)
    · intro allow
      cases additional with
      | none => exact .inl ⟨rfl, none_more rfl⟩
      | some schema =>
        obtain ⟨id, rfl, stood⟩ := hmore schema rfl (by simpa using allow)
        exact .inr ⟨schema, id, rfl, rfl,
          follows.item array proper (used schema (by simp)) stood⟩

theorem computes_unique {kind : LiteralKind} {flag : Json} :
    Computes compiler graph stands owner .uniqueItems (.literal kind flag)
      (if flag.isTruthy then some .uniqueItems else none) := by
  intro keyword place evaluate refer accepts node type key proper typed applies follows
  obtain ⟨items, array⟩ := Json.exists_array typed applies
  rw [array] at proper
  cases truthy : flag.isTruthy with
  | false =>
    intro truthy'
    rw [truthy] at truthy'
    cases truthy'
  | true =>
    refine Settles.congr (Check.settles_onItems array
      (P := fun items => items.Pairwise fun x y => x.equals y = false)
      (Check.settles_unique (hasCode key nofun nofun) (fun item => proper.item))) ?_
    exact ⟨fun all _ => all, fun all => all truthy⟩

theorem computes_contains {schema : Schema} {id : ValidatorId}
    (used : owner.Uses graph .inside schema) (h : stands[id.index]? = some schema) :
    Computes compiler graph stands owner .contains (.schema schema) (some (.contains id)) := by
  intro keyword place evaluate refer accepts node type key proper typed applies follows
  obtain ⟨items, array⟩ := Json.exists_array typed applies
  exact Check.settles_onItems array
    (Check.settles_contains (hasCode key nofun nofun) (follows.item array proper used h))

end Items

/-! ### Members -/

section Members

variable {accepts : Use → Schema → Json → Prop} {evaluate refer : Evaluator} {node : InstanceNode}

/-- The verdict on a schema at a member of an object. -/
theorem Follows.member (follows : Follows graph stands accepts owner evaluate refer node)
    {members : List (String × Json)} (object : node.value = .object members)
    (proper : node.value.IsProper) {schema : Schema} {id : ValidatorId}
    (used : owner.Uses graph .inside schema) (h : stands[id.index]? = some schema)
    {name : String} {inner : Json} (mem : (name, inner) ∈ members) :
    Settles (evaluate id (node.child name inner)) (accepts .inside schema inner) := by
  rw [object] at proper
  refine follows.inside schema id name inner used h (proper.member mem) ?_
  rw [object]
  exact .member mem

variable {schemas : List (String × Schema)} {ids : List (String × ValidatorId)}

/-- A compiled map of schemas: the same names, and places that stand for the schemas. -/
def StandForMap (stands : List Schema) (schemas : List (String × Schema))
    (ids : List (String × ValidatorId)) : Prop :=
  List.Forall₂ (fun entry entry' => entry'.1 = entry.1 ∧
    stands[entry'.2.index]? = some entry.2) schemas ids

theorem forall₂_comp {α β γ : Type} {R : α → β → Prop} {S : β → γ → Prop} {xs : List α}
    {ys : List β} {zs : List γ} (h : List.Forall₂ R xs ys) (h' : List.Forall₂ S ys zs) :
    List.Forall₂ (fun x z => ∃ y, R x y ∧ S y z) xs zs := by
  induction h generalizing zs with
  | nil =>
    cases h'
    exact .nil
  | @cons x y xs ys first rest ih =>
    cases h' with
    | cons second others => exact .cons ⟨y, first, second⟩ (ih others)

/-- The verdicts on the schemas of a map at the members of an object. -/
theorem Follows.map (follows : Follows graph stands accepts owner evaluate refer node)
    {members : List (String × Json)} (object : node.value = .object members)
    (proper : node.value.IsProper)
    (used : ∀ entry ∈ schemas, owner.Uses graph .inside entry.2)
    (h : StandForMap stands schemas ids) :
    List.Forall₂ (fun entry entry' => entry'.1 = entry.1 ∧
      ∀ name inner, (name, inner) ∈ members →
        Settles (evaluate entry'.2 (node.child name inner)) (accepts .inside entry.2 inner))
      schemas ids := by
  have known : List.Forall₂ (fun entry (entry' : String × ValidatorId) => entry ∈ schemas ∧
      entry'.1 = entry.1 ∧ stands[entry'.2.index]? = some entry.2) schemas ids := by
    rw [List.forall₂_and_left]
    exact ⟨fun entry mem => mem, h⟩
  refine known.imp (fun entry entry' hk => ⟨hk.2.1, fun name inner mem => ?_⟩)
  exact follows.member object proper (used entry hk.1) hk.2.2 mem

theorem computes_properties (place : String)
    (used : ∀ entry ∈ schemas, owner.Uses graph .inside entry.2)
    (h : StandForMap stands schemas ids) :
    Computes compiler graph stands owner .properties (.schemaMap schemas)
      (some (.properties ids (Compile.flaggedNames schemas place))) := by
  intro keyword location evaluate refer accepts node type key proper typed applies follows
  obtain ⟨members, object⟩ := Json.exists_object typed applies
  refine Check.settles_onMembers object ?_
  have settles := (follows.map object proper used h).imp
    (fun entry entry' hs => And.intro hs.1 (fun inner => hs.2 entry.1 inner))
  exact Check.settles_properties place settles

theorem computes_patterns {searches : List ((String → Bool) × ValidatorId)}
    (used : ∀ entry ∈ schemas, owner.Uses graph .inside entry.2)
    (h : StandForMap stands schemas ids)
    (compiled : List.Forall₂ (fun entry entry' => compiler.search entry.1 = .ok entry'.1 ∧
      entry'.2 = entry.2) ids searches) :
    Computes compiler graph stands owner .patternProperties (.schemaMap schemas)
      (some (.patternProperties searches)) := by
  intro keyword location evaluate refer accepts node type key proper typed applies follows
  obtain ⟨members, object⟩ := Json.exists_object typed applies
  refine Check.settles_onMembers object ?_
  have settles : List.Forall₂ (fun entry entry' => compiler.search entry.1 = .ok entry'.1 ∧
      ∀ name inner, (name, inner) ∈ members →
        Settles (evaluate entry'.2 (node.child name inner)) (accepts .inside entry.2 inner))
      schemas searches := by
    refine (forall₂_comp (follows.map object proper used h) compiled).imp ?_
    rintro entry entry'' ⟨entry', ⟨name, settles⟩, search, id⟩
    rw [id, ← name]
    exact ⟨search, settles⟩
  exact Check.settles_patterns settles

theorem computes_additional {schema : Schema} {id : ValidatorId}
    {searches : List (String → Bool)} (used : owner.Uses graph .inside schema)
    (h : stands[id.index]? = some schema)
    (compiled : List.Forall₂ (fun pattern search => compiler.search pattern = .ok search)
      (Compile.namesUnder owner Builtin.patternProperties) searches) :
    Computes compiler graph stands owner .additionalProperties (.schema schema)
      (some (.additionalProperties id schema.isAlwaysInvalid
        (Compile.namesUnder owner Builtin.properties) searches)) := by
  intro keyword location evaluate refer accepts node type key proper typed applies follows
  obtain ⟨members, object⟩ := Json.exists_object typed applies
  refine Check.settles_onMembers object ?_
  have proper_object := proper
  rw [object] at proper_object
  refine Check.settles_additional (Q := accepts .inside schema) (hasCode key nofun nofun)
    compiled ?_ ?_
  · intro invalid name inner mem
    exact follows.invalid schema inner invalid (proper_object.member mem)
  · intro valid name inner mem
    exact follows.member object proper used h mem

/-- No rule is needed for additional properties that may be anything. -/
theorem computes_additional_anything {schema : Schema} (valid : schema.isAlwaysValid = true) :
    Computes compiler graph stands owner .additionalProperties (.schema schema) none := by
  intro keyword location evaluate refer accepts node type key proper typed applies follows members
    object name inner mem undeclared unmatched
  exact follows.valid .inside schema inner valid

theorem computes_required {names : List String} :
    Computes compiler graph stands owner .required (.stringSet names)
      (some (.required names)) := by
  intro keyword location evaluate refer accepts node type key proper typed applies follows
  obtain ⟨members, object⟩ := Json.exists_object typed applies
  refine Check.settles_onMembers object ?_
  exact Check.settles_required (hasCode key nofun nofun) names

theorem computes_names {schema : Schema} {id : ValidatorId}
    (used : owner.Uses graph .inside schema) (h : stands[id.index]? = some schema) :
    Computes compiler graph stands owner .propertyNames (.schema schema)
      (some (.propertyNames id)) := by
  intro keyword location evaluate refer accepts node type key proper typed applies follows
  obtain ⟨members, object⟩ := Json.exists_object typed applies
  refine Check.settles_onMembers object ?_
  refine Check.settles_names (Q := accepts .inside schema) (hasCode key nofun nofun)
    (fun name inner mem => ?_)
  refine follows.inside schema id name (.string name) used h (Json.isProper_string name) ?_
  rw [object]
  exact .name mem

theorem computes_dependencies (names : List (String × List String))
    (used : ∀ entry ∈ schemas, owner.Uses graph .beside entry.2)
    (h : StandForMap stands schemas ids) :
    Computes compiler graph stands owner .dependencies (.dependencies names schemas)
      (some (.dependencies names ids)) := by
  intro keyword location evaluate refer accepts node type key proper typed applies follows
  obtain ⟨members, object⟩ := Json.exists_object typed applies
  have known : List.Forall₂ (fun entry (entry' : String × ValidatorId) => entry ∈ schemas ∧
      entry'.1 = entry.1 ∧ stands[entry'.2.index]? = some entry.2) schemas ids := by
    rw [List.forall₂_and_left]
    exact ⟨fun entry mem => mem, h⟩
  have settles : List.Forall₂ (fun entry entry' => entry'.1 = entry.1 ∧
      Settles (evaluate entry'.2 node) (accepts .beside entry.2 node.value)) schemas ids := by
    refine known.imp (fun entry entry' hk => ⟨hk.2.1, ?_⟩)
    exact follows.here .beside entry.2 entry'.2 (used entry hk.1) nofun nofun hk.2.2
  refine Check.settles_onMembers object ?_
  exact Check.settles_dependencies (Q := fun schema => accepts .beside schema node.value)
    (hasCode key nofun nofun) names settles

end Members

end Rules

/-! ## Stages -/

/-- The schemas of a graph as far as compiling relies on them: they are closed under use, their
keywords hold what they should, and no two nodes have one identity. -/
structure Orderly (graph : SchemaGraph) (member : Schema → Prop) : Prop where
  closed : ∀ owner, member owner → ∀ use schema, owner.Uses graph use schema → member schema
  typed : ∀ schema, member schema → schema.IsTyped
  distinct : ∀ schema other id, member schema → member other → schema.id? = some id →
    other.id? = some id → schema = other

/-- The schemas that an assertion uses have a place, unless they accept every value inside or none,
and then need none. -/
def Placed (stands : List Schema) (use : Use) (schema : Schema) : Prop :=
  schema ∈ stands ∨ use = .inside ∧ (schema.isAlwaysValid = true ∨ schema.isAlwaysInvalid = true)

/-- A list of checks decides what a schema demands. -/
structure Judges (compiler : Compiler) (graph : SchemaGraph) (stands : List Schema)
    (schema : Schema) (checks : List Check) : Prop where
  settles : ∀ (location : String) (evaluate refer : Evaluator)
    (accepts : Use → Schema → Json → Prop) (node : InstanceNode), node.value.IsProper →
    Follows graph stands accepts schema evaluate refer node →
    Settles (Validator.evaluateWith evaluate refer { location, checks := some checks } node)
      (schema.Meets compiler graph accepts node.value)
  placed : schema.isAlwaysInvalid = false → ∀ use used, schema.Uses graph use used →
    Placed stands use used

/-- A table in the making: every place stands for a schema, only the places of nodes are known, and
the places with checks decide their schemas. -/
structure Stage (compiler : Compiler) (graph : SchemaGraph) (member : Schema → Prop) where
  state : Compilation
  stands : List Schema
  size_eq : state.validators.size = stands.length
  members : ∀ schema ∈ stands, member schema
  known_stands : ∀ id (place : ValidatorId), state.known.lookup id = some place →
    ∃ schema, stands[place.index]? = some schema ∧ schema.id? = some id
  node_known : ∀ (i : Nat) schema id, stands[i]? = some schema → schema.id? = some id →
    state.known.lookup id = some ⟨i⟩
  judged : ∀ (i : Nat) schema validator checks, stands[i]? = some schema →
    state.validators[i]? = some validator → validator.checks = some checks →
    Judges compiler graph stands schema checks

namespace Stage

variable {compiler : Compiler} {graph : SchemaGraph} {member : Schema → Prop}

/-- A place that is still without checks. -/
def Open (w : Stage compiler graph member) (i : Nat) : Prop :=
  ∃ validator, w.state.validators[i]? = some validator ∧ validator.checks = none

/-- A stage is later than another one if it has more places and the same open ones. -/
instance : Preorder (Stage compiler graph member) where
  le w w' := w.stands <+: w'.stands ∧ ∀ i, w'.Open i ↔ w.Open i
  le_refl w := ⟨List.prefix_rfl, fun _ => Iff.rfl⟩
  le_trans _ _ _ h h' := ⟨h.1.trans h'.1, fun i => (h'.2 i).trans (h.2 i)⟩

end Stage

section Order

variable {compiler : Compiler} {graph : SchemaGraph} {stands stands' : List Schema} {owner : Schema}

theorem getElem?_mono {α : Type} {xs ys : List α} (h : xs <+: ys) {i : Nat} {x : α}
    (found : xs[i]? = some x) : ys[i]? = some x := by
  obtain ⟨more, rfl⟩ := h
  obtain ⟨bound, -⟩ := List.getElem?_eq_some_iff.1 found
  rw [List.getElem?_append_left bound]
  exact found

theorem Follows.anti (h : stands <+: stands') {accepts : Use → Schema → Json → Prop}
    {evaluate refer : Evaluator} {node : InstanceNode}
    (follows : Follows graph stands' accepts owner evaluate refer node) :
    Follows graph stands accepts owner evaluate refer node where
  here use schema id used inside target found :=
    follows.here use schema id used inside target (getElem?_mono h found)
  target schema id used found := follows.target schema id used (getElem?_mono h found)
  inside schema id segment inner used found :=
    follows.inside schema id segment inner used (getElem?_mono h found)
  compares := follows.compares
  valid := follows.valid
  invalid := follows.invalid

theorem Computes.mono (h : stands <+: stands') {assertion : Assertion} {value : KeywordValue}
    {rule : Option Rule} (computes : Computes compiler graph stands owner assertion value rule) :
    Computes compiler graph stands' owner assertion value rule := by
  intro keyword place evaluate refer accepts node type key proper typed applies follows
  exact computes keyword place evaluate refer accepts node type key proper typed applies
    (follows.anti h)

theorem Placed.mono (h : stands <+: stands') {use : Use} {schema : Schema}
    (placed : Placed stands use schema) : Placed stands' use schema :=
  placed.imp (fun mem => h.subset mem) id

theorem Judges.mono (h : stands <+: stands') {checks : List Check}
    (judges : Judges compiler graph stands owner checks) :
    Judges compiler graph stands' owner checks where
  settles location evaluate refer accepts node proper follows :=
    judges.settles location evaluate refer accepts node proper (follows.anti h)
  placed valid use used h' := (judges.placed valid use used h').mono h

end Order

/-! ## Compiling keywords -/

namespace Compile

variable {compiler : Compiler} {graph : SchemaGraph} {member : Schema → Prop}
  {w : Stage compiler graph member} {recur : SchemaCompiler}

/-- A run from a stage that ends in a later one with `Q`, if it does not stop with a fault. -/
abbrev Reaches {α : Type} (act : Compile α) (w : Stage compiler graph member)
    (Q : α → Stage compiler graph member → Prop) : Prop :=
  After Stage.state Anyhow act w Q

/-- A compiling function gives every schema of the graph a place that stands for it. -/
def Places (compiler : Compiler) (graph : SchemaGraph) (member : Schema → Prop)
    (recur : SchemaCompiler) : Prop :=
  ∀ (w : Stage compiler graph member) schema place, member schema →
    Reaches (recur schema place) w fun id w' => w'.stands[id.index]? = some schema

theorem reaches_check {α : Type} (x : Except Fault α) :
    Reaches (check x) w fun a _ => x = .ok a := by
  cases x with
  | ok a => exact after_pure rfl
  | error fault => exact after_throw trivial

theorem reaches_search (pattern : String) :
    Reaches (searchOf compiler pattern) w fun search _ => compiler.search pattern = .ok search := by
  refine after_mono (reaches_check _) (fun search w' _ found => ?_)
  cases compiled : compiler.search pattern with
  | ok search' =>
    rw [compiled] at found
    cases found
    rfl
  | error fault =>
    rw [compiled] at found
    cases found

theorem stands_mono {w w' : Stage compiler graph member} (up : w ≤ w') {schema : Schema}
    {id : ValidatorId} (h : w.stands[id.index]? = some schema) :
    w'.stands[id.index]? = some schema :=
  getElem?_mono up.1 h

theorem reaches_list (places : Places compiler graph member recur) {schemas : List Schema}
    (inside : ∀ schema ∈ schemas, member schema) (place : String) :
    Reaches (list recur schemas place) w fun ids w' =>
      List.Forall₂ (fun schema (id : ValidatorId) => w'.stands[id.index]? = some schema)
        schemas ids := by
  have loop : Reaches (list recur schemas place) w fun ids w' =>
      List.Forall₂ (fun numbered (id : ValidatorId) => w'.stands[id.index]? = some numbered.1)
        schemas.zipIdx ids := by
    refine after_mapM (Q := fun (numbered : Schema × Nat) (id : ValidatorId)
      (w' : Stage compiler graph member) => w'.stands[id.index]? = some numbered.1)
      (fun _ _ _ _ up h => stands_mono up h) _ ?_
    rintro ⟨schema, position⟩ mem w' -
    exact places w' schema _ (inside schema (Check.mem_of_mem_zipIdx mem))
  refine after_mono loop (fun ids w' _ h => ?_)
  have mapped : List.Forall₂ (fun schema (id : ValidatorId) => w'.stands[id.index]? = some schema)
      (schemas.zipIdx.map (·.1)) ids := List.forall₂_map_left_iff.2 h
  rwa [List.zipIdx_map_fst] at mapped

theorem reaches_map (places : Places compiler graph member recur)
    {schemas : List (String × Schema)} (inside : ∀ entry ∈ schemas, member entry.2)
    (place : String) :
    Reaches (map recur schemas place) w fun ids w' => StandForMap w'.stands schemas ids := by
  refine after_mapM (Q := fun (entry : String × Schema) (entry' : String × ValidatorId)
    (w' : Stage compiler graph member) => entry'.1 = entry.1 ∧
      w'.stands[entry'.2.index]? = some entry.2)
    (fun _ _ _ _ up h => ⟨h.1, stands_mono up h.2⟩) _ ?_
  rintro ⟨name, schema⟩ mem w' -
  refine after_bind (places w' schema _ (inside (name, schema) mem)) (fun id w'' _ h => ?_)
  exact after_pure ⟨rfl, h⟩

theorem reaches_searches (patterns : List String) :
    Reaches (patterns.mapM (searchOf compiler)) w fun searches _ =>
      List.Forall₂ (fun pattern search => compiler.search pattern = .ok search)
        patterns searches :=
  after_mapM (fun _ _ _ _ _ h => h) _ (fun pattern _ _ _ => reaches_search pattern)

/-- What compiling a keyword gives: a rule that decides it, and places for the schemas in it. -/
def Decided (owner : Schema) (assertion : Assertion) (value : KeywordValue) (rule : Option Rule)
    (w : Stage compiler graph member) : Prop :=
  Computes compiler graph w.stands owner assertion value rule ∧
    ∀ use schema, (use, schema) ∈ Meaning.uses graph assertion value → Placed w.stands use schema

/-- A keyword without schemas has nothing to place. -/
theorem Decided.plain {owner : Schema} {assertion : Assertion} {value : KeywordValue}
    {rule : Option Rule} (none : Meaning.uses graph assertion value = [])
    (computes : Computes compiler graph w.stands owner assertion value rule) :
    Decided owner assertion value rule w := by
  refine ⟨computes, fun use schema mem => ?_⟩
  rw [none] at mem
  cases mem

/-- The schemas of a list have places. -/
theorem placed_list {stands : List Schema} {schemas : List Schema} {ids : List ValidatorId}
    (h : List.Forall₂ (fun schema (id : ValidatorId) => stands[id.index]? = some schema)
      schemas ids) {use : Use} {schema : Schema} (mem : schema ∈ schemas) :
    Placed stands use schema := by
  induction h with
  | nil => cases mem
  | @cons first id schemas ids found rest ih =>
    rcases List.mem_cons.1 mem with rfl | later
    · exact .inl (List.mem_of_getElem? found)
    · exact ih later

/-- The schemas of a map have places. -/
theorem placed_map {stands : List Schema} {schemas : List (String × Schema)}
    {ids : List (String × ValidatorId)} (h : StandForMap stands schemas ids) {use : Use}
    {entry : String × Schema} (mem : entry ∈ schemas) : Placed stands use entry.2 := by
  unfold StandForMap at h
  induction h with
  | nil => cases mem
  | @cons first id schemas ids found rest ih =>
    rcases List.mem_cons.1 mem with rfl | later
    · exact .inl (List.mem_of_getElem? found.2)
    · exact ih later

theorem mem_uses_list {use use' : Use} {schemas : List Schema} {schema : Schema}
    (mem : (use, schema) ∈ schemas.map (use', ·)) : use = use' ∧ schema ∈ schemas := by
  obtain ⟨schema', mem', eq⟩ := List.mem_map.1 mem
  cases eq
  exact ⟨rfl, mem'⟩

/-! ### The families of keywords -/

section Families

variable {owner : Schema} (places : Places compiler graph member recur) {place : String}
include places

theorem decided_all {assertion : Assertion} (kind : assertion = .allOf ∨ assertion = .extending)
    {schemas : List Schema} (inside : ∀ schema ∈ schemas, member schema)
    (used : ∀ schema ∈ schemas, owner.Uses graph .beside schema) :
    Reaches (do return some (.allOf (← list recur schemas place))) w
      (Decided owner assertion (.schemaList schemas)) := by
  refine after_bind (reaches_list places inside place) (fun ids w' _ h => after_pure ?_)
  refine ⟨computes_all kind used h, fun use schema mem => ?_⟩
  rcases kind with rfl | rfl
  all_goals exact placed_list h (mem_uses_list mem).2

theorem decided_any {schemas : List Schema} (inside : ∀ schema ∈ schemas, member schema)
    (used : ∀ schema ∈ schemas, owner.Uses graph .beside schema) :
    Reaches (do return some (.anyOf (← list recur schemas place))) w
      (Decided owner .anyOf (.schemaList schemas)) := by
  refine after_bind (reaches_list places inside place) (fun ids w' _ h => after_pure ?_)
  exact ⟨computes_any used h, fun use schema mem => placed_list h (mem_uses_list mem).2⟩

theorem decided_one {schemas : List Schema} (inside : ∀ schema ∈ schemas, member schema)
    (used : ∀ schema ∈ schemas, owner.Uses graph .judged schema) :
    Reaches (do return some (.oneOf (← list recur schemas place))) w
      (Decided owner .oneOf (.schemaList schemas)) := by
  refine after_bind (reaches_list places inside place) (fun ids w' _ h => after_pure ?_)
  exact ⟨computes_one used h, fun use schema mem => placed_list h (mem_uses_list mem).2⟩

/-- A keyword with one schema. -/
theorem decided_single {assertion : Assertion} {schema : Schema} {rule : ValidatorId → Rule}
    {use : Use} (inside : member schema)
    (uses : Meaning.uses graph assertion (.schema schema) = [(use, schema)])
    (computes : ∀ stands (id : ValidatorId), stands[id.index]? = some schema →
      Computes compiler graph stands owner assertion (.schema schema) (some (rule id))) :
    Reaches (do return some (rule (← recur schema place))) w
      (Decided owner assertion (.schema schema)) := by
  refine after_bind (places w schema place inside) (fun id w' _ h => after_pure ?_)
  refine ⟨computes w'.stands id h, fun use' schema' mem => ?_⟩
  rw [uses] at mem
  cases List.mem_singleton.1 mem
  exact .inl (List.mem_of_getElem? h)

theorem decided_ref {ref uri : String} {target : HandleId}
    (inside : ∀ schema, graph.schema? target = some schema → member schema)
    (used : ∀ schema, graph.schema? target = some schema → owner.Uses graph .target schema) :
    Reaches (do
      let schema ← check (graph.target target)
      return some (.reference (← recur schema uri))) w
      (Decided owner .ref (.reference ref uri target)) := by
  refine after_bind (reaches_check _) (fun schema w₁ _ found => ?_)
  have bound : graph.schema? target = some schema := by
    unfold SchemaGraph.target at found
    cases h : graph.schema? target with
    | some schema' =>
      rw [h] at found
      cases found
      rfl
    | none =>
      rw [h] at found
      cases uriOk : graph.handleUri target <;> rw [uriOk] at found <;> cases found
  refine after_bind (places w₁ schema uri (inside schema bound)) (fun id w₂ _ h => after_pure ?_)
  refine ⟨computes_ref (used schema bound) bound h, fun use schema' mem => ?_⟩
  have same : schema' = schema := by
    have listed : (use, schema') ∈ (graph.schema? target).toList.map (Use.target, ·) := mem
    rw [bound] at listed
    cases List.mem_singleton.1 listed
    rfl
  rw [same]
  exact .inl (List.mem_of_getElem? h)

theorem decided_properties {schemas : List (String × Schema)}
    (inside : ∀ entry ∈ schemas, member entry.2)
    (used : ∀ entry ∈ schemas, owner.Uses graph .inside entry.2) :
    Reaches (do
      return some (.properties (← map recur schemas place) (flaggedNames schemas place))) w
      (Decided owner .properties (.schemaMap schemas)) := by
  refine after_bind (reaches_map places inside place) (fun ids w' _ h => after_pure ?_)
  refine ⟨computes_properties place used h, fun use schema mem => ?_⟩
  obtain ⟨entry, listed, eq⟩ := List.mem_map.1 mem
  cases eq
  exact placed_map h listed

theorem decided_patterns {schemas : List (String × Schema)}
    (inside : ∀ entry ∈ schemas, member entry.2)
    (used : ∀ entry ∈ schemas, owner.Uses graph .inside entry.2) :
    Reaches (do
      let compiled ← map recur schemas place
      let searches ← compiled.mapM fun (pattern, id) => do return (← searchOf compiler pattern, id)
      return some (.patternProperties searches)) w
      (Decided owner .patternProperties (.schemaMap schemas)) := by
  refine after_bind (reaches_map places inside place) (fun ids w₁ _ h => ?_)
  have searched : Reaches (ids.mapM fun (pattern, id) => do
      return (← searchOf compiler pattern, id)) w₁ fun searches _ =>
      List.Forall₂ (fun entry entry' => compiler.search entry.1 = .ok entry'.1 ∧
        entry'.2 = entry.2) ids searches := by
    refine after_mapM (fun _ _ _ _ _ h => h) _ ?_
    rintro ⟨pattern, id⟩ - w₂ -
    refine after_bind (reaches_search pattern) (fun search w₃ _ found => after_pure ?_)
    exact ⟨found, rfl⟩
  refine after_bind searched (fun searches w₂ up compiled => after_pure ?_)
  have later : StandForMap w₂.stands schemas ids :=
    h.imp (fun entry entry' hs => ⟨hs.1, getElem?_mono up.1 hs.2⟩)
  refine ⟨computes_patterns used later compiled, fun use schema mem => ?_⟩
  obtain ⟨entry, listed, eq⟩ := List.mem_map.1 mem
  cases eq
  exact placed_map later listed

theorem decided_dependencies {names : List (String × List String)}
    {schemas : List (String × Schema)} (inside : ∀ entry ∈ schemas, member entry.2)
    (used : ∀ entry ∈ schemas, owner.Uses graph .beside entry.2) :
    Reaches (do return some (.dependencies names (← map recur schemas place))) w
      (Decided owner .dependencies (.dependencies names schemas)) := by
  refine after_bind (reaches_map places inside place) (fun ids w' _ h => after_pure ?_)
  refine ⟨computes_dependencies names used h, fun use schema mem => ?_⟩
  obtain ⟨entry, listed, eq⟩ := List.mem_map.1 mem
  cases eq
  exact placed_map h listed

theorem decided_additional {schema : Schema} (inside : member schema)
    (used : owner.Uses graph .inside schema) :
    Reaches (additionalRule compiler recur owner schema place) w
      (Decided owner .additionalProperties (.schema schema)) := by
  unfold additionalRule
  split
  · next valid =>
    refine after_pure ⟨computes_additional_anything valid, fun use schema' mem => ?_⟩
    cases List.mem_singleton.1 mem
    exact .inr ⟨rfl, .inl valid⟩
  · next constrains =>
    refine after_bind (places w schema place inside) (fun id w₁ _ h => ?_)
    refine after_bind (reaches_searches _) (fun searches w₂ up compiled => after_pure ?_)
    have later := getElem?_mono up.1 h
    refine ⟨computes_additional used later compiled, fun use schema' mem => ?_⟩
    cases List.mem_singleton.1 mem
    exact .inl (List.mem_of_getElem? later)

theorem reaches_optional {schema : Option Schema} (inside : ∀ s, schema = some s → member s)
    (place : String) :
    Reaches (optional recur schema place) w fun more w' =>
      (∀ s, schema = some s → ∃ id : ValidatorId, more = some id ∧
        w'.stands[id.index]? = some s) ∧ (schema = none → more = none) := by
  cases schema with
  | none => exact after_pure ⟨nofun, fun _ => rfl⟩
  | some s =>
    refine after_bind (places w s place (inside s rfl)) (fun id w' _ h => after_pure ?_)
    refine ⟨fun s' same => ?_, nofun⟩
    cases same
    exact ⟨id, rfl, h⟩

theorem reaches_every {schema : Schema} (inside : member schema) (place : String) :
    Reaches (some <$> recur schema place) w fun every w' =>
      ∃ id : ValidatorId, every = some id ∧ w'.stands[id.index]? = some schema :=
  after_map (after_mono (places w schema place inside) (fun id _ _ h => ⟨id, rfl, h⟩))

theorem reaches_each {schemas : List Schema} (inside : ∀ schema ∈ schemas, member schema)
    (place : String) :
    Reaches (some <$> list recur schemas place) w fun each w' => ∃ ids, each = some ids ∧
      List.Forall₂ (fun schema (id : ValidatorId) => w'.stands[id.index]? = some schema)
        schemas ids :=
  after_map (after_mono (reaches_list places inside place) (fun ids _ _ h => ⟨ids, rfl, h⟩))

/-- The places of the schemas that `items` names. -/
structure PlacesItems (form : ItemsForm) (every : Option ValidatorId)
    (each : Option (List ValidatorId)) (w : Stage compiler graph member) : Prop where
  ofEvery : ∀ schema, form = .every schema → each = none ∧
    ∃ id : ValidatorId, every = some id ∧ w.stands[id.index]? = some schema
  ofEach : ∀ schemas, form = .each schemas → ∃ ids, each = some ids ∧
    List.Forall₂ (fun schema (id : ValidatorId) => w.stands[id.index]? = some schema) schemas ids
  ofAbsent : form = .absent → each = none ∧ every = none

theorem decided_items_additional (place : String) {form : ItemsForm} {additional : Option Schema}
    {every : Option ValidatorId} {each : Option (List ValidatorId)}
    (inside : ∀ schema, additional = some schema → member schema)
    (used : ∀ schema ∈ form.schemas ++ additional.toList, owner.Uses graph .inside schema)
    (items : PlacesItems form every each w) :
    Reaches (do
      let more ← optional recur (additional.filter (!·.isAlwaysInvalid)) place
      return some (.items every each more ((additional.map (·.isAlwaysInvalid)).getD false)
        place)) w
      (Decided owner .items (.items form additional)) := by
  have kept : ∀ s, additional.filter (!·.isAlwaysInvalid) = some s ↔
      additional = some s ∧ s.isAlwaysInvalid = false := by
    intro s
    rw [Option.filter_eq_some_iff]
    simp
  refine after_bind (reaches_optional places (fun s h => inside s ((kept s).1 h).1) place)
    (fun more w' up hmore => after_pure ?_)
  refine ⟨computes_items place used ?_ ?_ items.ofAbsent ?_ ?_, fun use schema mem => ?_⟩
  · intro schema same
    obtain ⟨none_each, id, some_id, h⟩ := items.ofEvery schema same
    exact ⟨none_each, id, some_id, getElem?_mono up.1 h⟩
  · intro schemas same
    obtain ⟨ids, some_ids, h⟩ := items.ofEach schemas same
    exact ⟨ids, some_ids, h.imp (fun _ _ found => getElem?_mono up.1 found)⟩
  · exact fun schema some_schema valid => hmore.1 schema ((kept schema).2 ⟨some_schema, valid⟩)
  · exact fun none_additional => hmore.2 (by rw [none_additional]; rfl)
  · obtain ⟨rfl, listed⟩ := mem_uses_list mem
    rcases List.mem_append.1 listed with own | extra
    · cases form with
      | absent => cases own
      | every schema' =>
        cases List.mem_singleton.1 own
        obtain ⟨-, id, -, h⟩ := items.ofEvery schema rfl
        exact .inl (List.mem_of_getElem? (getElem?_mono up.1 h))
      | each schemas =>
        obtain ⟨ids, -, h⟩ := items.ofEach schemas rfl
        exact (placed_list h own).mono up.1
    · have some_schema : additional = some schema := by simpa using extra
      cases invalid : schema.isAlwaysInvalid with
      | true => exact .inr ⟨rfl, .inr invalid⟩
      | false =>
        obtain ⟨id, -, h⟩ := hmore.1 schema ((kept schema).2 ⟨some_schema, invalid⟩)
        exact .inl (List.mem_of_getElem? h)

theorem decided_items {form : ItemsForm} {additional : Option Schema}
    (inside : ∀ schema ∈ form.schemas ++ additional.toList, member schema)
    (used : ∀ schema ∈ form.schemas ++ additional.toList, owner.Uses graph .inside schema) :
    Reaches (itemsRule recur form additional place) w
      (Decided owner .items (.items form additional)) := by
  have extra : ∀ schema, additional = some schema → member schema :=
    fun schema h => inside schema (by simp [h])
  have rest : ∀ {every each} {w' : Stage compiler graph member},
      PlacesItems form every each w' → Reaches _ w' _ :=
    fun items => decided_items_additional places
      (Place.join (Place.owner place) [Builtin.additionalItems.key]) extra used items
  unfold itemsRule
  cases form with
  | absent =>
    refine after_bind (Q := fun every _ => every = none) (after_pure rfl) (fun _ w₁ _ hevery => ?_)
    refine after_bind (Q := fun each _ => each = none) (after_pure rfl) (fun _ w₂ _ heach => ?_)
    exact rest ⟨by simp, by simp, fun _ => ⟨heach, hevery⟩⟩
  | every schema =>
    have member_schema := inside schema (by simp [ItemsForm.schemas])
    refine after_bind (reaches_every places member_schema place) (fun every w₁ _ hevery => ?_)
    refine after_bind (Q := fun each w' => each = none ∧ w' = w₁) (after_pure ⟨rfl, rfl⟩)
      (fun each w₂ _ heach => ?_)
    obtain ⟨rfl, rfl⟩ := heach
    refine rest ⟨fun schema' same => ?_, by simp, by simp⟩
    cases same
    exact ⟨rfl, hevery⟩
  | each schemas =>
    have listed : ∀ schema ∈ schemas, member schema :=
      fun schema mem => inside schema (List.mem_append_left _ mem)
    refine after_bind (Q := fun _ _ => True) (after_pure trivial) (fun every w₁ _ _ => ?_)
    refine after_bind (reaches_each places listed place) (fun each w₂ _ heach => ?_)
    refine rest ⟨by simp, fun schemas' same => ?_, by simp⟩
    cases same
    exact heach

end Families

/-- The keywords that bound a length. -/
theorem decided_count {owner : Schema} {assertion : Assertion} {rule : Int → Rule} {key : String}
    {value : KeywordValue} (none : Meaning.uses graph assertion value = [])
    (computes : ∀ stands kind n bound, value = .literal kind (.number n) →
      n.truncate? = some bound →
      Computes compiler graph stands owner assertion value (some (rule bound))) :
    Reaches (countRule key rule value) w (Decided owner assertion value) := by
  unfold countRule
  split
  · next kind n =>
    split
    · next bound h => exact after_pure (.plain none (computes w.stands kind n bound rfl h))
    · exact after_throw trivial
  · exact after_throw trivial

theorem decided_multiple {owner : Schema} {assertion : Assertion}
    (kind : assertion = .multipleOf ∨ assertion = .divisibleBy) {literal : LiteralKind}
    {n : Number} (nonzero : n.fraction ≠ .ok 0) :
    Reaches (do
      return some (.multipleOf (.number n) (← check (n.fraction.mapError .noFraction)))) w
      (Decided owner assertion (.literal literal (.number n))) := by
  refine after_bind (reaches_check _) (fun r w' _ found => after_pure ?_)
  have fraction : n.fraction = .ok r := by
    cases h : n.fraction with
    | ok q =>
      rw [h] at found
      cases found
      rfl
    | error fault =>
      rw [h] at found
      cases found
  rw [fraction] at nonzero
  refine .plain ?_ (computes_multiple kind fraction (fun zero => nonzero (by rw [zero])))
  rcases kind with rfl | rfl <;> rfl

/-- No rule is needed for a flag of draft 3, which the properties of the parent look at. -/
theorem computes_flag {stands : List Schema} {owner : Schema} {value : KeywordValue}
    (other : ∀ names, value ≠ .stringSet names) :
    Computes compiler graph stands owner .required value none := by
  intro keyword place evaluate refer accepts node type key proper typed applies follows
  cases value with
  | stringSet names => exact absurd rfl (other names)
  | _ => exact trivial

/-- A format that is no text is not tested. -/
theorem computes_other_format {stands : List Schema} {owner : Schema} {kind : LiteralKind}
    {other : Json} (noText : ∀ name, other ≠ .string name) :
    Computes compiler graph stands owner .format (.literal kind other) none := by
  intro keyword place evaluate refer accepts node type key proper typed applies follows
  cases other with
  | string name => exact absurd rfl (noText name)
  | _ => exact trivial

theorem uses_required {value : KeywordValue} : Meaning.uses graph .required value = [] := by
  cases value <;> rfl

/-- The rule of a keyword decides the keyword. -/
theorem ruleOf_decided (orderly : Orderly graph member) (total : compiler.IsTotal)
    (places : Places compiler graph member recur) {owner : Schema} (owned : member owner)
    {keyword : Keyword} {assertion : Assertion} {value : KeywordValue}
    (asserts : owner.Asserts keyword assertion value) (place : String) :
    Reaches (ruleOf compiler graph recur owner assertion value place) w
      (Decided owner assertion value) := by
  have used : ∀ use schema, (use, schema) ∈ Meaning.uses graph assertion value →
      owner.Uses graph use schema :=
    fun use schema mem => ⟨keyword, assertion, value, asserts, mem⟩
  have inside : ∀ use schema, (use, schema) ∈ Meaning.uses graph assertion value →
      member schema :=
    fun use schema mem => orderly.closed owner owned use schema (used use schema mem)
  have fits := (orderly.typed owner owned keyword assertion value asserts).1
  have stored := asserts.1
  clear asserts
  unfold ruleOf
  dsimp only
  split
  -- type, disallow, enum, const
  · exact after_pure (.plain rfl computes_types)
  · next no => cases value <;> first | exact absurd rfl (no _) | exact False.elim fits
  · exact after_pure (.plain rfl computes_disallow)
  · next no => cases value <;> first | exact absurd rfl (no _) | exact False.elim fits
  · exact after_pure (.plain rfl computes_enum)
  · exact after_pure (.plain rfl computes_enum_names)
  · exact after_pure (.plain rfl computes_const)
  -- allOf, extends, anyOf, oneOf, not, $ref
  · exact decided_all places (.inl rfl)
      (fun schema mem => inside .beside schema (List.mem_map_of_mem mem))
      (fun schema mem => used .beside schema (List.mem_map_of_mem mem))
  · exact decided_all places (.inr rfl)
      (fun schema mem => inside .beside schema (List.mem_map_of_mem mem))
      (fun schema mem => used .beside schema (List.mem_map_of_mem mem))
  · exact decided_any places
      (fun schema mem => inside .beside schema (List.mem_map_of_mem mem))
      (fun schema mem => used .beside schema (List.mem_map_of_mem mem))
  · exact decided_one places
      (fun schema mem => inside .judged schema (List.mem_map_of_mem mem))
      (fun schema mem => used .judged schema (List.mem_map_of_mem mem))
  · next schema =>
    have listed := List.mem_singleton_self (Use.judged, schema)
    exact decided_single places (inside .judged schema listed) rfl
      (fun stands id h => computes_not (used .judged schema listed) h)
  · next ref uri target =>
    have listed : ∀ schema, graph.schema? target = some schema →
        (Use.target, schema) ∈ Meaning.uses graph .ref (.reference ref uri target) := by
      intro schema bound
      simp [Meaning.uses, bound]
    exact decided_ref places (fun schema bound => inside .target schema (listed schema bound))
      (fun schema bound => used .target schema (listed schema bound))
  -- format, multipleOf, divisibleBy, minimum, maximum
  · exact after_pure (.plain rfl (computes_format total))
  · next other noText =>
    refine after_bind (reaches_check _) (fun _ w' _ _ => after_pure (.plain ?_ ?_))
    · rfl
    · exact computes_other_format noText
  · exact decided_multiple (.inl rfl) fits
  · exact decided_multiple (.inr rfl) fits
  · exact after_pure (.plain rfl (computes_minimum fits stored))
  · next no => cases value <;> first | exact absurd rfl (no _) | exact False.elim fits
  · exact after_pure (.plain rfl (computes_maximum fits stored))
  · next no => cases value <;> first | exact absurd rfl (no _) | exact False.elim fits
  -- lengths
  · exact decided_count (by cases value <;> rfl)
      (fun stands kind n bound same h => same ▸ computes_minLength h)
  · exact decided_count (by cases value <;> rfl)
      (fun stands kind n bound same h => same ▸ computes_maxLength h)
  · exact decided_count (by cases value <;> rfl)
      (fun stands kind n bound same h => same ▸ computes_minItems h)
  · exact decided_count (by cases value <;> rfl)
      (fun stands kind n bound same h => same ▸ computes_maxItems h)
  · exact decided_count (by cases value <;> rfl)
      (fun stands kind n bound same h => same ▸ computes_minProperties h)
  · exact decided_count (by cases value <;> rfl)
      (fun stands kind n bound same h => same ▸ computes_maxProperties h)
  · refine after_bind (reaches_search _) (fun search w' _ found => after_pure ?_)
    exact .plain rfl (computes_pattern found)
  -- items, uniqueItems, contains
  · exact decided_items places
      (fun schema mem => inside .inside schema (List.mem_map_of_mem mem))
      (fun schema mem => used .inside schema (List.mem_map_of_mem mem))
  · exact after_pure (.plain rfl computes_unique)
  · next schema =>
    have listed := List.mem_singleton_self (Use.inside, schema)
    exact decided_single places (inside .inside schema listed) rfl
      (fun stands id h => computes_contains (used .inside schema listed) h)
  -- members
  · exact decided_properties places
      (fun entry mem => inside .inside entry.2 (List.mem_map.2 ⟨entry, mem, rfl⟩))
      (fun entry mem => used .inside entry.2 (List.mem_map.2 ⟨entry, mem, rfl⟩))
  · exact decided_patterns places
      (fun entry mem => inside .inside entry.2 (List.mem_map.2 ⟨entry, mem, rfl⟩))
      (fun entry mem => used .inside entry.2 (List.mem_map.2 ⟨entry, mem, rfl⟩))
  · next schema =>
    have listed := List.mem_singleton_self (Use.inside, schema)
    exact decided_additional places (inside .inside schema listed) (used .inside schema listed)
  · exact after_pure (.plain rfl computes_required)
  · next no => exact after_pure (.plain uses_required (computes_flag no))
  · next schema =>
    have listed := List.mem_singleton_self (Use.inside, schema)
    exact decided_single places (inside .inside schema listed) rfl
      (fun stands id h => computes_names (used .inside schema listed) h)
  · exact decided_dependencies places
      (fun entry mem => inside .beside entry.2 (List.mem_map.2 ⟨entry, mem, rfl⟩))
      (fun entry mem => used .beside entry.2 (List.mem_map.2 ⟨entry, mem, rfl⟩))
  -- a value of another kind
  · exact after_throw trivial

/-! ### The checks of a schema -/

/-- What compiling a keyword of a schema gives: nothing for a keyword without an assertion, and the
check of a rule that decides the keyword otherwise. -/
inductive Checked (owner : Schema) (w : Stage compiler graph member) (keyword : Keyword)
    (value : KeywordValue) : Option Check → Prop
  | skipped (unknown : Assertion.ofKey? keyword.key = none) : Checked owner w keyword value none
  | decided {assertion : Assertion} (place : String) {rule : Option Rule}
      (known : Assertion.ofKey? keyword.key = some assertion)
      (decides : Decided owner assertion value rule w) :
      Checked owner w keyword value
        (rule.map fun rule => { keyword := some keyword, location := place, rule })

theorem Decided.mono {owner : Schema} {assertion : Assertion} {value : KeywordValue}
    {rule : Option Rule} {w' : Stage compiler graph member} (up : w ≤ w')
    (h : Decided owner assertion value rule w) : Decided owner assertion value rule w' :=
  ⟨h.1.mono up.1, fun use schema mem => (h.2 use schema mem).mono up.1⟩

theorem Checked.mono {owner : Schema} {keyword : Keyword} {value : KeywordValue}
    {check : Option Check} {w' : Stage compiler graph member} (up : w ≤ w')
    (h : Checked owner w keyword value check) : Checked owner w' keyword value check := by
  cases h with
  | skipped none => exact .skipped none
  | decided place some decides => exact .decided place some (decides.mono up)

theorem checkOf_checked (orderly : Orderly graph member) (total : compiler.IsTotal)
    (places : Places compiler graph member recur) {owner : Schema} (owned : member owner)
    {keyword : Keyword} {value : KeywordValue} (mem : (keyword, value) ∈ owner.keywords)
    (location : String) :
    Reaches (checkOf compiler graph recur owner location keyword value) w
      fun check w' => Checked owner w' keyword value check := by
  unfold checkOf
  split
  · next none => exact after_pure (.skipped none)
  · next assertion found =>
    refine after_bind (ruleOf_decided orderly total places owned ⟨mem, found⟩ _)
      (fun rule w' _ decides => after_pure ?_)
    exact .decided _ found decides

end Compile

/-- The key of an assertion leads back to the assertion. -/
theorem Assertion.ofKey?_keyword {assertion : Assertion} {key : String}
    (found : Assertion.ofKey? key = some assertion) : assertion.keyword.key = key := by
  have h := List.find?_some found
  simpa using h

namespace Check

variable {node : InstanceNode} {evaluate refer : Evaluator}

/-- The violations of a check, if it applies. -/
theorem applies_keyword {keyword : Keyword} {place : String} {rule : Rule} {type : InstanceType}
    (typed : node.value.instanceType? = some type) :
    Check.applies { keyword := some keyword, location := place, rule } node =
      .ok (keyword.appliesToType type) := by
  unfold applies InstanceNode.type
  rw [typed]
  rfl

/-- Violations of several evaluations, of which some may be missing for what always holds. -/
theorem settles_filterMap {α β : Type} {f : β → Verdict} {P : α → Prop} {xs : List α}
    {ys : List (Option β)}
    (h : List.Forall₂ (fun x y =>
      (∀ z, y = some z → Settles (f z) (P x)) ∧ (y = none → P x)) xs ys) :
    Settles (together f (ys.filterMap fun y => y)) (∀ x ∈ xs, P x) := by
  have kept : ∃ front : List α, List.Forall₂ (fun x z => Settles (f z) (P x)) front
      (ys.filterMap fun y => y) ∧ ((∀ x ∈ front, P x) ↔ ∀ x ∈ xs, P x) := by
    induction h with
    | nil => exact ⟨[], .nil, Iff.rfl⟩
    | @cons x y xs ys first rest ih =>
      obtain ⟨front, settles, iff⟩ := ih
      cases y with
      | none =>
        refine ⟨front, settles, ?_⟩
        rw [iff, List.forall_mem_cons]
        exact (and_iff_right (first.2 rfl)).symm
      | some z =>
        refine ⟨x :: front, .cons (first.1 z rfl) settles, ?_⟩
        rw [List.forall_mem_cons, List.forall_mem_cons, iff]
  obtain ⟨front, settles, iff⟩ := kept
  exact (settles_together settles).congr iff

end Check

theorem Report.folded_eq_nil {pointer location : String} {found : List Violation} :
    Report.folded pointer location found = [] ↔ found = [] := by
  match found with
  | [] => exact Iff.rfl
  | [violation] => exact Iff.rfl
  | first :: second :: rest => exact iff_of_false nofun nofun

/-- The verdict of the checks of a schema is that of the checks that apply. -/
theorem Validator.settles_evaluateWith {evaluate refer : Evaluator} {location : String}
    {checks : List Check} {node : InstanceNode} {P : Prop}
    (h : Settles (Check.together (fun (check : Check) => do
      if ← check.applies node then check.run evaluate refer node else return []) checks) P) :
    Settles (Validator.evaluateWith evaluate refer { location, checks := some checks } node) P := by
  obtain ⟨found, ok, iff⟩ := h
  refine ⟨Report.folded node.pointer location found, ?_, Report.folded_eq_nil.trans iff⟩
  unfold Validator.evaluateWith Validator.checkList
  simp only [Option.getD_some]
  rw [ok]
  rfl

namespace Compile

variable {compiler : Compiler} {graph : SchemaGraph} {member : Schema → Prop}
  {w : Stage compiler graph member}

/-- What the check of a keyword demands: the keyword holds, if it applies. -/
theorem Checked.settles {owner : Schema} (typed : owner.IsTyped) {keyword : Keyword}
    {value : KeywordValue} (mem : (keyword, value) ∈ owner.keywords) {check : Option Check}
    (checked : Checked owner w keyword value check) {evaluate refer : Evaluator}
    {accepts : Use → Schema → Json → Prop} {node : InstanceNode} {type : InstanceType}
    (proper : node.value.IsProper) (valueType : node.value.instanceType? = some type)
    (follows : Follows graph w.stands accepts owner evaluate refer node) {P : Prop}
    (hP : P ↔ ∀ assertion, Assertion.ofKey? keyword.key = some assertion →
      keyword.appliesToType type = true →
      Meaning.Holds compiler graph accepts owner node.value assertion value) :
    (∀ z, check = some z → Settles (do
      if ← z.applies node then z.run evaluate refer node else return []) P) ∧
      (check = none → P) := by
  cases checked with
  | skipped unknown =>
    refine ⟨(fun check same => nomatch same), fun _ => hP.2 (fun assertion known => ?_)⟩
    rw [unknown] at known
    cases known
  | @decided assertion place rule known decides =>
    have narrower := (typed keyword assertion value ⟨mem, known⟩).2 type
    have holds := fun applies => decides.1 keyword place evaluate refer accepts node type
      (Assertion.ofKey?_keyword known).symm proper valueType (narrower applies) follows
    have only : P ↔ (keyword.appliesToType type = true →
        Meaning.Holds compiler graph accepts owner node.value assertion value) := by
      rw [hP, known]
      simp only [Option.some.injEq, forall_eq']
    cases rule with
    | none => exact ⟨(fun check same => nomatch same), fun _ => only.2 holds⟩
    | some rule =>
      refine ⟨fun check same => ?_, fun same => nomatch same⟩
      cases same
      rw [Check.applies_keyword valueType]
      cases applies : keyword.appliesToType type with
      | false =>
        refine settles_nil (only.2 (fun absurd => ?_))
        rw [applies] at absurd
        cases absurd
      | true =>
        refine (holds applies).congr (Iff.trans ?_ only.symm)
        rw [applies]
        simp only [forall_const]

/-- The checks that compiling the keywords of a schema gives decide the schema. -/
theorem judges_of_checked {owner : Schema} (typed : owner.IsTyped) {checks : List (Option Check)}
    (h : List.Forall₂ (fun entry check => Checked owner w entry.1 entry.2 check)
      owner.keywords checks) :
    Judges compiler graph w.stands owner (checks.filterMap fun check => check) where
  settles := by
    intro location evaluate refer accepts node proper follows
    obtain ⟨type, valueType⟩ := proper.type
    have listed : List.Forall₂ (fun entry check => entry ∈ owner.keywords ∧
        Checked owner w entry.1 entry.2 check) owner.keywords checks := by
      rw [List.forall₂_and_left]
      exact ⟨fun entry mem => mem, h⟩
    have each := listed.imp (fun entry check hc =>
      hc.2.settles typed hc.1 proper valueType follows Iff.rfl)
    refine Validator.settles_evaluateWith ((Check.settles_filterMap each).congr ?_)
    constructor
    · intro met keyword assertion value asserts type' typed' applies
      rw [valueType] at typed'
      cases typed'
      exact met (keyword, value) asserts.1 assertion asserts.2 applies
    · intro met entry mem assertion known applies
      exact met entry.1 assertion entry.2 ⟨mem, known⟩ type valueType applies
  placed := by
    intro _ use used uses
    obtain ⟨keyword, assertion, value, ⟨mem, known⟩, listed⟩ := uses
    obtain ⟨check, -, checked⟩ := exists_of_forall₂ h mem
    cases checked with
    | skipped unknown =>
      rw [unknown] at known
      cases known
    | @decided assertion' place rule known' decides =>
      rw [known] at known'
      cases known'
      exact decides.2 use used listed

/-- A schema that accepts nothing is compiled to one check that is always violated. -/
theorem judges_never {owner : Schema} (invalid : owner.isAlwaysInvalid = true)
    (stands : List Schema) (place : String) :
    Judges compiler graph stands owner [{ keyword := none, location := place, rule := .nothing }]
    where
  settles := by
    intro location evaluate refer accepts node proper follows
    refine ⟨_, rfl, iff_of_false nofun ?_⟩
    exact Schema.not_meets_of_invalid proper invalid
      (fun inner _ valid => follows.valid .judged inner node.value valid)
  placed valid := by
    rw [invalid] at valid
    cases valid

/-! ### The places of schemas -/

/-- Looking a schema up finds a place that stands for it. -/
theorem reaches_known (orderly : Orderly graph member) {schema : Schema}
    (owned : member schema) :
    Reaches (known? schema) w fun found w' =>
      (∀ id : ValidatorId, found = some id → w'.stands[id.index]? = some schema) ∧
      (found = none → ∀ id, schema.id? = some id → w'.state.known.lookup id = none) := by
  refine after_anyhow (fun found s run => ?_)
  cases schema with
  | always =>
    cases run
    exact ⟨w, le_rfl, rfl, nofun, fun _ _ absent => nomatch absent⟩
  | never =>
    cases run
    exact ⟨w, le_rfl, rfl, nofun, fun _ _ absent => nomatch absent⟩
  | node id location draft keywords =>
    cases run
    refine ⟨w, le_rfl, rfl, fun place known => ?_, fun unknown id' same => ?_⟩
    · obtain ⟨other, stands, same⟩ := w.known_stands id place known
      have member_other := w.members other (List.mem_of_getElem? stands)
      rw [stands, orderly.distinct _ other id owned member_other rfl same]
    · cases same
      exact unknown

end Compile

namespace Stage

variable {compiler : Compiler} {graph : SchemaGraph} {member : Schema → Prop}
  (w : Stage compiler graph member) {schema : Schema}

/-- The known places after a schema has taken one. -/
def withPlace (known : List (SchemaId × ValidatorId)) (schema : Schema) (place : ValidatorId) :
    List (SchemaId × ValidatorId) :=
  match schema with
  | .node node _ _ _ => known ++ [(node, place)]
  | _ => known

theorem lookup_withPlace (known : List (SchemaId × ValidatorId)) (schema : Schema)
    (place : ValidatorId) (id : SchemaId) :
    (withPlace known schema place).lookup id =
      (known.lookup id).or (if schema.id? = some id then some place else none) := by
  cases schema with
  | node node location draft keywords =>
    simp only [withPlace, List.lookup_append, Schema.id?, Option.some.injEq]
    by_cases same : node = id
    · subst same
      simp
    · have apart : (id == node) = false := beq_false_of_ne (fun h => same h.symm)
      simp [List.lookup_cons, same, apart]
  | _ => simp [withPlace, Schema.id?]

/-- The stage in which a schema has taken the next place. -/
def entered (location : String) (owned : member schema)
    (fresh : ∀ id, schema.id? = some id → w.state.known.lookup id = none) :
    Stage compiler graph member where
  state :=
    { validators := w.state.validators.push (.unfilled location)
      known := withPlace w.state.known schema ⟨w.state.validators.size⟩ }
  stands := w.stands ++ [schema]
  size_eq := by
    rw [Array.size_push, List.length_append, w.size_eq]
    rfl
  members := by
    intro schema' mem
    rcases List.mem_append.1 mem with old | new
    · exact w.members schema' old
    · rw [List.mem_singleton.1 new]
      exact owned
  known_stands := by
    intro id place known
    rw [lookup_withPlace, Option.or_eq_some_iff] at known
    rcases known with old | ⟨-, new⟩
    · obtain ⟨schema', stands, same⟩ := w.known_stands id place old
      exact ⟨schema', getElem?_mono (List.prefix_append _ _) stands, same⟩
    · split at new
      · next same =>
        cases new
        refine ⟨schema, ?_, same⟩
        rw [w.size_eq]
        exact List.getElem?_concat_length
      · cases new
  node_known := by
    intro i schema' id stands same
    rw [lookup_withPlace]
    rcases Nat.lt_or_ge i w.stands.length with old | new
    · rw [List.getElem?_append_left old] at stands
      rw [w.node_known i schema' id stands same]
      rfl
    · rw [List.getElem?_append_right new, List.getElem?_singleton] at stands
      split at stands
      · next position =>
        cases stands
        rw [fresh id same, if_pos same, w.size_eq, Nat.le_antisymm new (by omega)]
        rfl
      · cases stands
  judged := by
    intro i schema' validator checks stands found filled
    rw [Array.getElem?_push] at found
    split at found
    · cases found
      cases filled
    · next old =>
      have bound : i < w.stands.length := by
        rw [← w.size_eq]
        exact (Array.getElem?_eq_some_iff.1 found).1
      rw [List.getElem?_append_left bound] at stands
      exact (w.judged i schema' validator checks stands found filled).mono
        (List.prefix_append _ _)

/-- The stage in which an open place has got checks that decide its schema. -/
def filled {i : Nat} (stands : w.stands[i]? = some schema) (location : String)
    (checks : List Check) (judges : Judges compiler graph w.stands schema checks) :
    Stage compiler graph member where
  state :=
    { validators := w.state.validators.set! i { location, checks := some checks }
      known := w.state.known }
  stands := w.stands
  size_eq := by
    rw [Array.set!_eq_setIfInBounds, Array.size_setIfInBounds]
    exact w.size_eq
  members := w.members
  known_stands := w.known_stands
  node_known := w.node_known
  judged := by
    intro j schema' validator checks' stands' found filled
    rw [Array.set!_eq_setIfInBounds, Array.getElem?_setIfInBounds] at found
    split at found
    · next same =>
      subst same
      split at found
      · cases found
        cases filled
        rw [stands] at stands'
        cases stands'
        exact judges
      · cases found
    · exact w.judged j schema' validator checks' stands' found filled

theorem open_entered {location : String} {owned : member schema}
    {fresh : ∀ id, schema.id? = some id → w.state.known.lookup id = none} {i : Nat} :
    (w.entered location owned fresh).Open i ↔ w.Open i ∨ i = w.stands.length := by
  unfold Open entered
  simp only [Array.getElem?_push, w.size_eq]
  constructor
  · rintro ⟨validator, found, unfilled⟩
    split at found
    · next new => exact .inr new
    · exact .inl ⟨validator, found, unfilled⟩
  · rintro (⟨validator, found, unfilled⟩ | rfl)
    · have bound : i < w.stands.length := by
        rw [← w.size_eq]
        exact (Array.getElem?_eq_some_iff.1 found).1
      refine ⟨validator, ?_, unfilled⟩
      rw [if_neg (Nat.ne_of_lt bound)]
      exact found
    · exact ⟨.unfilled location, if_pos rfl, rfl⟩

theorem open_filled {i : Nat} {stands : w.stands[i]? = some schema} {location : String}
    {checks : List Check} {judges : Judges compiler graph w.stands schema checks} {j : Nat} :
    (w.filled stands location checks judges).Open j ↔ w.Open j ∧ j ≠ i := by
  unfold Open filled
  simp only [Array.set!_eq_setIfInBounds, Array.getElem?_setIfInBounds]
  constructor
  · rintro ⟨validator, found, unfilled⟩
    split at found
    · split at found
      · cases found
        cases unfilled
      · cases found
    · next other => exact ⟨⟨validator, found, unfilled⟩, fun same => other same.symm⟩
  · rintro ⟨⟨validator, found, unfilled⟩, other⟩
    exact ⟨validator, by rw [if_neg (fun same => other same.symm)]; exact found, unfilled⟩

end Stage

namespace Compile

variable {compiler : Compiler} {graph : SchemaGraph} {member : Schema → Prop}
  {w : Stage compiler graph member} {recur : SchemaCompiler}

/-- Entering a schema, working out its checks and filling its place leads to a stage with the same
open places. -/
theorem reaches_bracket {schema : Schema} (location : String) (owned : member schema)
    (fresh : ∀ id, schema.id? = some id → w.state.known.lookup id = none)
    (work : Compile (List Check))
    (h : Reaches work (w.entered location owned fresh) fun checks w' =>
      Judges compiler graph w'.stands schema checks) :
    Reaches (do
      let id ← enter schema location
      let checks ← work
      fill id checks
      return id) w fun id w' => w'.stands[id.index]? = some schema := by
  refine after_anyhow (fun id s run => ?_)
  obtain ⟨place, s₁, run₁, rest₁⟩ := run_bind_eq_ok run
  have entered : place = ⟨w.stands.length⟩ ∧ s₁ = (w.entered location owned fresh).state := by
    cases schema <;> cases run₁ <;> exact ⟨by rw [w.size_eq], rfl⟩
  obtain ⟨rfl, rfl⟩ := entered
  obtain ⟨checks, s₂, run₂, rest₂⟩ := run_bind_eq_ok rest₁
  obtain ⟨w₂, up, rfl, judges⟩ := h.of_ok run₂
  obtain ⟨⟨⟩, s₃, run₃, rest₃⟩ := run_bind_eq_ok rest₂
  cases rest₃
  have stands : w₂.stands[w.stands.length]? = some schema :=
    getElem?_mono up.1 List.getElem?_concat_length
  have opened : w₂.Open w.stands.length := (up.2 _).2 ((w.open_entered).2 (.inr rfl))
  obtain ⟨validator, found, unfilled⟩ := opened
  have final : s = (w₂.filled stands validator.location checks judges).state := by
    have lookup : w₂.state.validators[w.stands.length]? = some validator := found
    unfold fill at run₃
    obtain ⟨state, s₄, run₄, rest₄⟩ := run_bind_eq_ok run₃
    cases run₄
    simp only [lookup, Validator.fill, unfilled] at rest₄
    cases rest₄
    rfl
  refine ⟨w₂.filled stands validator.location checks judges, ⟨?_, fun i => ?_⟩, final.symm, stands⟩
  · exact (List.prefix_append _ _).trans up.1
  · rw [w₂.open_filled, up.2 i, w.open_entered]
    constructor
    · rintro ⟨old | new, other⟩
      · exact old
      · exact absurd new other
    · intro old
      obtain ⟨validator', found', -⟩ := id old
      have bound := (Array.getElem?_eq_some_iff.1 found').1
      rw [w.size_eq] at bound
      exact ⟨.inl old, Nat.ne_of_lt bound⟩

/-- The checks of a schema judge it, if compiling the schemas in it gives them places. -/
theorem checksOf_judges (orderly : Orderly graph member) (total : compiler.IsTotal)
    (places : Places compiler graph member recur) {schema : Schema} (owned : member schema)
    (location : String) :
    Reaches (checksOf compiler graph recur schema location) w fun checks w' =>
      Judges compiler graph w'.stands schema checks := by
  unfold checksOf
  cases invalid : schema.isAlwaysInvalid with
  | true => exact after_pure (judges_never invalid _ location)
  | false =>
    refine after_bind (after_mapM (Q := fun (entry : Keyword × KeywordValue) check
      (w' : Stage compiler graph member) => Checked schema w' entry.1 entry.2 check)
      (fun _ _ _ _ up checked => checked.mono up) _ ?_) (fun checks w₃ _ checked => ?_)
    · intro entry mem w₃ _
      exact checkOf_checked orderly total places owned mem location
    · exact after_pure (judges_of_checked (orderly.typed schema owned) checked)

/-- Compiling a schema gives it a place, if compiling the schemas in it does. -/
theorem schemaWith_places (orderly : Orderly graph member) (total : compiler.IsTotal)
    (places : Places compiler graph member recur) :
    Places compiler graph member (schemaWith compiler graph recur) := by
  intro w schema fallback owned
  rw [schemaWith_eq]
  refine after_bind (reaches_known orderly owned) (fun found w₁ _ known => ?_)
  cases found with
  | some id => exact after_pure (known.1 id rfl)
  | none =>
    have inner : ∀ location, Reaches (placeAt compiler graph recur schema location) w₁
        fun id w' => w'.stands[id.index]? = some schema := fun location =>
      reaches_bracket location owned (known.2 rfl) _
        (checksOf_judges orderly total places owned location)
    dsimp only
    split
    · next location _ =>
      cases location.absoluteUri with
      | ok uri => exact inner uri
      | error fault => exact after_throw trivial
    · exact inner fallback

theorem schemaWithin_places (orderly : Orderly graph member) (total : compiler.IsTotal)
    (depth : Nat) : Places compiler graph member (schemaWithin compiler graph depth) := by
  induction depth with
  | zero =>
    intro w schema place owned
    exact after_throw trivial
  | succ depth ih => exact schemaWith_places orderly total ih

end Compile

/-- A table of compiled schemas and the schemas that its places stand for: no node has two places,
and the checks at a place decide its schema. -/
structure Represents (compiler : Compiler) (graph : SchemaGraph) (member : Schema → Prop)
    (table : Array Validator) (stands : List Schema) : Prop where
  size_eq : table.size = stands.length
  members : ∀ schema ∈ stands, member schema
  once : ∀ (i j : Nat) schema other id, stands[i]? = some schema → stands[j]? = some other →
    schema.id? = some id → other.id? = some id → i = j
  judged : ∀ (i : Nat) schema, stands[i]? = some schema → ∃ location checks,
    table[i]? = some { location, checks := some checks } ∧
    Judges compiler graph stands schema checks

/-- The stage before compiling. -/
def Stage.empty (compiler : Compiler) (graph : SchemaGraph) (member : Schema → Prop) :
    Stage compiler graph member where
  state := .empty
  stands := []
  size_eq := rfl
  members := nofun
  known_stands := nofun
  node_known := nofun
  judged := nofun

theorem Stage.represents {compiler : Compiler} {graph : SchemaGraph} {member : Schema → Prop}
    {w : Stage compiler graph member} (closed : ∀ i, ¬ w.Open i) :
    Represents compiler graph member w.state.validators w.stands where
  size_eq := w.size_eq
  members := w.members
  once := by
    intro i j schema other id at_i at_j same same'
    have known := w.node_known i schema id at_i same
    rw [w.node_known j other id at_j same'] at known
    cases known
    rfl
  judged := by
    intro i schema stands
    have bound : i < w.state.validators.size := by
      rw [w.size_eq]
      exact (List.getElem?_eq_some_iff.1 stands).1
    have found := Array.getElem?_eq_getElem bound
    cases checks : w.state.validators[i].checks with
    | none => exact absurd ⟨_, found, checks⟩ (closed i)
    | some listed =>
      refine ⟨w.state.validators[i].location, listed, ?_, ?_⟩
      · rw [found, ← checks]
      · exact w.judged i schema _ listed stands found checks

/-- Compiling a schema gives a table that decides every schema that the root leads to. -/
theorem CompiledSchema.ofSchema_represents {compiler : Compiler} {graph : SchemaGraph}
    {member : Schema → Prop} (orderly : Orderly graph member) (total : compiler.IsTotal)
    {root : Schema} (owned : member root) {compiled : CompiledSchema}
    (ok : CompiledSchema.ofSchema compiler graph root = .ok compiled) :
    ∃ stands : List Schema, stands[compiled.root.index]? = some root ∧
      Represents compiler graph member compiled.table stands := by
  have places := Compile.schemaWithin_places orderly total (graph.nextNode + 2)
    (Stage.empty compiler graph member) root "#" owned
  unfold CompiledSchema.ofSchema at ok
  split at ok
  · next id state run =>
    cases ok
    obtain ⟨w, up, hs, stands⟩ := places.of_ok run
    refine ⟨w.stands, stands, ?_⟩
    rw [← hs]
    refine Stage.represents (fun i opened => ?_)
    obtain ⟨validator, found, -⟩ := (up.2 i).1 opened
    cases found
  · cases ok

end JsonSchema
