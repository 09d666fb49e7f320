import JsonSchema.Validation.Validate
import Mathlib.Logic.Relation

/-!
# The meaning of keywords

What a keyword demands of a value is written over the verdict on the schemas in it: `accepts` says
of a schema and a value that the schema accepts it. `Meaning.Holds` is the demand of one
keyword, `Schema.Meets` that of a schema: every keyword with an assertion that applies to the type
of the value holds. Nothing in here says how the verdict is found.

A schema is used in one of four ways (`Use`). Only `inside` leads to another value; the other three
stay at the same one, and among them only `judged` also counts that a schema does not accept.

* `Meaning.Holds.mono`: the demand depends on the verdicts on the schemas in the keyword, at the
  same value or at values inside it, and only through `judged` can more acceptance break it.

The order of a NaN and a decimal cannot be asked for, so a schema judges the values whose numbers
compare with all bounds (`Json.IsComparable`).
-/

namespace JsonSchema

/-! ## Values -/

theorem Members.mem_of_lookup {κ α : Type} [BEq κ] [LawfulBEq κ] {members : List (κ × α)}
    {name : κ} {value : α} (found : members.lookup name = some value) : (name, value) ∈ members := by
  obtain ⟨front, back, split, -⟩ := List.lookup_eq_some_iff.1 found
  rw [split]
  exact List.mem_append_right _ List.mem_cons_self

namespace Json

mutual

/-- A value without byte strings, in which no object has two members of one name. -/
def IsProper : Json → Prop
  | .array items => AreProper items
  | .object members => (Members.keys members).Nodup ∧ AreProperMembers members
  | .bytes _ => False
  | _ => True

/-- Every item is proper. -/
def AreProper : List Json → Prop
  | [] => True
  | item :: rest => IsProper item ∧ AreProper rest

/-- Every member is proper. -/
def AreProperMembers : List (String × Json) → Prop
  | [] => True
  | (_, value) :: rest => IsProper value ∧ AreProperMembers rest

end

theorem areProper_iff (items : List Json) : AreProper items ↔ ∀ item ∈ items, item.IsProper := by
  induction items with
  | nil => simp [AreProper]
  | cons item rest ih => simp [AreProper, ih]

theorem areProperMembers_iff (members : List (String × Json)) :
    AreProperMembers members ↔ ∀ member ∈ members, member.2.IsProper := by
  induction members with
  | nil => simp [AreProperMembers]
  | cons member rest ih => simp [AreProperMembers, ih]

theorem IsProper.item {items : List Json} (h : (Json.array items).IsProper) {item : Json}
    (mem : item ∈ items) : item.IsProper := by
  unfold IsProper at h
  exact (areProper_iff items).1 h item mem

theorem IsProper.member {members : List (String × Json)} (h : (Json.object members).IsProper)
    {name : String} {value : Json} (mem : (name, value) ∈ members) : value.IsProper := by
  unfold IsProper at h
  exact (areProperMembers_iff members).1 h.2 (name, value) mem

theorem isProper_string (text : String) : (Json.string text).IsProper := by
  unfold IsProper
  trivial

theorem IsProper.type {value : Json} (h : value.IsProper) :
    ∃ type, value.instanceType? = some type := by
  cases value with
  | bytes text => exact absurd h (by simp [IsProper])
  | _ => exact ⟨_, rfl⟩

theorem depth_pos (value : Json) : 0 < value.depth := by
  cases value <;> simp only [depth] <;> omega

theorem depth_le_depthOfItems {items : List Json} {item : Json} (mem : item ∈ items) :
    item.depth ≤ depthOfItems items := by
  induction items with
  | nil => cases mem
  | cons first rest ih =>
    unfold depthOfItems
    rcases List.mem_cons.1 mem with rfl | later
    · exact Nat.le_max_left _ _
    · exact Nat.le_trans (ih later) (Nat.le_max_right _ _)

theorem depth_le_depthOfMembers {members : List (String × Json)} {name : String} {value : Json}
    (mem : (name, value) ∈ members) : value.depth ≤ depthOfMembers members := by
  induction members with
  | nil => cases mem
  | cons first rest ih =>
    unfold depthOfMembers
    rcases List.mem_cons.1 mem with rfl | later
    · exact Nat.le_max_left _ _
    · exact Nat.le_trans (ih later) (Nat.le_max_right _ _)

theorem depth_item {items : List Json} {item : Json} (mem : item ∈ items) :
    item.depth < (Json.array items).depth := by
  have h := depth_le_depthOfItems mem
  simp only [depth]
  omega

theorem depth_member {members : List (String × Json)} {name : String} {value : Json}
    (mem : (name, value) ∈ members) : value.depth < (Json.object members).depth := by
  have h := depth_le_depthOfMembers mem
  simp only [depth]
  omega

/-- A name is no deeper than the value under it. -/
theorem depth_name {members : List (String × Json)} {name : String} {value : Json}
    (mem : (name, value) ∈ members) : (Json.string name).depth < (Json.object members).depth := by
  have h := depth_member mem
  have positive := depth_pos value
  simp only [depth] at h ⊢
  omega

/-- A value that stands directly in another one, as an item, as the value of a member or as its
name. -/
inductive IsInside : Json → Json → Prop
  | item {items : List Json} {item : Json} (mem : item ∈ items) : IsInside item (.array items)
  | member {members : List (String × Json)} {name : String} {value : Json}
    (mem : (name, value) ∈ members) : IsInside value (.object members)
  | name {members : List (String × Json)} {name : String} {value : Json}
    (mem : (name, value) ∈ members) : IsInside (.string name) (.object members)

theorem IsInside.depth_lt {inner v : Json} (inside : inner.IsInside v) : inner.depth < v.depth := by
  cases inside with
  | item mem => exact depth_item mem
  | member mem => exact depth_member mem
  | name mem => exact depth_name mem

/-- A number stands somewhere in a value. -/
inductive HasNumber (n : Number) : Json → Prop
  | here : HasNumber n (.number n)
  | inside {inner v : Json} (inside : inner.IsInside v) (has : HasNumber n inner) : HasNumber n v

end Json

/-! ## Keywords -/

/-- How an assertion uses a schema. -/
inductive Use where
  /-- On the same value, and only its acceptance counts. -/
  | beside
  /-- On the same value, and both verdicts count. -/
  | judged
  /-- On the same value, as what a reference stands for. -/
  | target
  /-- On a value inside the value. -/
  | inside
  deriving DecidableEq, Repr

/-- The schemas that `items` names. -/
def ItemsForm.schemas : ItemsForm → List Schema
  | .absent => []
  | .every schema => [schema]
  | .each schemas => schemas

/-- Whether the bounds of a limit are numbers. -/
def Limit.IsNumeric (limit : Limit) : Prop :=
  ∀ bound, limit.bound = some bound ∨ limit.exclusiveBound = some bound →
    bound.plainNumber?.isSome

/-- Whether a number can be asked on which side of the bounds of a limit it lies. -/
def Limit.Compares (limit : Limit) (n : Number) : Prop :=
  ∀ bound b, limit.bound = some bound ∨ limit.exclusiveBound = some bound →
    bound.plainNumber? = some b → n.compares b = true

/-- A property of the integer that a count keyword holds. -/
def KeywordValue.Counts (demand : Int → Prop) : KeywordValue → Prop
  | .literal _ (.number n) => ∀ bound, n.truncate? = some bound → demand bound
  | _ => True

namespace Meaning

/-- The schemas that an assertion uses, with the way in which it does. -/
def uses (graph : SchemaGraph) (assertion : Assertion) (value : KeywordValue) :
    List (Use × Schema) :=
  match assertion, value with
  | .allOf, .schemaList schemas => schemas.map (.beside, ·)
  | .extending, .schemaList schemas => schemas.map (.beside, ·)
  | .anyOf, .schemaList schemas => schemas.map (.beside, ·)
  | .oneOf, .schemaList schemas => schemas.map (.judged, ·)
  | .not, .schema schema => [(.judged, schema)]
  | .ref, .reference _ _ target => (graph.schema? target).toList.map (.target, ·)
  | .items, .items form additional => (form.schemas ++ additional.toList).map (.inside, ·)
  | .contains, .schema schema => [(.inside, schema)]
  | .properties, .schemaMap schemas => schemas.map fun (_, schema) => (.inside, schema)
  | .patternProperties, .schemaMap schemas => schemas.map fun (_, schema) => (.inside, schema)
  | .additionalProperties, .schema schema => [(.inside, schema)]
  | .propertyNames, .schema schema => [(.inside, schema)]
  | .dependencies, .dependencies _ schemas => schemas.map fun (_, schema) => (.beside, schema)
  | _, _ => []

end Meaning

/-- A number is a whole multiple of another, by the fractions that their texts stand for. -/
def Number.IsMultipleOf (n divisor : Number) : Prop :=
  ∃ (q r : Rat) (k : Int), n.fraction = .ok q ∧ divisor.fraction = .ok r ∧ q = k * r

/-- A number lies beyond neither bound of a limit, nor on one that is exclusive. -/
def Limit.Admits (limit : Limit) (beyond : Number → Number → Bool) (n : Number) : Prop :=
  (∀ bound b, limit.bound = some bound → bound.plainNumber? = some b →
    beyond n b = false ∧ (limit.exclusive = true → n.equals b = false)) ∧
  (∀ bound b, limit.exclusiveBound = some bound → bound.plainNumber? = some b →
    beyond n b = false ∧ n.equals b = false)

/-- Whether a schema has the flag with which draft 3 requires the property it is for. -/
def Schema.IsFlagged (schema : Schema) : Prop :=
  ∃ flag, schema.get? Builtin.required = some (.literal .boolean flag) ∧ flag.isTruthy = true

/-- What `items` demands of the items of an array. -/
def ItemsForm.Holds (accepts : Use → Schema → Json → Prop) (additional : Option Schema)
    (items : List Json) : ItemsForm → Prop
  | .absent => True
  | .every schema => ∀ item ∈ items, accepts .inside schema item
  | .each schemas =>
    (∀ (position : Nat) schema item, schemas[position]? = some schema →
      items[position]? = some item → accepts .inside schema item) ∧
    (∀ schema, additional = some schema → ∀ item ∈ items.drop schemas.length,
      accepts .inside schema item)

theorem ItemsForm.Holds.mono {accepts accepts' : Use → Schema → Json → Prop}
    {additional : Option Schema} {items : List Json} {form : ItemsForm}
    (step : ∀ schema ∈ form.schemas ++ additional.toList, ∀ item ∈ items,
      accepts .inside schema item → accepts' .inside schema item)
    (h : form.Holds accepts additional items) : form.Holds accepts' additional items := by
  cases form with
  | absent => trivial
  | every schema =>
    intro item mem
    exact step schema (by simp [schemas]) item mem (h item mem)
  | each listed =>
    refine ⟨fun position schema item at_schema at_item => ?_, fun schema more item mem => ?_⟩
    · have used : schema ∈ (ItemsForm.each listed).schemas ++ additional.toList :=
        List.mem_append_left _ (List.mem_of_getElem? at_schema)
      exact step schema used item (List.mem_of_getElem? at_item)
        (h.1 position schema item at_schema at_item)
    · have used : schema ∈ (ItemsForm.each listed).schemas ++ additional.toList := by
        simp [more]
      exact step schema used item (List.mem_of_mem_drop mem) (h.2 schema more item mem)

namespace Meaning

variable (compiler : Compiler) (graph : SchemaGraph) (accepts : Use → Schema → Json → Prop)

/-- What a keyword of a schema demands of a value. -/
def Holds (owner : Schema) (v : Json) (assertion : Assertion) (value : KeywordValue) : Prop :=
  match assertion, value with
  | .type, .types types => ∃ type, v.instanceType? = some type ∧ type.admittedBy types = true
  | .disallow, .types types => ∃ type, v.instanceType? = some type ∧ type.admittedBy types = false
  | .enum, .jsonArray values => ∃ listed ∈ values, v.equals listed = true
  | .enum, .stringSet names => ∃ name ∈ names, v = .string name
  | .const, .literal _ constant => v.equals constant = true
  | .allOf, .schemaList schemas => ∀ schema ∈ schemas, accepts .beside schema v
  | .extending, .schemaList schemas => ∀ schema ∈ schemas, accepts .beside schema v
  | .anyOf, .schemaList schemas => ∃ schema ∈ schemas, accepts .beside schema v
  | .oneOf, .schemaList schemas =>
    ∃ (position : Nat) (schema : Schema), schemas[position]? = some schema ∧
      accepts .judged schema v ∧
      ∀ (other : Nat) (schema' : Schema), schemas[other]? = some schema' →
        accepts .judged schema' v → other = position
  | .not, .schema schema => ¬ accepts .judged schema v
  | .ref, .reference _ _ target => ∃ schema, graph.schema? target = some schema ∧
      accepts .target schema v
  | .format, .literal _ (.string name) =>
    ∀ text test, v = .string text → compiler.formats.lookup name = some test →
      test text = .ok true
  | .multipleOf, .literal _ (.number divisor) => ∀ n, v = .number n → n.IsMultipleOf divisor
  | .divisibleBy, .literal _ (.number divisor) => ∀ n, v = .number n → n.IsMultipleOf divisor
  | .minimum, .limit limit => ∀ n, v = .number n → limit.Admits Number.less n
  | .maximum, .limit limit => ∀ n, v = .number n → limit.Admits (fun x y => y.less x) n
  | .minLength, value => ∀ text, v = .string text → value.Counts (· ≤ text.length)
  | .maxLength, value => ∀ text, v = .string text → value.Counts (text.length ≤ ·)
  | .minItems, value => ∀ items, v = .array items → value.Counts (· ≤ items.length)
  | .maxItems, value => ∀ items, v = .array items → value.Counts (items.length ≤ ·)
  | .minProperties, value => ∀ members, v = .object members → value.Counts (· ≤ members.length)
  | .maxProperties, value => ∀ members, v = .object members → value.Counts (members.length ≤ ·)
  | .pattern, .literal _ (.string pattern) =>
    ∀ text search, v = .string text → compiler.search pattern = .ok search → search text = true
  | .items, .items form additional => ∀ items, v = .array items →
      form.Holds accepts additional items
  | .uniqueItems, .literal _ flag => flag.isTruthy = true → ∀ items, v = .array items →
      items.Pairwise fun x y => x.equals y = false
  | .contains, .schema schema => ∀ items, v = .array items →
      ∃ item ∈ items, accepts .inside schema item
  | .properties, .schemaMap schemas => ∀ members, v = .object members →
      ∀ name schema, (name, schema) ∈ schemas →
        (∀ inner, members.lookup name = some inner → accepts .inside schema inner) ∧
        (schema.IsFlagged → (members.lookup name).isSome)
  | .patternProperties, .schemaMap schemas => ∀ members, v = .object members →
      ∀ name inner, (name, inner) ∈ members → ∀ pattern schema, (pattern, schema) ∈ schemas →
        ∀ search, compiler.search pattern = .ok search → search name = true →
          accepts .inside schema inner
  | .additionalProperties, .schema schema => ∀ members, v = .object members →
      ∀ name inner, (name, inner) ∈ members →
        name ∉ Compile.namesUnder owner Builtin.properties →
        (∀ pattern ∈ Compile.namesUnder owner Builtin.patternProperties,
          ∀ search, compiler.search pattern = .ok search → search name = false) →
        accepts .inside schema inner
  | .required, .stringSet names => ∀ members, v = .object members →
      ∀ name ∈ names, (members.lookup name).isSome
  | .propertyNames, .schema schema => ∀ members, v = .object members →
      ∀ name inner, (name, inner) ∈ members → accepts .inside schema (.string name)
  | .dependencies, .dependencies names schemas => ∀ members, v = .object members →
      (∀ name needed, (name, needed) ∈ names → (members.lookup name).isSome →
        ∀ other ∈ needed, (members.lookup other).isSome) ∧
      (∀ name schema, (name, schema) ∈ schemas → (members.lookup name).isSome →
        accepts .beside schema v)
  | _, _ => True

/-- The demand of a keyword is kept when the verdicts change: those at the same value may turn to
acceptance unless they are judged, and so may those on the values inside. -/
theorem Holds.mono {accepts' : Use → Schema → Json → Prop} {owner : Schema} {v : Json}
    {assertion : Assertion} {value : KeywordValue} (proper : v.IsProper)
    (same : ∀ use schema, (use, schema) ∈ uses graph assertion value → use ≠ .inside →
      accepts use schema v → accepts' use schema v)
    (judged : ∀ schema, (.judged, schema) ∈ uses graph assertion value →
      accepts' .judged schema v → accepts .judged schema v)
    (inside : ∀ schema inner, (.inside, schema) ∈ uses graph assertion value →
      inner.IsProper → inner.IsInside v → accepts .inside schema inner →
      accepts' .inside schema inner)
    (h : Holds compiler graph accepts owner v assertion value) :
    Holds compiler graph accepts' owner v assertion value := by
  unfold Holds at h ⊢
  -- the keywords without schemas demand the same under any verdicts
  split <;> dsimp only at h ⊢ <;> try exact h
  -- allOf, extends
  iterate 2
    next schemas =>
      intro schema mem
      exact same .beside schema (List.mem_map_of_mem mem) (by decide) (h schema mem)
  -- anyOf
  next schemas =>
    obtain ⟨schema, mem, accepted⟩ := h
    exact ⟨schema, mem, same .beside schema (List.mem_map_of_mem mem) (by decide) accepted⟩
  -- oneOf
  next schemas =>
    obtain ⟨position, schema, at_position, accepted, alone⟩ := h
    have used : ∀ {i : Nat} {s : Schema}, schemas[i]? = some s →
        (Use.judged, s) ∈ uses graph .oneOf (.schemaList schemas) :=
      fun found => List.mem_map_of_mem (List.mem_of_getElem? found)
    refine ⟨position, schema, at_position,
      same .judged schema (used at_position) (by decide) accepted, ?_⟩
    intro other schema' at_other accepted'
    exact alone other schema' at_other (judged schema' (used at_other) accepted')
  -- not
  next schema =>
    intro accepted
    exact h (judged schema (List.mem_singleton_self _) accepted)
  -- $ref
  next ref uri target =>
    obtain ⟨schema, bound, accepted⟩ := h
    have used : (Use.target, schema) ∈ uses graph .ref (.reference ref uri target) := by
      simp [uses, bound]
    exact ⟨schema, bound, same .target schema used (by decide) accepted⟩
  -- items
  next form additional =>
    intro items array
    have holds := h items array
    subst array
    refine holds.mono (fun schema used item mem => ?_)
    exact inside schema item (List.mem_map_of_mem used) (proper.item mem) (.item mem)
  -- contains
  next schema =>
    intro items array
    obtain ⟨item, mem, accepted⟩ := h items array
    subst array
    exact ⟨item, mem, inside schema item (List.mem_singleton_self _) (proper.item mem)
      (.item mem) accepted⟩
  -- properties
  next schemas =>
    intro members object name schema mem
    obtain ⟨present, flagged⟩ := h members object name schema mem
    subst object
    refine ⟨fun inner found => ?_, flagged⟩
    have member := Members.mem_of_lookup found
    exact inside schema inner (List.mem_map_of_mem mem) (proper.member member)
      (.member member) (present inner found)
  -- patternProperties
  next schemas =>
    intro members object name inner member pattern schema mem search compiled found
    have accepted := h members object name inner member pattern schema mem search compiled found
    subst object
    exact inside schema inner (List.mem_map_of_mem mem) (proper.member member)
      (.member member) accepted
  -- additionalProperties
  next schema =>
    intro members object name inner member undeclared unmatched
    have accepted := h members object name inner member undeclared unmatched
    subst object
    exact inside schema inner (List.mem_singleton_self _) (proper.member member)
      (.member member) accepted
  -- propertyNames
  next schema =>
    intro members object name inner member
    have accepted := h members object name inner member
    subst object
    exact inside schema (.string name) (List.mem_singleton_self _) (Json.isProper_string name)
      (.name member) accepted
  -- dependencies
  next names schemas =>
    intro members object
    obtain ⟨needed, beside⟩ := h members object
    refine ⟨needed, fun name schema mem present => ?_⟩
    exact same .beside schema (List.mem_map_of_mem mem) (by decide) (beside name schema mem present)

/-- Whether a keyword value is of the kind that its assertion works with. What is not said here,
compiling checks. -/
def Fits (assertion : Assertion) (value : KeywordValue) : Prop :=
  match assertion, value with
  | .type, .types _ | .disallow, .types _ => True
  | .type, _ | .disallow, _ => False
  | .minimum, .limit limit | .maximum, .limit limit => limit.IsNumeric
  | .minimum, _ | .maximum, _ => False
  | .multipleOf, .literal _ (.number n) | .divisibleBy, .literal _ (.number n) =>
    n.fraction ≠ .ok 0
  | _, _ => True

end Meaning

/-! ## Schemas -/

namespace Schema

/-- The identity of a node. -/
def id? : Schema → Option SchemaId
  | .node id _ _ _ => some id
  | _ => none

/-- The keywords of a schema that have an assertion. -/
def Asserts (schema : Schema) (keyword : Keyword) (assertion : Assertion) (value : KeywordValue) :
    Prop :=
  (keyword, value) ∈ schema.keywords ∧ Assertion.ofKey? keyword.key = some assertion

/-- A schema uses another one in some keyword. -/
def Uses (graph : SchemaGraph) (use : Use) (owner schema : Schema) : Prop :=
  ∃ keyword assertion value, owner.Asserts keyword assertion value ∧
    (use, schema) ∈ Meaning.uses graph assertion value

/-- Whether a number can be compared with the bounds that a schema has. -/
def Compares (schema : Schema) (n : Number) : Prop :=
  ∀ keyword limit, (keyword, .limit limit) ∈ schema.keywords → limit.Compares n

/-- A schema leads to another one. -/
def Reaches (graph : SchemaGraph) : Schema → Schema → Prop :=
  Relation.ReflTransGen fun owner schema => ∃ use, owner.Uses graph use schema

/-- A schema leads to another one that is asked about the same value. -/
def Stays (graph : SchemaGraph) : Schema → Schema → Prop :=
  Relation.ReflTransGen fun owner schema => ∃ use, use ≠ .inside ∧ owner.Uses graph use schema

/-- What a schema demands of a value, over the verdicts on the schemas that it uses. -/
def Meets (compiler : Compiler) (graph : SchemaGraph) (accepts : Use → Schema → Json → Prop)
    (schema : Schema) (v : Json) : Prop :=
  ∀ keyword assertion value, schema.Asserts keyword assertion value →
    ∀ type, v.instanceType? = some type → keyword.appliesToType type = true →
      Meaning.Holds compiler graph accepts schema v assertion value

/-- Whether the keywords of a schema hold values that their assertions work with, and apply to no
other types than these. -/
def IsTyped (schema : Schema) : Prop :=
  ∀ keyword assertion value, schema.Asserts keyword assertion value →
    Meaning.Fits assertion value ∧
      ∀ type, keyword.appliesToType type = true → assertion.keyword.appliesToType type = true

theorem Meets.mono {compiler : Compiler} {graph : SchemaGraph}
    {accepts accepts' : Use → Schema → Json → Prop} {owner : Schema} {v : Json}
    (proper : v.IsProper)
    (same : ∀ use schema, owner.Uses graph use schema → use ≠ .inside →
      accepts use schema v → accepts' use schema v)
    (judged : ∀ schema, owner.Uses graph .judged schema →
      accepts' .judged schema v → accepts .judged schema v)
    (inside : ∀ schema inner, owner.Uses graph .inside schema → inner.IsProper →
      inner.IsInside v → accepts .inside schema inner → accepts' .inside schema inner)
    (h : owner.Meets compiler graph accepts v) : owner.Meets compiler graph accepts' v := by
  intro keyword assertion value asserts type typed applies
  have used : ∀ {use schema}, (use, schema) ∈ Meaning.uses graph assertion value →
      owner.Uses graph use schema := fun mem => ⟨keyword, assertion, value, asserts, mem⟩
  refine (h keyword assertion value asserts type typed applies).mono compiler graph accepts proper
    ?_ ?_ ?_
  · exact fun use schema mem => same use schema (used mem)
  · exact fun schema mem => judged schema (used mem)
  · exact fun schema inner mem => inside schema inner (used mem)

theorem Meets.congr {compiler : Compiler} {graph : SchemaGraph}
    {accepts accepts' : Use → Schema → Json → Prop} {owner : Schema} {v : Json}
    (proper : v.IsProper)
    (same : ∀ use schema, owner.Uses graph use schema → use ≠ .inside →
      (accepts use schema v ↔ accepts' use schema v))
    (inside : ∀ schema inner, owner.Uses graph .inside schema → inner.IsProper →
      inner.IsInside v → (accepts .inside schema inner ↔ accepts' .inside schema inner)) :
    owner.Meets compiler graph accepts v ↔ owner.Meets compiler graph accepts' v := by
  constructor
  · refine Meets.mono proper (fun use schema used here => (same use schema used here).1)
      (fun schema used => (same .judged schema used (by decide)).2)
      (fun schema inner used proper' within => (inside schema inner used proper' within).1)
  · refine Meets.mono proper (fun use schema used here => (same use schema used here).2)
      (fun schema used => (same .judged schema used (by decide)).1)
      (fun schema inner used proper' within => (inside schema inner used proper' within).2)

/-- A schema without keywords demands nothing. -/
theorem meets_of_valid {compiler : Compiler} {graph : SchemaGraph}
    {accepts : Use → Schema → Json → Prop} {schema : Schema} {v : Json}
    (valid : schema.isAlwaysValid = true) : schema.Meets compiler graph accepts v := by
  intro keyword assertion value asserts
  have none : schema.keywords = [] := List.isEmpty_iff.1 valid
  have mem := asserts.1
  rw [none] at mem
  cases mem

theorem not_invalid_of_valid {schema : Schema} (valid : schema.isAlwaysValid = true) :
    schema.isAlwaysInvalid = false := by
  have none : schema.keywords = [] := List.isEmpty_iff.1 valid
  unfold isAlwaysInvalid
  rw [none]

/-- A schema that accepts nothing negates a schema without keywords. -/
theorem uses_of_invalid (graph : SchemaGraph) {schema : Schema}
    (invalid : schema.isAlwaysInvalid = true) :
    ∃ inner, inner.isAlwaysValid = true ∧ schema.Uses graph .judged inner ∧
      schema.Asserts Builtin.not .not (.schema inner) := by
  unfold isAlwaysInvalid at invalid
  split at invalid
  · next keyword inner keywords =>
    rw [Bool.and_eq_true, decide_eq_true_eq] at invalid
    obtain ⟨rfl, valid⟩ := invalid
    have asserts : schema.Asserts Builtin.not .not (.schema inner) :=
      ⟨by rw [keywords]; exact List.mem_singleton_self _, by decide⟩
    exact ⟨inner, valid, ⟨Builtin.not, .not, .schema inner, asserts, List.mem_singleton_self _⟩,
      asserts⟩
  · cases invalid

theorem not_meets_of_invalid {compiler : Compiler} {graph : SchemaGraph}
    {accepts : Use → Schema → Json → Prop} {schema : Schema} {v : Json} (proper : v.IsProper)
    (invalid : schema.isAlwaysInvalid = true)
    (valid : ∀ inner, schema.Uses graph .judged inner → inner.isAlwaysValid = true →
      accepts .judged inner v) :
    ¬ schema.Meets compiler graph accepts v := by
  intro met
  obtain ⟨inner, accepted, used, asserts⟩ := uses_of_invalid graph invalid
  obtain ⟨type, typed⟩ := proper.type
  have applies : Builtin.not.appliesToType type = true := by
    cases type <;> rfl
  exact met Builtin.not .not (.schema inner) asserts type typed applies
    (valid inner used accepted)

end Schema

namespace Json

/-- Whether the numbers in a value can be compared with all bounds of some schemas. -/
def IsComparable (member : Schema → Prop) (v : Json) : Prop :=
  ∀ n, v.HasNumber n → ∀ schema, member schema → schema.Compares n

variable {member member' : Schema → Prop} {v inner : Json}

theorem IsComparable.inside (h : v.IsComparable member) (inside : inner.IsInside v) :
    inner.IsComparable member :=
  fun n has => h n (.inside inside has)

theorem IsComparable.anti (h : v.IsComparable member) (less : ∀ schema, member' schema →
    member schema) : v.IsComparable member' :=
  fun n has schema owned => h n has schema (less schema owned)

end Json

end JsonSchema
