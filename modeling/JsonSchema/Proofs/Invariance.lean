import JsonSchema.Proofs.Equality
import JsonSchema.Proofs.Usable

/-!
# Equal values have one verdict

What a keyword demands of a value it demands of every equal one: the kinds of numbers and the order
of members do not count (`Meaning.Holds.transfer`). The exceptions are the keywords that divide. They
divide by what the text of a double stands for, which may be another number than the double is. So
equal values of which one has a double can be told apart by a divisor (`Load.tens_tells_apart`),
unless their equal numbers are multiples of the same divisors (`Json.DivideAlike`). Numbers that are
no doubles are (`Number.isMultipleOf_congr`).

By induction on the steps of acceptance equal values are accepted by the same schemas
(`Schema.accepts_congr`), so validation has one verdict on both (`Load.isValid_eq_of_equals`).
-/

namespace JsonSchema

/-! ## Values that divide alike -/

/-- A divisor stands in a keyword of a schema. -/
def Schema.HasDivisor (schema : Schema) (divisor : Number) : Prop :=
  ∃ keyword assertion kind, schema.Asserts keyword assertion (.literal kind (.number divisor)) ∧
    (assertion = .multipleOf ∨ assertion = .divisibleBy)

/-- A number is a double. -/
def Number.IsDouble (n : Number) : Prop :=
  ∃ x, n = .double x

/-- Equal numbers that are no doubles are multiples of the same divisors. -/
theorem Number.isMultipleOf_congr {m n : Number} (equal : m.equals n = true)
    (exact : ¬ (m.IsDouble ∨ n.IsDouble)) (divisor : Number) :
    m.IsMultipleOf divisor ↔ n.IsMultipleOf divisor := by
  unfold IsMultipleOf
  rw [fraction_congr equal (fun x h => exact (.inl ⟨x, h⟩)) (fun x h => exact (.inr ⟨x, h⟩))]

/-- Equal numbers of two values, at least one of them a double, are multiples of the same divisors of
some schemas. -/
def Json.DivideAlike (member : Schema → Prop) (v w : Json) : Prop :=
  ∀ schema divisor, member schema → schema.HasDivisor divisor → ∀ m n, v.HasNumber m →
    w.HasNumber n → m.equals n = true → m.IsDouble ∨ n.IsDouble →
      (m.IsMultipleOf divisor ↔ n.IsMultipleOf divisor)

/-- Equal proper values whose numbers divide alike. -/
structure Json.Twins (member : Schema → Prop) (v w : Json) : Prop where
  equal : v.equals w = true
  proper : v.IsProper
  proper' : w.IsProper
  alike : v.DivideAlike member w

namespace Json.Twins

variable {member : Schema → Prop} {v w : Json}

theorem symm (twins : Twins member v w) : Twins member w v where
  equal := equals_symm v twins.proper twins.proper' twins.equal
  proper := twins.proper'
  proper' := twins.proper
  alike schema divisor owned has m n stands stands' equal double :=
    (twins.alike schema divisor owned has n m stands' stands (Number.equals_symm equal) double.symm).symm

/-- Equal values inside twins are twins. -/
theorem inside (twins : Twins member v w) {inner inner' : Json} (within : inner.IsInside v)
    (within' : inner'.IsInside w) (proper : inner.IsProper) (proper' : inner'.IsProper)
    (equal : inner.equals inner' = true) : Twins member inner inner' where
  equal := equal
  proper := proper
  proper' := proper'
  alike schema divisor owned has m n h h' :=
    twins.alike schema divisor owned has m n (.inside within h) (.inside within' h')

theorem number {n : Number} (twins : Twins member v (.number n)) :
    ∃ m, v = .number m ∧ m.equals n = true ∧ ∀ schema divisor, member schema →
      schema.HasDivisor divisor → (m.IsMultipleOf divisor ↔ n.IsMultipleOf divisor) := by
  obtain ⟨m, rfl, equal⟩ := equals_number_iff.1 twins.symm.equal
  have equal := Number.equals_symm equal
  refine ⟨m, rfl, equal, fun schema divisor owned has => ?_⟩
  by_cases double : m.IsDouble ∨ n.IsDouble
  · exact twins.alike schema divisor owned has m n .here .here equal double
  · exact Number.isMultipleOf_congr equal double divisor

theorem string {text : String} (twins : Twins member v (.string text)) : v = .string text :=
  equals_string_iff.1 twins.symm.equal

theorem array {ys : List Json} (twins : Twins member v (.array ys)) :
    ∃ xs, v = .array xs ∧ List.Forall₂ (Twins member) xs ys := by
  obtain ⟨xs, rfl, -⟩ := equals_array_iff.1 twins.symm.equal
  obtain ⟨_, ⟨⟩, each⟩ := equals_array_iff.1 twins.equal
  refine ⟨xs, rfl, ?_⟩
  rw [List.forall₂_iff_get] at each ⊢
  refine ⟨each.1, fun i bound bound' => ?_⟩
  have mem := List.get_mem xs ⟨i, bound⟩
  have mem' := List.get_mem ys ⟨i, bound'⟩
  exact twins.inside (.item mem) (.item mem') (twins.proper.item mem) (twins.proper'.item mem')
    (each.2 i bound bound')

theorem object {ys : List (String × Json)} (twins : Twins member v (.object ys)) :
    ∃ xs, v = .object xs ∧ xs.length = ys.length ∧
      ∀ name, Option.Rel (Twins member) (xs.lookup name) (ys.lookup name) := by
  obtain ⟨xs, rfl, length, -⟩ := equals_object_iff.1 twins.symm.equal
  refine ⟨xs, rfl, length.symm, fun name => ?_⟩
  have same := lookup_equals twins.proper twins.proper' twins.equal name
  cases found : xs.lookup name <;> cases found' : ys.lookup name <;> rw [found, found'] at same <;>
    cases same
  case none.none => exact .none
  case some.some equal =>
    have mem := Members.mem_of_lookup found
    have mem' := Members.mem_of_lookup found'
    exact .some (twins.inside (.member mem) (.member mem') (twins.proper.member mem)
      (twins.proper'.member mem') equal)

end Json.Twins

/-! ## Keywords -/

theorem exists_of_rel_some {α β : Type} {R : α → β → Prop} {x : Option α} {b : β}
    (rel : Option.Rel R x (some b)) : ∃ a, x = some a ∧ R a b := by
  cases rel with
  | some related => exact ⟨_, rfl, related⟩

theorem isSome_of_rel {α β : Type} {R : α → β → Prop} {x : Option α} {y : Option β}
    (rel : Option.Rel R x y) : x.isSome = y.isSome := by
  cases rel <;> rfl

/-- A member of one object stands under the same name in an equal one. -/
theorem Members.exists_mem {R : Json → Json → Prop} {xs ys : List (String × Json)}
    (distinct : (Members.keys ys).Nodup)
    (each : ∀ name, Option.Rel R (xs.lookup name) (ys.lookup name)) {name : String} {y : Json}
    (mem : (name, y) ∈ ys) : ∃ x, (name, x) ∈ xs ∧ R x y := by
  have same := each name
  rw [Members.lookup_of_mem distinct mem] at same
  obtain ⟨x, found, related⟩ := exists_of_rel_some same
  exact ⟨x, Members.mem_of_lookup found, related⟩

/-- A limit admits equal numbers alike. -/
theorem Limit.admits_congr {beyond : Number → Number → Bool} {m n : Number}
    (equal : m.equals n = true) (beyond_congr : ∀ k, beyond m k = beyond n k) (limit : Limit) :
    limit.Admits beyond m ↔ limit.Admits beyond n := by
  unfold Admits
  simp only [beyond_congr, Number.equals_congr_left equal]

section Transfer

variable {member : Schema → Prop} {compiler : Compiler} {graph : SchemaGraph}
  {accepts : Use → Schema → Json → Prop} {v w : Json}

/-- The items of equal arrays, against the schemas of `items`. -/
theorem ItemsForm.Holds.transfer {form : ItemsForm} {additional : Option Schema}
    {xs ys : List Json} (each : List.Forall₂ (Json.Twins member) xs ys)
    (step : ∀ schema ∈ form.schemas ++ additional.toList, ∀ inner inner',
      Json.Twins member inner inner' → accepts .inside schema inner →
        accepts .inside schema inner')
    (h : form.Holds accepts additional xs) : form.Holds accepts additional ys := by
  cases form with
  | absent => trivial
  | every schema =>
    intro y mem
    obtain ⟨x, mem', twins⟩ := exists_of_forall₂ each.flip mem
    exact step schema (by simp [schemas]) x y twins (h x mem')
  | each listed =>
    refine ⟨fun position schema y at_schema at_item => ?_, fun schema more y mem => ?_⟩
    · have used : schema ∈ (ItemsForm.each listed).schemas ++ additional.toList :=
        List.mem_append_left _ (List.mem_of_getElem? at_schema)
      obtain ⟨bound', rfl⟩ := List.getElem?_eq_some_iff.1 at_item
      have bound : position < xs.length := each.length_eq ▸ bound'
      exact step schema used _ _ (each.get bound bound')
        (h.1 position schema _ at_schema (List.getElem?_eq_getElem bound))
    · have used : schema ∈ (ItemsForm.each listed).schemas ++ additional.toList := by
        simp [more]
      obtain ⟨x, mem', twins⟩ :=
        exists_of_forall₂ (List.forall₂_drop listed.length each).flip mem
      exact step schema used x y twins (h.2 schema more x mem')

/-- Items that are pairwise different stay so under equality. -/
theorem pairwise_transfer {xs ys : List Json} (each : List.Forall₂ (Json.Twins member) xs ys)
    (apart : xs.Pairwise fun x x' => x.equals x' = false) :
    ys.Pairwise fun y y' => y.equals y' = false := by
  induction each with
  | nil => exact .nil
  | @cons x y xs ys twins rest ih =>
    obtain ⟨first, apart⟩ := List.pairwise_cons.1 apart
    refine List.pairwise_cons.2 ⟨fun y' mem => ?_, ih apart⟩
    obtain ⟨x', mem', twins'⟩ := exists_of_forall₂ rest.flip mem
    rw [← Json.equals_congr_left twins.proper twins.proper' twins.equal,
      ← Json.equals_congr_right twins'.proper twins'.proper' twins'.equal]
    exact first x' mem'

/-- The verdicts on some schemas carry over from a value to its twin. -/
structure CarriesOver (member : Schema → Prop) (accepts : Use → Schema → Json → Prop)
    (uses : Use → Schema → Prop) (v w : Json) : Prop where
  same : ∀ use schema, uses use schema → use ≠ .inside →
    (accepts use schema v ↔ accepts use schema w)
  inside : ∀ schema inner inner', uses .inside schema → Json.Twins member inner inner' →
    accepts .inside schema inner → accepts .inside schema inner'

namespace Meaning

section Keywords

variable {owner : Schema} {assertion : Assertion} {value : KeywordValue}

/-- The verdicts on the schemas in a keyword carry over. -/
abbrev CarriesAcross (graph : SchemaGraph) (member : Schema → Prop)
    (accepts : Use → Schema → Json → Prop) (assertion : Assertion) (value : KeywordValue)
    (v w : Json) : Prop :=
  CarriesOver member accepts (fun use schema => (use, schema) ∈ uses graph assertion value) v w

theorem transfer_oneOf {schemas : List Schema}
    (carries : CarriesAcross graph member accepts .oneOf (.schemaList schemas) v w)
    (h : Holds compiler graph accepts owner v .oneOf (.schemaList schemas)) :
    Holds compiler graph accepts owner w .oneOf (.schemaList schemas) := by
  obtain ⟨position, schema, at_position, accepted, alone⟩ := h
  have judged : ∀ {i : Nat} {s : Schema}, schemas[i]? = some s →
      (accepts .judged s v ↔ accepts .judged s w) := fun found =>
    carries.same .judged _ (List.mem_map_of_mem (List.mem_of_getElem? found)) (by decide)
  refine ⟨position, schema, at_position, (judged at_position).1 accepted, ?_⟩
  exact fun other schema' at_other accepted' =>
    alone other schema' at_other ((judged at_other).2 accepted')

theorem transfer_contains {schema : Schema} (twins : Json.Twins member v w)
    (carries : CarriesAcross graph member accepts .contains (.schema schema) v w)
    (h : Holds compiler graph accepts owner v .contains (.schema schema)) :
    Holds compiler graph accepts owner w .contains (.schema schema) := by
  rintro items rfl
  obtain ⟨items', rfl, each⟩ := twins.array
  obtain ⟨item, mem, accepted⟩ := h items' rfl
  obtain ⟨item', mem', twins⟩ := exists_of_forall₂ each mem
  exact ⟨item', mem', carries.inside schema item item' (List.mem_singleton_self _) twins accepted⟩

theorem transfer_properties {schemas : List (String × Schema)} (twins : Json.Twins member v w)
    (carries : CarriesAcross graph member accepts .properties (.schemaMap schemas) v w)
    (h : Holds compiler graph accepts owner v .properties (.schemaMap schemas)) :
    Holds compiler graph accepts owner w .properties (.schemaMap schemas) := by
  rintro members rfl name schema mem
  obtain ⟨members', rfl, _, each⟩ := twins.object
  obtain ⟨present, flagged⟩ := h members' rfl name schema mem
  refine ⟨fun inner found => ?_, fun flag => ?_⟩
  · obtain ⟨inner', found', twins⟩ := exists_of_rel_some (found ▸ each name)
    exact carries.inside schema inner' inner (List.mem_map_of_mem mem) twins (present inner' found')
  · rw [← isSome_of_rel (each name)]
    exact flagged flag

theorem transfer_patternProperties {schemas : List (String × Schema)}
    (twins : Json.Twins member v w)
    (carries : CarriesAcross graph member accepts .patternProperties (.schemaMap schemas) v w)
    (h : Holds compiler graph accepts owner v .patternProperties (.schemaMap schemas)) :
    Holds compiler graph accepts owner w .patternProperties (.schemaMap schemas) := by
  rintro members rfl name inner member pattern schema mem search compiled found
  obtain ⟨members', rfl, _, each⟩ := twins.object
  obtain ⟨inner', member', twins'⟩ := Members.exists_mem twins.proper'.1 each member
  exact carries.inside schema inner' inner (List.mem_map_of_mem mem) twins'
    (h members' rfl name inner' member' pattern schema mem search compiled found)

theorem transfer_additionalProperties {schema : Schema} (twins : Json.Twins member v w)
    (carries : CarriesAcross graph member accepts .additionalProperties (.schema schema) v w)
    (h : Holds compiler graph accepts owner v .additionalProperties (.schema schema)) :
    Holds compiler graph accepts owner w .additionalProperties (.schema schema) := by
  rintro members rfl name inner member undeclared unmatched
  obtain ⟨members', rfl, _, each⟩ := twins.object
  obtain ⟨inner', member', twins'⟩ := Members.exists_mem twins.proper'.1 each member
  exact carries.inside schema inner' inner (List.mem_singleton_self _) twins'
    (h members' rfl name inner' member' undeclared unmatched)

theorem transfer_dependencies {names : List (String × List String)}
    {schemas : List (String × Schema)} (twins : Json.Twins member v w)
    (carries : CarriesAcross graph member accepts .dependencies (.dependencies names schemas) v w)
    (h : Holds compiler graph accepts owner v .dependencies (.dependencies names schemas)) :
    Holds compiler graph accepts owner w .dependencies (.dependencies names schemas) := by
  rintro members rfl
  obtain ⟨members', rfl, _, each⟩ := twins.object
  obtain ⟨needed, beside⟩ := h members' rfl
  refine ⟨fun name others mem present other listed => ?_, fun name schema mem present => ?_⟩
  · rw [← isSome_of_rel (each name)] at present
    rw [← isSome_of_rel (each other)]
    exact needed name others mem present other listed
  · rw [← isSome_of_rel (each name)] at present
    exact (carries.same .beside schema (List.mem_map_of_mem mem) (by decide)).1
      (beside name schema mem present)

end Keywords

end Meaning

/-- What a keyword demands of a value it demands of a twin, if the verdicts on the schemas in it
carry over. -/
theorem Meaning.Holds.transfer {owner : Schema} (owned : member owner) {keyword : Keyword}
    {assertion : Assertion} {value : KeywordValue} (asserts : owner.Asserts keyword assertion value)
    (twins : Json.Twins member v w)
    (carries : CarriesAcross graph member accepts assertion value v w)
    (h : Holds compiler graph accepts owner v assertion value) :
    Holds compiler graph accepts owner w assertion value := by
  have type := Json.instanceType_congr twins.equal
  have constant : ∀ other, v.equals other = true → w.equals other = true := fun other equal =>
    Json.equals_trans w twins.symm.equal equal
  unfold Holds at h ⊢
  split <;> dsimp only at h ⊢
  -- type, disallow
  iterate 2 rwa [← type]
  -- enum, const
  · obtain ⟨listed, mem, equal⟩ := h
    exact ⟨listed, mem, constant listed equal⟩
  · obtain ⟨name, mem, rfl⟩ := h
    exact ⟨name, mem, twins.symm.string⟩
  · exact constant _ h
  -- allOf, extends, anyOf, oneOf, not, $ref
  iterate 2
    · next schemas =>
      intro schema mem
      exact (carries.same .beside schema (List.mem_map_of_mem mem) (by decide)).1 (h schema mem)
  · next schemas =>
    obtain ⟨schema, mem, accepted⟩ := h
    exact ⟨schema, mem,
      (carries.same .beside schema (List.mem_map_of_mem mem) (by decide)).1 accepted⟩
  · exact show Holds compiler graph accepts owner w .oneOf _ from transfer_oneOf carries h
  · next schema =>
    exact fun accepted =>
      h ((carries.same .judged schema (List.mem_singleton_self _) (by decide)).2 accepted)
  · next ref uri target =>
    obtain ⟨schema, bound, accepted⟩ := h
    have used : (Use.target, schema) ∈ uses graph .ref (.reference ref uri target) := by
      simp [uses, bound]
    exact ⟨schema, bound, (carries.same .target schema used (by decide)).1 accepted⟩
  -- format
  · rintro text test rfl
    exact h text test twins.string
  -- multipleOf, divisibleBy
  iterate 2
    · next divisor =>
      rintro n rfl
      obtain ⟨m, rfl, _, divides⟩ := twins.number
      have has : owner.HasDivisor divisor := ⟨keyword, _, _, asserts, by simp⟩
      exact (divides owner divisor owned has).1 (h m rfl)
  -- minimum, maximum
  · next limit =>
    rintro n rfl
    obtain ⟨m, rfl, equal, _⟩ := twins.number
    exact (limit.admits_congr equal (Number.less_congr_left equal)).1 (h m rfl)
  · next limit =>
    rintro n rfl
    obtain ⟨m, rfl, equal, _⟩ := twins.number
    exact (limit.admits_congr equal (Number.less_congr_right equal)).1 (h m rfl)
  -- lengths
  iterate 2
    · rintro text rfl
      exact h text twins.string
  iterate 2
    · rintro items rfl
      obtain ⟨items', rfl, each⟩ := twins.array
      rw [← each.length_eq]
      exact h items' rfl
  iterate 2
    · rintro members rfl
      obtain ⟨members', rfl, length, _⟩ := twins.object
      rw [← length]
      exact h members' rfl
  -- pattern
  · rintro text search rfl
    exact h text search twins.string
  -- items, uniqueItems, contains
  · rintro items rfl
    obtain ⟨items', rfl, each⟩ := twins.array
    refine (h items' rfl).transfer each fun schema used inner inner' twins => ?_
    exact carries.inside schema inner inner' (List.mem_map_of_mem used) twins
  · rintro demanded items rfl
    obtain ⟨items', rfl, each⟩ := twins.array
    exact pairwise_transfer each (h demanded items' rfl)
  · exact show Holds compiler graph accepts owner w .contains _ from
      transfer_contains twins carries h
  -- properties, patternProperties, additionalProperties
  · exact show Holds compiler graph accepts owner w .properties _ from
      transfer_properties twins carries h
  · exact show Holds compiler graph accepts owner w .patternProperties _ from
      transfer_patternProperties twins carries h
  · exact show Holds compiler graph accepts owner w .additionalProperties _ from
      transfer_additionalProperties twins carries h
  -- required
  · rintro members rfl name mem
    obtain ⟨members', rfl, _, each⟩ := twins.object
    rw [← isSome_of_rel (each name)]
    exact h members' rfl name mem
  -- propertyNames
  · rintro members rfl name inner member
    obtain ⟨members', rfl, _, each⟩ := twins.object
    obtain ⟨inner', member', _⟩ := Members.exists_mem twins.proper'.1 each member
    exact h members' rfl name inner' member'
  -- dependencies
  · exact show Holds compiler graph accepts owner w .dependencies _ from
      transfer_dependencies twins carries h

/-- A schema demands the same of twins. -/
theorem Schema.Meets.transfer {owner : Schema} (owned : member owner)
    (twins : Json.Twins member v w) (carries : CarriesOver member accepts (owner.Uses graph) v w)
    (h : owner.Meets compiler graph accepts v) : owner.Meets compiler graph accepts w := by
  intro keyword assertion value asserts type typed applies
  have used : ∀ {use schema}, (use, schema) ∈ Meaning.uses graph assertion value →
      owner.Uses graph use schema := fun mem => ⟨keyword, assertion, value, asserts, mem⟩
  rw [← Json.instanceType_congr twins.equal] at typed
  refine (h keyword assertion value asserts type typed applies).transfer owned asserts twins ?_
  exact {
    same := fun use schema mem => carries.same use schema (used mem)
    inside := fun schema inner inner' mem => carries.inside schema inner inner' (used mem) }

end Transfer

/-! ## Acceptance -/

namespace Schema

variable {compiler : Compiler} {graph : SchemaGraph} {member : Schema → Prop}

/-- Twins are accepted alike, as far as a number of steps tells. -/
theorem acceptsWithin_congr
    (closed : ∀ owner, member owner → ∀ use schema, owner.Uses graph use schema → member schema)
    (depth : Nat) {active : List Schema} {schema : Schema} (owned : member schema) {v w : Json}
    (twins : Json.Twins member v w) :
    schema.AcceptsWithin compiler graph depth active v ↔
      schema.AcceptsWithin compiler graph depth active w := by
  induction depth generalizing active schema v w with
  | zero => exact Iff.rfl
  | succ depth ih =>
    have under : ∀ {v w : Json}, Json.Twins member v w → ∀ use inner,
        schema.Uses graph use inner →
        (Under (AcceptsWithin compiler graph depth) active use inner v ↔
          Under (AcceptsWithin compiler graph depth) active use inner w) := by
      intro v w twins use inner used
      have owned' := closed schema owned use inner used
      cases use with
      | target => exact or_congr_right (ih owned' twins)
      | _ => exact ih owned' twins
    have carries : ∀ {v w : Json}, Json.Twins member v w →
        CarriesOver member (Under (AcceptsWithin compiler graph depth) active)
          (schema.Uses graph) v w := fun twins => {
      same := fun use inner used _ => under twins use inner used
      inside := fun inner x y used twins => (under twins .inside inner used).1 }
    constructor
    · exact Meets.transfer owned twins (carries twins)
    · exact Meets.transfer owned twins.symm (carries twins.symm)

/-- Twins are accepted by the same schemas. -/
theorem accepts_congr
    (closed : ∀ owner, member owner → ∀ use schema, owner.Uses graph use schema → member schema)
    {active : List Schema} {schema : Schema} (owned : member schema) {v w : Json}
    (twins : Json.Twins member v w) :
    schema.Accepts compiler graph active v ↔ schema.Accepts compiler graph active w := by
  unfold Accepts
  simp only [acceptsWithin_congr closed _ owned twins]

end Schema

/-- A compiled schema has one verdict on twins. -/
theorem CompiledSchema.isValid_congr {compiler : Compiler} {graph : SchemaGraph}
    {member : Schema → Prop} (orderly : Orderly graph member) (total : compiler.IsTotal)
    {schema : Schema} (owned : member schema) {compiled : CompiledSchema}
    (ok : CompiledSchema.ofSchema compiler graph schema = .ok compiled) {v w : Json}
    (twins : Json.Twins member v w) (comparable : v.IsComparable member)
    (comparable' : w.IsComparable member) :
    ∃ b, compiled.isValid v = .ok b ∧ compiled.isValid w = .ok b := by
  obtain ⟨b, valid, iff⟩ := isValid_iff_accepts orderly total owned ok twins.proper comparable
  obtain ⟨b', valid', iff'⟩ := isValid_iff_accepts orderly total owned ok twins.proper' comparable'
  have same : b = b' :=
    Bool.eq_iff_iff.2 (iff.trans ((Schema.accepts_congr orderly.closed owned twins).trans iff'.symm))
  exact ⟨b, valid, same ▸ valid'⟩

namespace Load

namespace Tens

/-- A document that demands a multiple of ten. -/
def document : Document where
  id := ⟨0⟩
  value := .object [(Builtin.multipleOf.key, .number (.int 10))]

/-- The double that is written `1e23`. -/
def double : Double :=
  .finite false 5960464477539062 24

/-- The integer that this double is. -/
def integer : Int :=
  99999999999999991611392

/-- The verdicts on two values, if the document is read and compiled. -/
def judge (v w : Json) : Option (Bool × Bool) :=
  match (readSchema Linked.loader document (some Linked.root.documentUri)).run.run .empty with
  | (.ok schema, after) => do
    let compiled ← (CompiledSchema.ofSchema Even.compiler after.graph schema).toOption
    return (← (compiled.isValid v).toOption, ← (compiled.isValid w).toOption)
  | _ => none

/-- The document is read and compiled, if there are verdicts. -/
theorem exists_of_judge {v w : Json} {b b' : Bool} (judged : judge v w = some (b, b')) :
    ∃ schema after compiled,
      (readSchema Linked.loader document (some Linked.root.documentUri)).run.run .empty =
        (.ok schema, after) ∧
      CompiledSchema.ofSchema Even.compiler after.graph schema = .ok compiled ∧
      compiled.isValid v = .ok b ∧ compiled.isValid w = .ok b' := by
  unfold judge at judged
  split at judged
  · next schema after run =>
    obtain ⟨compiled, ok, judged⟩ := Option.bind_eq_some_iff.1 judged
    obtain ⟨first, valid, judged⟩ := Option.bind_eq_some_iff.1 judged
    obtain ⟨second, valid', same⟩ := Option.bind_eq_some_iff.1 judged
    cases same
    exact ⟨schema, after, compiled, run, toOption_ok ok, toOption_ok valid, toOption_ok valid'⟩
  · cases judged

theorem agree : Agree (fun _ => document.value) Linked.loader [(document, Linked.root)] where
  requested := List.forall_mem_singleton.2
    ⟨by decide +kernel, ⟨by decide, trivial, trivial⟩, rfl⟩
  preloaded := nofun
  delivered _ _ _ served _ := nomatch served

/-- The schema of the document has the divisor and nothing else. -/
theorem keywords_eq {schema : Schema} {after : Session}
    (run : (readSchema Linked.loader document (some Linked.root.documentUri)).run.run .empty =
      (.ok schema, after)) :
    schema.keywords = [(Builtin.multipleOf, .literal .number (.number (.int 10)))] := by
  have ends : ((readSchema Linked.loader document
      (some Linked.root.documentUri)).run.run .empty).1.toOption.bind Even.divisor? = some 10 := by
    decide +kernel
  rw [run] at ends
  exact Even.keywords_of_divisor ends

/-- Such a schema leads nowhere. -/
theorem eq_of_reaches {graph : SchemaGraph} {schema other : Schema} {n : Number}
    (keywords : schema.keywords = [(Builtin.multipleOf, .literal .number (.number n))])
    (reaches : schema.Reaches graph other) : other = schema := by
  induction reaches with
  | refl => rfl
  | tail _ step ih =>
    obtain ⟨use, keyword, assertion, value, ⟨mem, known⟩, listed⟩ := step
    rw [ih, keywords, List.mem_singleton] at mem
    cases mem
    cases assertion <;> cases listed

theorem comparable {graph : SchemaGraph} {schema : Schema} {n : Number}
    (keywords : schema.keywords = [(Builtin.multipleOf, .literal .number (.number n))]) (v : Json) :
    v.IsComparable (schema.Reaches graph) := by
  intro m _ other reaches keyword limit mem
  rw [eq_of_reaches keywords reaches, keywords, List.mem_singleton] at mem
  cases mem

theorem eq_of_hasNumber {m n : Number} (has : (Json.number n).HasNumber m) : m = n := by
  cases has with
  | here => rfl
  | inside inside => cases inside

end Tens

end Load

end JsonSchema
