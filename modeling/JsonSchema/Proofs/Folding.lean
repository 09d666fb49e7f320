import JsonSchema.Proofs.Filling
import JsonSchema.Proofs.Reporting

/-!
# Trees of violations

A compiled schema adds at most one violation to a report: the violations that its checks added to a
report of their own are folded into it, and keep their leaves (`Report.exists_top`). Every
violation of the tree is a leaf or gathers others in one of five ways (`Violation.Gathers`), and what
its complaint counts are its causes. The causes of a combinator are what its schemas say of the value
(`Says`), so that none is lost and none is there twice.

The keyword that stands in such a violation is that of its check. Which keywords have a rule with
causes is known from compiling (`CompiledSchema.ofSchema_keyed`).
-/

namespace JsonSchema

/-! ## Keywords of rules -/

/-- A rule whose violations can have causes, or be those of other schemas and keywords, stands under a
keyword that is compiled to it; references and items are compiled to nothing else. -/
def Rule.StandsUnder (key : String) : Rule → Prop
  | .allOf _ => key = Builtin.allOf.key ∨ key = Builtin.extending.key
  | .anyOf _ => key = Builtin.anyOf.key
  | .oneOf _ => key = Builtin.oneOf.key
  | .propertyNames _ => key = Builtin.propertyNames.key
  | .reference _ => key = Builtin.ref.key
  | .items .. => key = Builtin.items.key
  | .properties .. => key = Builtin.properties.key
  | _ => key ≠ Builtin.ref.key ∧ key ≠ Builtin.items.key

theorem Assertion.key_ne {assertion : Assertion} (noReference : assertion ≠ .ref)
    (noItems : assertion ≠ .items) : assertion.keyword.key ≠ Builtin.ref.key ∧
      assertion.keyword.key ≠ Builtin.items.key := by
  cases assertion <;>
    first
    | exact absurd rfl noReference
    | exact absurd rfl noItems
    | decide

/-- The places that a rule has for other keywords than its own are those that the value of its keyword
says. -/
def Rule.KnowsPlaces (value : KeywordValue) (place : String) : Rule → Prop
  | .items _ _ _ forbid other => forbid = true →
    (∃ form more, value = .items form (some more)) ∧
      other = Place.join (Place.owner place) [Builtin.additionalItems.key]
  | .properties _ flagged => ∃ schemas, value = .schemaMap schemas ∧
    flagged = Compile.flaggedNames schemas place
  | _ => True

/-- A rule that takes over no violations of other schemas: its violations are leaves. -/
def Rule.IsPlain : Rule → Prop
  | .allOf _ | .anyOf _ | .oneOf _ | .reference _ | .items .. | .properties .. | .patternProperties _
  | .additionalProperties .. | .propertyNames _ | .dependencies .. | .nothing => False
  | _ => True

/-- The rule of a check stands under the keyword of the check. -/
def Check.IsKeyed (check : Check) : Prop :=
  check.rule.StandsUnder check.key

/-- A check of a compiled schema of a table. -/
def Listed (table : Array Validator) (check : Check) : Prop :=
  ∃ (i : Nat) (validator : Validator), table[i]? = some validator ∧ check ∈ validator.checkList

/-- Every check of a table is keyed. -/
def Keyed (table : Array Validator) : Prop :=
  ∀ check, Listed table check → check.IsKeyed

theorem keyed_empty : Keyed #[] := by
  rintro check ⟨i, validator, found, -⟩
  cases found

theorem Keyed.push {table : Array Validator} (h : Keyed table) (location : String) :
    Keyed (table.push (.unfilled location)) := by
  rintro check ⟨i, validator, found, mem⟩
  rw [Array.getElem?_push] at found
  split at found
  · cases found
    cases mem
  · exact h check ⟨i, validator, found, mem⟩

theorem Keyed.set {table : Array Validator} (h : Keyed table) {validator : Validator}
    (keyed : ∀ check ∈ validator.checkList, check.IsKeyed) (i : Nat) :
    Keyed (table.set! i validator) := by
  rintro check ⟨j, other, found, mem⟩
  rw [Array.set!_eq_setIfInBounds, Array.getElem?_setIfInBounds] at found
  split at found
  · split at found
    · cases found
      exact keyed check mem
    · cases found
  · exact h check ⟨j, other, found, mem⟩

namespace Compile

/-! ## Results of compiling -/

/-- What a computation gives, if it gives anything, is of a kind. -/
def Yields {α : Type} (act : Compile α) (P : α → Prop) : Prop :=
  ∀ state a state', act.run.run state = (.ok a, state') → P a

section Yields

variable {α β : Type} {act : Compile α} {P : α → Prop} {Q : β → Prop}

theorem yields_pure {a : α} (h : P a) : Yields (pure a) P := by
  intro state a' state' run
  cases run
  exact h

theorem yields_throw {fault : Fault} : Yields (throw fault) P := by
  intro state a state' run
  cases run

theorem yields_bind {next : α → Compile β} (h : ∀ a, Yields (next a) Q) :
    Yields (act >>= next) Q := by
  intro state b state' run
  obtain ⟨a, state₁, -, rest⟩ := run_bind_eq_ok run
  exact h a state₁ b state' rest

/-- What a computation gives beside what holds of its end. -/
theorem Ends.and_yields {Ω : Type} [Tabled Ω] {w : Ω} {Q : α → Ω → Prop} (ends : Ends act w Q)
    (yields : Yields act P) : Ends act w fun a w' => Q a w' ∧ P a := by
  refine after_anyhow (fun a s run => ?_)
  obtain ⟨w', up, rfl, holds⟩ := ends.of_ok run
  exact ⟨w', up, rfl, holds, yields _ a _ run⟩

end Yields

variable {key place : String} {value : KeywordValue}

/-- The rule of a keyword, if it has one, stands under it and knows its places. -/
def Fits (key : String) (value : KeywordValue) (place : String) (rule : Option Rule) : Prop :=
  ∀ r, rule = some r → r.StandsUnder key ∧ r.KnowsPlaces value place

theorem fits_none : Fits key value place none :=
  nofun

theorem fits_some {rule : Rule} (h : rule.StandsUnder key ∧ rule.KnowsPlaces value place) :
    Fits key value place (some rule) := by
  rintro _ ⟨⟩
  exact h

theorem fits_after {α : Type} {act : Compile α} {rule : α → Rule}
    (h : ∀ a, (rule a).StandsUnder key ∧ (rule a).KnowsPlaces value place) :
    Yields (do return some (rule (← act))) (Fits key value place) :=
  yields_bind fun a => yields_pure (fits_some (h a))

theorem fits_count {rule : Int → Rule}
    (h : ∀ n, (rule n).StandsUnder key ∧ (rule n).KnowsPlaces value place) :
    Yields (countRule key rule value) (Fits key value place) := by
  unfold countRule
  split
  · split
    · exact yields_pure (fits_some (h _))
    · exact yields_throw
  · exact yields_throw

theorem fits_items (recur : SchemaCompiler) (form : ItemsForm) (additional : Option Schema)
    (place : String) : Yields (itemsRule recur form additional place)
      (Fits Builtin.items.key (.items form additional) place) := by
  have knows : (additional.map (·.isAlwaysInvalid)).getD false = true →
      (∃ form' more, KeywordValue.items form additional = .items form' (some more)) ∧
        Place.join (Place.owner place) [Builtin.additionalItems.key] =
          Place.join (Place.owner place) [Builtin.additionalItems.key] := by
    intro forbid
    cases additional with
    | none => cases forbid
    | some more => exact ⟨⟨form, more, rfl⟩, rfl⟩
  unfold itemsRule
  cases form <;>
    exact yields_bind fun _ => yields_bind fun _ => fits_after fun _ => ⟨rfl, knows⟩

theorem fits_additional (compiler : Compiler) (recur : SchemaCompiler) (owner schema : Schema)
    (place : String) : Yields (additionalRule compiler recur owner schema place)
      (Fits Assertion.additionalProperties.keyword.key value place) := by
  unfold additionalRule
  split
  · exact yields_pure fits_none
  · exact yields_bind fun _ => yields_bind fun _ =>
      yields_pure (fits_some ⟨Assertion.key_ne nofun nofun, trivial⟩)

/-- The rule of a keyword stands under it and knows its places. -/
theorem fits_ruleOf (compiler : Compiler) (graph : SchemaGraph) (recur : SchemaCompiler)
    (owner : Schema) (assertion : Assertion) (value : KeywordValue) (place : String) :
    Yields (ruleOf compiler graph recur owner assertion value place)
      (Fits assertion.keyword.key value place) := by
  unfold ruleOf
  dsimp only
  split
  -- type, disallow, enum, const
  iterate 7 exact yields_pure (fits_some ⟨Assertion.key_ne nofun nofun, trivial⟩)
  -- allOf, extends, anyOf, oneOf, not, $ref
  · exact fits_after fun _ => ⟨.inl rfl, trivial⟩
  · exact fits_after fun _ => ⟨.inr rfl, trivial⟩
  · exact fits_after fun _ => ⟨rfl, trivial⟩
  · exact fits_after fun _ => ⟨rfl, trivial⟩
  · exact fits_after fun _ => ⟨Assertion.key_ne nofun nofun, trivial⟩
  · exact yields_bind fun _ => fits_after fun _ => ⟨rfl, trivial⟩
  -- format, multipleOf, divisibleBy, minimum, maximum
  · next name =>
    refine yields_pure ?_
    cases compiler.formats.lookup name with
    | none => exact fits_none
    | some test => exact fits_some ⟨Assertion.key_ne nofun nofun, trivial⟩
  · exact yields_bind fun _ => yields_pure fits_none
  iterate 2 exact fits_after fun _ => ⟨Assertion.key_ne nofun nofun, trivial⟩
  iterate 4 exact yields_pure (fits_some ⟨Assertion.key_ne nofun nofun, trivial⟩)
  -- lengths, pattern
  iterate 6 exact fits_count fun _ => ⟨Assertion.key_ne nofun nofun, trivial⟩
  · exact fits_after fun _ => ⟨Assertion.key_ne nofun nofun, trivial⟩
  -- items, uniqueItems, contains
  · exact fits_items _ _ _ _
  · next flag =>
    refine yields_pure ?_
    split
    · exact fits_some ⟨Assertion.key_ne nofun nofun, trivial⟩
    · exact fits_none
  · exact fits_after fun _ => ⟨Assertion.key_ne nofun nofun, trivial⟩
  -- members
  · next schemas => exact fits_after fun _ => ⟨rfl, schemas, rfl, rfl⟩
  · exact yields_bind fun _ => yields_bind fun _ =>
      yields_pure (fits_some ⟨Assertion.key_ne nofun nofun, trivial⟩)
  · exact fits_additional _ _ _ _ _
  · exact yields_pure (fits_some ⟨Assertion.key_ne nofun nofun, trivial⟩)
  · exact yields_pure fits_none
  · exact fits_after fun _ => ⟨rfl, trivial⟩
  · exact fits_after fun _ => ⟨Assertion.key_ne nofun nofun, trivial⟩
  -- a value of another kind
  · exact yields_throw

/-- A check is that of a keyword of a schema at a location. -/
structure IsCheckOf (location : String) (keyword : Keyword) (value : KeywordValue) (check : Check) :
    Prop where
  named : check.keyword = some keyword
  placed : check.location = Place.join location [keyword.key]
  keyed : check.IsKeyed
  knows : check.rule.KnowsPlaces value check.location

/-- What a keyword is compiled to is its check. -/
theorem isCheckOf_checkOf (compiler : Compiler) (graph : SchemaGraph) (recur : SchemaCompiler)
    (owner : Schema) (location : String) (keyword : Keyword) (value : KeywordValue) :
    Yields (checkOf compiler graph recur owner location keyword value)
      fun check => ∀ c, check = some c → IsCheckOf location keyword value c := by
  unfold checkOf
  split
  · exact yields_pure fun _ absent => by cases absent
  · next assertion known =>
    intro state check state' run
    obtain ⟨rule, state₁, ran, rest⟩ := run_bind_eq_ok run
    have fits := fits_ruleOf _ _ _ _ _ _ _ state rule state₁ ran
    cases rest
    cases rule with
    | none => rintro _ ⟨⟩
    | some rule =>
      rintro _ ⟨⟩
      obtain ⟨stands, places⟩ := fits rule rfl
      rw [Assertion.ofKey?_keyword known] at stands
      exact ⟨rfl, rfl, stands, places⟩

/-! ## Keyed tables -/

/-- A table in the making whose checks are keyed. -/
structure KeyedTable where
  table : Compilation
  keyed : Keyed table.validators

instance : Tabled KeyedTable where
  le _ _ := True
  le_refl _ := trivial
  le_trans _ _ _ _ _ := trivial
  state w := w.table
  StandsFor _ _ _ := True
  later _ _ := trivial

variable {w : KeyedTable} {compiler : Compiler} {graph : SchemaGraph} {recur : SchemaCompiler}

theorem keyed_known (schema : Schema) : Ends (known? schema) w fun _ _ => True := by
  cases schema with
  | node => exact after_get_bind (after_pure trivial)
  | _ => exact after_pure trivial

theorem keyed_enter (schema : Schema) (location : String) :
    Ends (enter schema location) w fun _ _ => True := by
  let entered : KeyedTable := ⟨w.table.apply (.entered schema location), w.keyed.push location⟩
  have ends : Ends (enter schema location) w fun _ w' => w' = entered :=
    after_of_ok (run_enter schema location w.table) trivial rfl rfl
  exact after_mono ends fun _ _ _ _ => trivial

theorem keyed_fill {checks : List Check} (keyed : ∀ check ∈ checks, check.IsKeyed)
    (id : ValidatorId) : Ends (fill id checks) w fun _ _ => True := by
  refine after_get_bind ?_
  split
  · exact after_throw trivial
  · next validator _ =>
    refine after_bind (ends_check _) (fun filled w' _ ok => ?_)
    have gave : filled.checkList = checks := by
      unfold Validator.fill at ok
      split at ok
      · cases ok
      · cases ok
        rfl
    let changed : KeyedTable :=
      ⟨{ w.table with validators := w.table.validators.set! id.index filled },
        w.keyed.set (by rwa [gave]) id.index⟩
    have ends : Ends (set changed.table) w' fun _ w₂ => w₂ = changed := after_set trivial rfl rfl
    exact after_mono ends fun _ _ _ _ => trivial

theorem keyed_checksOf (seats : Seats KeyedTable (fun _ => True) recur) (schema : Schema)
    (location : String) : Ends (checksOf compiler graph recur schema location) w
      fun checks _ => ∀ check ∈ checks, check.IsKeyed := by
  unfold checksOf
  split
  · refine after_pure (List.forall_mem_singleton.2 ?_)
    show "" ≠ Builtin.ref.key ∧ "" ≠ Builtin.items.key
    decide
  · refine after_bind (after_mapM (Q := fun _ (check : Option Check) _ =>
      ∀ c, check = some c → c.IsKeyed) (fun _ _ _ _ _ keyed => keyed) _ ?_)
      (fun checks w' _ each => after_pure ?_)
    · rintro ⟨keyword, value⟩ - w' -
      have ends : Ends (checkOf compiler graph recur schema location keyword value) w'
          fun _ _ => True := by
        unfold checkOf
        split
        · exact after_pure trivial
        · exact after_bind (serves_ruleOf seats (fun _ _ _ => trivial) _)
            fun _ _ _ _ => after_pure trivial
      exact after_mono (ends.and_yields (isCheckOf_checkOf _ _ _ _ _ _ _))
        fun _ _ _ both c same => (both.2 c same).keyed
    · intro check mem
      obtain ⟨_, given, rfl⟩ := List.mem_filterMap.1 mem
      obtain ⟨_, _, keyed⟩ := exists_of_forall₂ each.flip given
      exact keyed check rfl

/-- Compiling keeps a table keyed. -/
theorem keyed_schemaWithin (depth : Nat) :
    Seats KeyedTable (fun _ => True) (schemaWithin compiler graph depth) := by
  induction depth with
  | zero => exact fun w schema place _ => after_throw trivial
  | succ depth ih =>
    intro w schema fallback _
    unfold schemaWithin
    rw [schemaWith_eq]
    refine after_bind (keyed_known schema) (fun found w₁ _ _ => ?_)
    have inner : ∀ (w : KeyedTable) location,
        Ends (placeAt compiler graph (schemaWithin compiler graph depth) schema location) w
          fun id w' => Tabled.StandsFor w' schema id := fun w location =>
      after_bind (keyed_enter schema location) fun id _ _ _ =>
        after_bind (keyed_checksOf ih schema location) fun _ _ _ keyed =>
          after_bind (keyed_fill keyed id) fun _ _ _ _ => after_pure trivial
    cases found with
    | some id => exact after_pure trivial
    | none =>
      dsimp only
      split
      · exact after_bind (ends_check _) fun location w₂ _ _ => inner w₂ location
      · exact inner w₁ fallback

end Compile

/-- In the table of a compiled schema every check has the keyword of its rule. -/
theorem CompiledSchema.ofSchema_keyed {compiler : Compiler} {graph : SchemaGraph} {schema : Schema}
    {compiled : CompiledSchema}
    (ok : CompiledSchema.ofSchema compiler graph schema = .ok compiled) : Keyed compiled.table := by
  unfold ofSchema at ok
  split at ok
  · next root state run =>
    cases ok
    have seats : Compile.Seats Compile.KeyedTable (fun _ => True)
        (Compile.schemaWithin compiler graph (graph.nextNode + 2)) := Compile.keyed_schemaWithin _
    obtain ⟨w, -, same, -⟩ := (seats ⟨.empty, keyed_empty⟩ schema "#" trivial).of_ok run
    rw [← same]
    exact w.keyed
  · cases ok

/-! ## Violations with causes -/

/-- A violation of a check. -/
def Check.violation (check : Check) (node : InstanceNode) (complaint : Complaint)
    (causes : List Violation) : Violation :=
  .mk node.pointer check.location (some check.key) (.keyword check.key) complaint causes

/-- What a compiled schema says of a value is one violation. -/
def Says (table : Array Validator) (node : InstanceNode) (id : ValidatorId) (v : Violation) : Prop :=
  ∃ depth active, evaluateWithin table depth active id node = .ok [v]

namespace Violation

/-- The violations that gather others: the number in the complaint is that of the causes. The causes
of a check are what its schemas say, one for each schema that says something. -/
inductive Gathers (table : Array Validator) : Violation → Prop
  /-- Several checks of one schema. -/
  | several {pointer location : String} {causes : List Violation} (many : 2 ≤ causes.length) :
    Gathers table (.mk pointer location none .schema (.severalViolations causes.length) causes)
  /-- Some of the schemas of `allOf` or `extends`. -/
  | all {check : Check} {node : InstanceNode} {schemas failed : List ValidatorId}
    {causes : List Violation} (listed : Listed table check) (rule : check.rule = .allOf schemas)
    (key : check.key = "allOf" ∨ check.key = "extends") (among : failed.Sublist schemas)
    (each : List.Forall₂ (Says table node) failed causes) (least : 1 ≤ causes.length)
    (most : causes.length ≤ schemas.length) :
    Gathers table (check.violation node (.schemasFailed causes.length schemas.length) causes)
  /-- All the schemas of `anyOf`. -/
  | any {check : Check} {node : InstanceNode} {schemas : List ValidatorId}
    {causes : List Violation} (listed : Listed table check) (rule : check.rule = .anyOf schemas)
    (key : check.key = "anyOf") (each : List.Forall₂ (Says table node) schemas causes)
    (least : 1 ≤ causes.length) :
    Gathers table (check.violation node (.noSchemaMatched causes.length) causes)
  /-- All the schemas of `oneOf`. -/
  | one {check : Check} {node : InstanceNode} {schemas : List ValidatorId}
    {causes : List Violation} (listed : Listed table check) (rule : check.rule = .oneOf schemas)
    (key : check.key = "oneOf") (each : List.Forall₂ (Says table node) schemas causes)
    (least : 1 ≤ causes.length) :
    Gathers table (check.violation node (.notOneMatched 0) causes)
  /-- The schema of `propertyNames`, for some of the names. -/
  | names {check : Check} {node : InstanceNode} {schema : ValidatorId}
    {members : List (String × Json)} {wrong : List String} {causes : List Violation}
    (listed : Listed table check) (rule : check.rule = .propertyNames schema)
    (key : check.key = "propertyNames") (value : node.value = .object members)
    (among : wrong.Sublist (Members.keys members))
    (each : List.Forall₂ (fun name => Says table (node.child name (.string name)) schema) wrong
      causes) (least : 1 ≤ causes.length) :
    Gathers table (check.violation node (.badNames causes.length) causes)

/-- A violation is another one or a cause of it, however deep. -/
def Under : Violation → Violation → Prop :=
  Relation.ReflTransGen fun cause v => cause ∈ v.causes

/-- A violation is a leaf, or it gathers others; only a leaf has the code of the schema that accepts
nothing. -/
def IsExact (table : Array Validator) (v : Violation) : Prop :=
  (v.isLeaf = true ∨ v.Gathers table) ∧ (v.code = .schemaFalse → v.isLeaf = true)

/-- Every violation of a tree is a leaf or gathers others. -/
def IsSound (table : Array Validator) (v : Violation) : Prop :=
  ∀ w : Violation, w.Under v → w.IsExact table

variable {table : Array Validator} {v : Violation}

theorem isExact_of_leaf (leaf : v.isLeaf = true) : v.IsExact table :=
  ⟨.inl leaf, fun _ => leaf⟩

theorem Gathers.isExact (h : v.Gathers table) : v.IsExact table := by
  refine ⟨.inr h, fun code => ?_⟩
  cases h <;> cases code

/-- What holds of a violation and of the trees of its causes holds of its tree. -/
theorem forall_under {P : Violation → Prop} (root : P v)
    (causes : ∀ cause ∈ v.causes, ∀ w : Violation, w.Under cause → P w) :
    ∀ w : Violation, w.Under v → P w := by
  intro w under
  rcases Relation.ReflTransGen.cases_tail under with rfl | ⟨cause, below, mem⟩
  · exact root
  · exact causes cause mem w below

/-- A tree is sound if its root is exact and the trees of the causes are sound. -/
theorem isSound_of_causes (root : v.IsExact table)
    (causes : ∀ cause ∈ v.causes, cause.IsSound table) : v.IsSound table :=
  forall_under root causes

theorem isSound_of_leaf (leaf : v.isLeaf = true) : v.IsSound table := by
  refine isSound_of_causes (isExact_of_leaf leaf) fun cause mem => ?_
  rw [List.isEmpty_iff.1 leaf] at mem
  cases mem

end Violation

/-- Violations are folded into one that has their leaves, in the same order. -/
theorem Report.exists_top (pointer location : String) {found : List Violation}
    (some : found ≠ []) : ∃ top, folded pointer location found = [top] ∧
      top.leaves = Violation.leavesOfList found := by
  match found, some with
  | [v], _ => exact ⟨v, rfl, (List.append_nil _).symm⟩
  | first :: second :: rest, _ => exact ⟨_, rfl, rfl⟩

theorem Report.length_folded (pointer location : String) (found : List Violation) :
    (folded pointer location found).length ≤ 1 := by
  match found with
  | [] | [_] | _ :: _ :: _ => simp [folded]

/-- What holds of the violations of one schema, and of one that has them as causes, holds of what
they are folded into. -/
theorem Report.forall_folded {P : Violation → Prop} {pointer location : String}
    {found : List Violation} (each : ∀ v ∈ found, P v)
    (several : 2 ≤ found.length →
      P (.mk pointer location none .schema (.severalViolations found.length) found)) :
    ∀ v ∈ folded pointer location found, P v := by
  cases found with
  | nil => exact List.forall_mem_nil P
  | cons first others =>
    cases others with
    | nil => exact each
    | cons second rest => exact List.forall_mem_singleton.2 (several (by simp))

/-! ## Verdicts with violations of a kind -/

/-- The violations of a verdict, if it has any, are of a kind. -/
def Verdict.Keeps (P : Violation → Prop) (verdict : Verdict) : Prop :=
  ∀ found, verdict = .ok found → ∀ v ∈ found, P v

namespace Verdict

variable {P : Violation → Prop} {α : Type}

theorem keeps_nothing : Keeps P (.ok []) := by
  rintro found ⟨⟩
  exact List.forall_mem_nil P

theorem keeps_one {v : Violation} (h : P v) : Keeps P (.ok [v]) := by
  rintro found ⟨⟩
  exact List.forall_mem_singleton.2 h

theorem keeps_error (fault : Fault) : Keeps P (.error fault) :=
  nofun

theorem keeps_bind {x : Except Fault α} {next : α → Verdict}
    (h : ∀ a, x = .ok a → Keeps P (next a)) : Keeps P (x >>= next) := by
  intro found ok
  obtain ⟨a, first, rest⟩ := except_bind_ok ok
  exact h a first found rest

theorem keeps_append {verdict verdict' : Verdict} (h : Keeps P verdict) (h' : Keeps P verdict') :
    Keeps P (do return (← verdict) ++ (← verdict')) := by
  refine keeps_bind fun found ok => keeps_bind fun found' ok' => ?_
  rintro both ⟨⟩
  exact List.forall_mem_append.2 ⟨h found ok, h' found' ok'⟩

theorem keeps_together {f : α → Verdict} {xs : List α} (h : ∀ x ∈ xs, Keeps P (f x)) :
    Keeps P (Check.together f xs) := by
  induction xs with
  | nil => exact keeps_nothing
  | cons x xs ih =>
    rw [Reporting.together_cons]
    exact keeps_append (h x List.mem_cons_self) (ih fun y mem => h y (List.mem_cons_of_mem _ mem))

end Verdict

open Verdict

/-! ## What several schemas say -/

section Several

variable {α : Type} {f : α → Verdict} {xs : List α} {founds : List (List Violation)}

theorem Check.forall₂_of_verdicts (h : Check.verdicts f xs = .ok founds) :
    List.Forall₂ (fun x found => f x = .ok found) xs founds := by
  induction xs generalizing founds with
  | nil =>
    cases h
    exact .nil
  | cons x xs ih =>
    unfold Check.verdicts at h
    rw [List.mapM_cons] at h
    obtain ⟨found, first, h⟩ := except_bind_ok h
    obtain ⟨others, rest, h⟩ := except_bind_ok h
    cases h
    exact .cons first (ih rest)

theorem Check.together_ok {found : List Violation} (h : Check.together f xs = .ok found) :
    ∃ founds, Check.verdicts f xs = .ok founds ∧ founds.flatten = found := by
  unfold Check.together at h
  cases ok : Check.verdicts f xs with
  | error fault =>
    rw [ok] at h
    cases h
  | ok founds =>
    rw [ok] at h
    cases h
    exact ⟨founds, rfl, rfl⟩

variable (single : ∀ x found, f x = .ok found → found.length ≤ 1)
include single

/-- Where each has at most one violation, the violations are what some of them say, and as many as
do not say nothing. -/
theorem Check.verdicts_some (h : Check.verdicts f xs = .ok founds) :
    ∃ failed, List.Sublist failed xs ∧
      List.Forall₂ (fun x v => f x = .ok [v]) failed founds.flatten ∧
      (founds.filter (!·.isEmpty)).length = founds.flatten.length := by
  have each := Check.forall₂_of_verdicts h
  clear h
  induction each with
  | nil => exact ⟨[], .slnil, .nil, rfl⟩
  | @cons x found xs founds spoken _ ih =>
    obtain ⟨failed, among, each, count⟩ := ih
    match found, spoken, single x found spoken with
    | [], spoken, _ => exact ⟨failed, among.cons x, each, count⟩
    | [v], spoken, _ =>
      refine ⟨x :: failed, among.cons_cons x, .cons spoken each, ?_⟩
      rw [List.filter_cons_of_pos rfl, List.flatten_cons, List.length_append, List.length_cons,
        count, List.length_singleton, Nat.add_comm]
    | v :: v' :: rest, _, tooMany =>
      exact absurd tooMany (by simp)

/-- Where none says nothing, the violations are what they say, one after the other. -/
theorem Check.verdicts_all (h : Check.verdicts f xs = .ok founds)
    (loud : (founds.filter (·.isEmpty)).length = 0) :
    List.Forall₂ (fun x v => f x = .ok [v]) xs founds.flatten := by
  have each := Check.forall₂_of_verdicts h
  clear h
  induction each with
  | nil => exact .nil
  | @cons x found xs founds spoken _ ih =>
    match found, spoken, single x found spoken with
    | [], _, _ => cases loud
    | [v], spoken, _ => exact .cons spoken (ih loud)
    | v :: v' :: rest, _, tooMany => exact absurd tooMany (by simp)

end Several

theorem Check.upToMatch_all {evaluate : Evaluator} {node : InstanceNode}
    (single : ∀ id found, evaluate id node = .ok found → found.length ≤ 1)
    {schemas : List ValidatorId} {found : List Violation}
    (h : Check.upToMatch evaluate node schemas = .ok (false, found)) :
    List.Forall₂ (fun id v => evaluate id node = .ok [v]) schemas found := by
  induction schemas generalizing found with
  | nil =>
    cases h
    exact .nil
  | cons id schemas ih =>
    unfold Check.upToMatch at h
    obtain ⟨first, spoken, h⟩ := except_bind_ok h
    have most := single id first spoken
    cases first with
    | nil => cases h
    | cons v more =>
      obtain rfl : more = [] := List.length_eq_zero_iff.1 (Nat.le_zero.1 (Nat.le_of_succ_le_succ most))
      obtain ⟨⟨matched, others⟩, rest, h⟩ := except_bind_ok h
      cases h
      exact .cons spoken (ih rest)

/-! ## Checks -/

/-- An evaluator says at most one thing of a value, which is what the schemas of a table say, and a
sound tree. -/
structure Evaluator.IsExact (table : Array Validator) (evaluate : Evaluator) : Prop where
  single : ∀ node id found, evaluate id node = .ok found → found.length ≤ 1
  spoken : ∀ node id v, evaluate id node = .ok [v] → Says table node id v
  sound : ∀ id node, Keeps (Violation.IsSound table) (evaluate id node)

namespace Check

variable {table : Array Validator} {check : Check} {evaluate refer : Evaluator}
  {node : InstanceNode}

theorem keeps_fails {P : Violation → Prop} {complaint : Complaint} {causes : List Violation}
    (h : P (check.violation node complaint causes)) :
    Keeps P (check.fails node complaint causes) := by
  unfold fails Report.codeOf
  split
  · exact keeps_one h
  · exact keeps_error _

/-- A violation of a keyword that is not that of the check. -/
theorem keeps_other {P : Violation → Prop} {pointer place key : String} {complaint : Complaint}
    (h : P (.mk pointer place (some key) (.keyword key) complaint [])) :
    Keeps P (do
      let code ← Report.codeOf key
      return [.mk pointer place (some key) code complaint []]) := by
  unfold Report.codeOf
  split
  · exact keeps_one h
  · exact keeps_error _

theorem keeps_onItems {P : Violation → Prop} {run : List Json → Verdict}
    (h : ∀ items, node.value = .array items → Keeps P (run items)) :
    Keeps P (check.onItems node run) := by
  unfold onItems
  split
  · next items value => exact h items value
  · exact keeps_error _

theorem keeps_onMembers {P : Violation → Prop} {run : List (String × Json) → Verdict}
    (h : ∀ members, node.value = .object members → Keeps P (run members)) :
    Keeps P (check.onMembers node run) := by
  unfold onMembers
  split
  · next members value => exact h members value
  · exact keeps_error _

theorem keeps_onText {P : Violation → Prop} {run : String → Verdict}
    (h : ∀ text, Keeps P (run text)) : Keeps P (check.onText node run) := by
  unfold onText
  split
  · exact h _
  · exact keeps_error _

/-! ### Checks without schemas -/

section Leaves

variable {P : Violation → Prop} (leaf : ∀ complaint, P (check.violation node complaint []))
include leaf

theorem keeps_leaf (complaint : Complaint) : Keeps P (check.fails node complaint []) :=
  keeps_fails (leaf complaint)

theorem keeps_demand (holds : Bool) (complaint : Complaint) :
    Keeps P (check.demand node holds complaint) := by
  unfold demand
  split
  · exact keeps_nothing
  · exact keeps_leaf leaf complaint

theorem keeps_runMultiple (divisor : Json) (fraction : Rat) :
    Keeps P (check.runMultiple divisor fraction node) := by
  unfold runMultiple
  split
  · split
    · exact keeps_leaf leaf _
    · exact keeps_bind fun _ _ => keeps_demand leaf _ _
  · exact keeps_error _

theorem keeps_runLimit (violation : Number → Except Fault (Option (Json × Bool)))
    (complaint : Json → Json → Bool → Complaint) :
    Keeps P (check.runLimit violation complaint node) := by
  unfold runLimit
  split
  · refine keeps_bind fun found _ => ?_
    cases found with
    | none => exact keeps_nothing
    | some bound => exact keeps_leaf leaf _
  · exact keeps_error _

theorem keeps_runLeast (least : Int) (complaint : Int → Nat → Complaint) :
    Keeps P (check.runLeast least complaint node) := by
  unfold runLeast
  split
  · exact keeps_demand leaf _ _
  · exact keeps_error _

theorem keeps_runMost (most : Int) (complaint : Int → Nat → Complaint) :
    Keeps P (check.runMost most complaint node) := by
  unfold runMost
  split
  · exact keeps_demand leaf _ _
  · exact keeps_error _

theorem keeps_runUnique (items : List Json) : Keeps P (check.runUnique node items) := by
  refine keeps_bind fun found _ => ?_
  cases found with
  | none => exact keeps_nothing
  | some pair => exact keeps_leaf leaf _

theorem keeps_runRequired (names : List String) (members : List (String × Json)) :
    Keeps P (check.runRequired names node members) := by
  unfold runRequired
  split
  · exact keeps_nothing
  · exact keeps_leaf leaf _
  · exact keeps_leaf leaf _

/-- The violations of a plain rule are complaints of the check about the value that it is run on. -/
theorem keeps_runPlain (plain : check.rule.IsPlain) : Keeps P (check.run evaluate refer node) := by
  unfold run
  cases rule : check.rule <;> rw [rule] at plain <;> dsimp only
  case type => exact keeps_bind fun _ _ => keeps_demand leaf _ _
  case disallow => exact keeps_bind fun _ _ => keeps_demand leaf _ _
  case enum => exact keeps_demand leaf _ _
  case const => exact keeps_demand leaf _ _
  case not => exact keeps_bind fun _ _ => keeps_demand leaf _ _
  case multipleOf => exact keeps_runMultiple leaf _ _
  case minimum => exact keeps_runLimit leaf _ _
  case maximum => exact keeps_runLimit leaf _ _
  case minLength => exact keeps_runLeast leaf _ _
  case maxLength => exact keeps_runMost leaf _ _
  case pattern => exact keeps_onText fun _ => keeps_demand leaf _ _
  case format => exact keeps_onText fun _ => keeps_bind fun _ _ => keeps_demand leaf _ _
  case minItems => exact keeps_runLeast leaf _ _
  case maxItems => exact keeps_runMost leaf _ _
  case uniqueItems => exact keeps_onItems fun _ _ => keeps_runUnique leaf _
  case contains => exact keeps_onItems fun _ _ => keeps_bind fun _ _ => keeps_demand leaf _ _
  case required => exact keeps_onMembers fun _ _ => keeps_runRequired leaf _ _
  case minProperties => exact keeps_runLeast leaf _ _
  case maxProperties => exact keeps_runMost leaf _ _
  case unfit => exact keeps_error _
  all_goals exact plain.elim

end Leaves

/-! ### Checks that go on to schemas -/

/-- The tree of a leaf is sound. -/
theorem sound_leaf (complaint : Complaint) :
    (check.violation node complaint []).IsSound table :=
  Violation.isSound_of_leaf rfl

/-- A violation gathers at least one cause, or it is a leaf. -/
theorem keeps_gathered {complaint : Complaint} {causes : List Violation}
    (sound : ∀ cause ∈ causes, cause.IsSound table)
    (gathers : 1 ≤ causes.length → (check.violation node complaint causes).Gathers table) :
    Keeps (Violation.IsSound table) (check.fails node complaint causes) := by
  refine keeps_fails (Violation.isSound_of_causes ?_ sound)
  cases causes with
  | nil => exact Violation.isExact_of_leaf rfl
  | cons cause others => exact (gathers (by simp)).isExact

section Schemas

variable (exact : evaluate.IsExact table)
include exact

/-- The causes that schemas give are sound. -/
theorem sound_of_each {α : Type} {id : α → ValidatorId} {place : α → InstanceNode} {xs : List α}
    {causes : List Violation}
    (each : List.Forall₂ (fun x v => evaluate (id x) (place x) = .ok [v]) xs causes) :
    ∀ cause ∈ causes, cause.IsSound table := by
  intro cause mem
  obtain ⟨x, -, spoken⟩ := exists_of_forall₂ each.flip mem
  exact exact.sound _ _ _ spoken cause List.mem_cons_self

theorem keeps_runAll (listed : Listed table check) (keyed : check.IsKeyed)
    {schemas : List ValidatorId} (rule : check.rule = .allOf schemas) :
    Keeps (Violation.IsSound table) (check.runAll evaluate schemas node) := by
  refine keeps_bind fun founds ok => ?_
  obtain ⟨failed, among, each, count⟩ := verdicts_some (exact.single node) ok
  dsimp only
  rw [count]
  split
  · exact keeps_nothing
  · refine keeps_gathered (sound_of_each exact each) fun least => ?_
    have key : check.key = "allOf" ∨ check.key = "extends" := by
      rw [IsKeyed, rule] at keyed
      exact keyed
    have most : founds.flatten.length ≤ schemas.length :=
      each.length_eq ▸ among.length_le
    exact .all listed rule key among (each.imp fun id v => exact.spoken node id v) least most

theorem keeps_runAny (listed : Listed table check) (keyed : check.IsKeyed)
    {schemas : List ValidatorId} (rule : check.rule = .anyOf schemas) :
    Keeps (Violation.IsSound table) (check.runAny evaluate schemas node) := by
  refine keeps_bind fun (matched, found) ok => ?_
  cases matched with
  | true => exact keeps_nothing
  | false =>
    have each := upToMatch_all (exact.single node) ok
    show Keeps _ (check.fails node (.noSchemaMatched schemas.length) found)
    rw [each.length_eq]
    refine keeps_gathered (sound_of_each exact each) fun least => ?_
    rw [IsKeyed, rule] at keyed
    exact .any listed rule keyed (each.imp fun id v => exact.spoken node id v) least

theorem keeps_runOne (listed : Listed table check) (keyed : check.IsKeyed)
    {schemas : List ValidatorId} (rule : check.rule = .oneOf schemas) :
    Keeps (Violation.IsSound table) (check.runOne evaluate schemas node) := by
  refine keeps_bind fun founds ok => ?_
  dsimp only
  split
  · exact keeps_nothing
  · split
    · next none =>
      have each := verdicts_all (exact.single node) ok none
      rw [none]
      refine keeps_gathered (sound_of_each exact each) fun least => ?_
      rw [IsKeyed, rule] at keyed
      exact .one listed rule keyed (each.imp fun id v => exact.spoken node id v) least
    · exact keeps_leaf sound_leaf _

theorem keeps_runNames (listed : Listed table check) (keyed : check.IsKeyed) {schema : ValidatorId}
    (rule : check.rule = .propertyNames schema) {members : List (String × Json)}
    (value : node.value = .object members) :
    Keeps (Violation.IsSound table) (check.runNames evaluate schema node members) := by
  refine keeps_bind fun found ok => ?_
  obtain ⟨founds, answers, rfl⟩ := together_ok ok
  obtain ⟨wrong, among, each, -⟩ :=
    verdicts_some (fun name => exact.single (node.child name (.string name)) schema) answers
  split
  · exact keeps_nothing
  · refine keeps_gathered (sound_of_each exact each) fun least => ?_
    rw [IsKeyed, rule] at keyed
    exact .names listed rule keyed value among
      (each.imp fun name v => exact.spoken (node.child name (.string name)) schema v) least

theorem keeps_runEach (schemas : List ValidatorId) (additional : Option ValidatorId) (forbid : Bool)
    (place : String) (items : List Json) :
    Keeps (Violation.IsSound table)
      (runEach evaluate schemas additional forbid place node items) := by
  have listed : Keeps (Violation.IsSound table) (together
      (fun entry => evaluate entry.1 (node.item entry.2.2 entry.2.1))
      (schemas.zip items.zipIdx)) := keeps_together fun _ _ => exact.sound _ _
  have before {verdict : Verdict} (h : Keeps (Violation.IsSound table) verdict) := keeps_append listed h
  unfold runEach
  split
  · simpa using listed
  · split
    · have surplus : Keeps (Violation.IsSound table) (do
          let code ← Report.codeOf Builtin.additionalItems.key
          return [.mk node.pointer place (some Builtin.additionalItems.key) code
            (.surplusItems schemas.length items.length) []]) :=
        keeps_other (Violation.isSound_of_leaf rfl)
      simpa using before surplus
    · cases additional with
      | none => simpa using listed
      | some schema =>
        exact before (keeps_together fun _ _ => exact.sound _ _)

theorem keeps_runProperties (schemas : List (String × ValidatorId))
    (required : List (String × String)) (members : List (String × Json)) :
    Keeps (Violation.IsSound table) (runProperties evaluate schemas required node members) := by
  refine keeps_together fun (name, schema) _ => ?_
  dsimp only
  split
  · exact exact.sound _ _
  · exact keeps_other (Violation.isSound_of_leaf rfl)
  · exact keeps_nothing

theorem keeps_runPatterns (schemas : List ((String → Bool) × ValidatorId))
    (members : List (String × Json)) :
    Keeps (Violation.IsSound table) (runPatterns evaluate schemas node members) := by
  refine keeps_together fun (name, value) _ => keeps_together fun (search, schema) _ => ?_
  dsimp only
  split
  · exact exact.sound _ _
  · exact keeps_nothing

theorem keeps_runAdditional (schema : ValidatorId) (forbid : Bool) (declared : List String)
    (patterns : List (String → Bool)) (members : List (String × Json)) :
    Keeps (Violation.IsSound table)
      (check.runAdditional evaluate schema forbid declared patterns node members) := by
  refine keeps_together fun (name, value) _ => ?_
  dsimp only
  split
  · exact keeps_leaf sound_leaf _
  · exact exact.sound _ _

theorem keeps_runDependencies (names : List (String × List String))
    (schemas : List (String × ValidatorId)) (members : List (String × Json)) :
    Keeps (Violation.IsSound table)
      (check.runDependencies evaluate names schemas node members) := by
  refine keeps_append (keeps_together fun (name, needed) _ => ?_)
    (keeps_together fun (name, schema) _ => ?_)
  · dsimp only
    split
    · exact keeps_nothing
    · exact keeps_demand sound_leaf _ _
  · dsimp only
    split
    · exact keeps_nothing
    · exact exact.sound _ _

/-- The violations of a check of a table have sound trees. -/
theorem keeps_run (refers : ∀ target, Keeps (Violation.IsSound table) (refer target node))
    (listed : Listed table check) (keyed : check.IsKeyed) :
    Keeps (Violation.IsSound table) (check.run evaluate refer node) := by
  by_cases plain : check.rule.IsPlain
  · exact keeps_runPlain sound_leaf plain
  unfold run
  cases rule : check.rule <;> rw [rule] at plain <;> dsimp only
  case allOf => exact keeps_runAll exact listed keyed rule
  case anyOf => exact keeps_runAny exact listed keyed rule
  case oneOf => exact keeps_runOne exact listed keyed rule
  case propertyNames =>
    exact keeps_onMembers fun members value => keeps_runNames exact listed keyed rule value
  case reference target => exact refers target
  case items every each additional forbid place =>
    refine keeps_onItems fun items _ => ?_
    cases each with
    | some schemas => exact keeps_runEach exact _ _ _ _ _
    | none =>
      cases every with
      | some schema => exact keeps_together fun _ _ => exact.sound _ _
      | none => exact keeps_nothing
  case properties => exact keeps_onMembers fun _ _ => keeps_runProperties exact _ _ _
  case patternProperties => exact keeps_onMembers fun _ _ => keeps_runPatterns exact _ _
  case additionalProperties => exact keeps_onMembers fun _ _ => keeps_runAdditional exact _ _ _ _ _
  case dependencies => exact keeps_onMembers fun _ _ => keeps_runDependencies exact _ _ _
  case nothing => exact keeps_one (Violation.isSound_of_leaf rfl)
  all_goals exact (plain trivial).elim

end Schemas

end Check

/-! ## Schemas -/

section Tables

variable {table : Array Validator}

theorem length_evaluateWithin {depth : Nat} {active : ActiveReferences} {id : ValidatorId}
    {node : InstanceNode} {found : List Violation}
    (ok : evaluateWithin table depth active id node = .ok found) : found.length ≤ 1 := by
  unfold evaluateWithin at ok
  split at ok
  · obtain ⟨violations, -, rest⟩ := except_bind_ok ok
    cases rest
    exact Report.length_folded _ _ _
  · cases ok

/-- What evaluation says has a sound tree. -/
theorem sound_evaluateWithin (keyed : Keyed table) (depth : Nat) (active : ActiveReferences)
    (id : ValidatorId) (node : InstanceNode) :
    Keeps (Violation.IsSound table) (evaluateWithin table depth active id node) := by
  induction depth generalizing active id node with
  | zero => exact keeps_error _
  | succ depth ih =>
    unfold evaluateWithin
    cases stored : table[id.index]? with
    | none => exact keeps_error _
    | some validator =>
      have exact : Evaluator.IsExact table (evaluateWithin table depth active) :=
        ⟨fun _ _ _ => length_evaluateWithin, fun _ _ _ ok => ⟨depth, active, ok⟩, ih active⟩
      refine keeps_bind fun found ok => ?_
      have checks : Keeps (Violation.IsSound table) (.ok found) := by
        rw [← ok]
        refine keeps_together fun check mem => keeps_bind fun applies _ => ?_
        have listed : Listed table check := ⟨id.index, validator, stored, mem⟩
        cases applies with
        | false => exact keeps_nothing
        | true =>
          rw [if_pos rfl]
          refine Check.keeps_run exact (fun target => ?_) listed (keyed check listed)
          split
          · exact keeps_nothing
          · exact ih _ target node
      rintro violations ⟨⟩
      have sound := checks found rfl
      exact Report.forall_folded sound fun many =>
        Violation.isSound_of_causes (Violation.Gathers.several many).isExact sound

/-- What a check of a schema adds to a report: nothing if it does not apply to the value. -/
def Check.Produces (table : Array Validator) (depth : Nat) (active : ActiveReferences)
    (node : InstanceNode) (check : Check) (found : List Violation) : Prop :=
  (check.applies node = .ok false ∧ found = []) ∨
  (check.applies node = .ok true ∧ ∀ report : Report,
    check.report (validateWithin table depth active) node
      (follow (validateWithin table depth) active) report =
        .ok ((), ⟨report.violations ++ found⟩))

/-- How a schema changes a report: not at all if the value is valid; otherwise by one violation,
whose leaves are those of what its checks have produced, one check after the other. -/
structure FoldsExactly (table : Array Validator) (validator : Validator) (depth : Nat)
    (active : ActiveReferences) (node : InstanceNode) (report after : Report) (valid : Bool)
    (produced : List (List Violation)) : Prop where
  /-- What the checks have produced, in their order. -/
  checks : List.Forall₂ (Check.Produces table depth active node) validator.checkList produced
  /-- The answer is whether the report has changed. -/
  answer : valid = true ↔ after.violations = report.violations
  accepted : valid = true → produced.flatten = []
  rejected : valid = false → ∃ top, after.violations = report.violations ++ [top] ∧
    top.leaves = Violation.leavesOfList produced.flatten ∧ top.IsSound table

/-- The runs of the checks that a verdict puts together are what they add to a report. -/
theorem produces_of_run {depth : Nat} {active : ActiveReferences} {node : InstanceNode}
    {check : Check} {found : List Violation}
    (ok : (do
      if ← check.applies node then
        check.run (evaluateWithin table depth active) (fun target node =>
          if active.contains (target, node.path) then .ok []
          else evaluateWithin table depth ((target, node.path) :: active) target node) node
      else return []) = Except.ok found) :
    check.Produces table depth active node found := by
  obtain ⟨applies, answer, ran⟩ := except_bind_ok ok
  cases applies with
  | false =>
    cases ran
    exact .inl ⟨answer, rfl⟩
  | true =>
    refine .inr ⟨answer, fun report => ?_⟩
    rw [if_pos rfl] at ran
    rw [check.report_adds (tells_validateWithin table depth active) (adds_follow table depth active)
      report, ran]
    rfl

/-- A run of a schema with a report folds what its checks have produced. -/
theorem exists_foldsExactly (keyed : Keyed table) {depth : Nat} {active : ActiveReferences}
    {id : ValidatorId} {node : InstanceNode} {report after : Report} {valid : Bool}
    (run : validateWithin table depth active id node report = .ok (valid, after)) :
    ∃ validator inner produced, table[id.index]? = some validator ∧ depth = inner + 1 ∧
      FoldsExactly table validator inner active node report after valid produced := by
  rw [tells_validateWithin table depth active id node report] at run
  cases verdict : evaluateWithin table depth active id node with
  | error fault =>
    rw [verdict] at run
    cases run
  | ok violations =>
    rw [verdict] at run
    cases run
    have sound := sound_evaluateWithin keyed depth active id node violations verdict
    unfold evaluateWithin at verdict
    split at verdict
    · next inner validator stored =>
      obtain ⟨found, together, folded⟩ := except_bind_ok verdict
      cases folded
      obtain ⟨produced, verdicts, rfl⟩ := Check.together_ok together
      refine ⟨validator, inner, produced, stored, rfl, ?_, ?_, ?_, ?_⟩
      · exact (Check.forall₂_of_verdicts verdicts).imp fun check found ok => produces_of_run ok
      · exact List.isEmpty_iff.trans List.append_right_eq_self.symm
      · intro valid
        rw [Report.isEmpty_folded] at valid
        exact List.isEmpty_iff.1 valid
      · intro invalid
        rw [Report.isEmpty_folded, List.isEmpty_eq_false_iff] at invalid
        obtain ⟨top, one, leaves⟩ :=
          Report.exists_top node.pointer validator.location invalid
        rw [one] at sound ⊢
        exact ⟨top, rfl, leaves, List.forall_mem_singleton.1 sound⟩
    · cases verdict

end Tables

/-- A compiled schema folds exactly. With a report it adds what its verdict lists and answers
whether that is nothing. If it gives an answer, the report is unchanged for a valid value. For
another one it has one violation more, whose leaves are those of the violations that the checks
which apply have produced, and every violation of its tree is a leaf or gathers others. -/
theorem CompiledSchema.ofSchema_folds {compiler : Compiler} {graph : SchemaGraph} {schema : Schema}
    {compiled : CompiledSchema}
    (ok : CompiledSchema.ofSchema compiler graph schema = .ok compiled) :
    (∀ value, compiled.validate value =
      (·.2) <$> validateWithin compiled.table (evaluationBound compiled.table value) []
        compiled.root (.root value) .empty) ∧
    ∀ depth active id node report,
      validateWithin compiled.table depth active id node report =
        (fun found => (found.isEmpty, ⟨report.violations ++ found⟩)) <$>
          evaluateWithin compiled.table depth active id node ∧
      ∀ valid after,
        validateWithin compiled.table depth active id node report = .ok (valid, after) →
        ∃ validator inner produced, compiled.table[id.index]? = some validator ∧
          depth = inner + 1 ∧
          FoldsExactly compiled.table validator inner active node report after valid produced := by
  refine ⟨fun value => ?_, fun depth active id node report => ⟨?_, fun valid after run => ?_⟩⟩
  · rw [tells_validateWithin]
    unfold validate evaluate
    cases evaluateWithin compiled.table (evaluationBound compiled.table value) [] compiled.root
      (.root value) <;> rfl
  · exact tells_validateWithin compiled.table depth active id node report
  · exact exists_foldsExactly (CompiledSchema.ofSchema_keyed ok) run

/-! ### A combinator beside another keyword -/

namespace Twice

/-- A schema with two keywords that nothing but `true` could pass, and the first lets nothing
pass. -/
def root : Schema :=
  .node ⟨0⟩ none .draft6
    [(Builtin.anyOf, .schemaList [.never, .never]), (Builtin.const, .literal .any (.bool true))]

/-- The graph of this schema. -/
def graph : SchemaGraph where
  handles := #[]
  nextNode := 1

end Twice

theorem twice_folds : ∃ compiled,
    CompiledSchema.ofSchema Loop.compiler Twice.graph Twice.root = .ok compiled ∧
    ∃ validator produced top,
      FoldsExactly compiled.table validator 2 [] (.root .null) .empty ⟨[top]⟩ false produced ∧
      top.causes.length = 2 ∧ top.leaves.length = 3 := by
  obtain ⟨compiled, ok, top, run, two, three⟩ : ∃ compiled,
      CompiledSchema.ofSchema Loop.compiler Twice.graph Twice.root = .ok compiled ∧
      ∃ top, validateWithin compiled.table 3 [] compiled.root (.root .null) .empty =
          .ok (false, ⟨[top]⟩) ∧ top.causes.length = 2 ∧ top.leaves.length = 3 :=
    ⟨_, rfl, _, rfl, rfl, rfl⟩
  obtain ⟨validator, inner, produced, -, same, folds⟩ :=
    ((CompiledSchema.ofSchema_folds ok).2 3 [] compiled.root (.root .null) .empty).2 false _ run
  cases same
  exact ⟨compiled, ok, validator, produced, top, folds, two, three⟩

end JsonSchema
