import JsonSchema.Proofs.Meaning
import JsonSchema.Proofs.Run

/-!
# References

A schema leads to its parts, and by its references to the schemas that their handles are bound to.
If a graph gives out handles below a number only (`Schema.IsWithin`) and has bound them all, every
reference that a schema leads to is bound (`bound_of_leads`), and compiling the schema does not meet
an unbound handle (`ofSchema_ne_unresolved`).
-/

namespace JsonSchema

/-! ## Parts and references -/

/-- The schemas in a keyword value. -/
def KeywordValue.schemas : KeywordValue → List Schema
  | .schema inner => [inner]
  | .schemaList listed => listed
  | .schemaMap named => named.map (·.2)
  | .items form additional => form.schemas ++ additional.toList
  | .dependencies _ named => named.map (·.2)
  | _ => []

/-- The handle that a reference refers to. -/
def KeywordValue.target? : KeywordValue → Option HandleId
  | .reference _ _ target => some target
  | _ => none

namespace Schema

/-- A schema in a keyword of another one. -/
def IsPartOf (part whole : Schema) : Prop :=
  ∃ keyword value, (keyword, value) ∈ whole.keywords ∧ part ∈ value.schemas

/-- A schema has a reference to a handle. -/
def RefersTo (schema : Schema) (target : HandleId) : Prop :=
  ∃ keyword value, (keyword, value) ∈ schema.keywords ∧ value.target? = some target

/-- A schema leads to its parts and to the targets of its references. -/
def LeadsTo (graph : SchemaGraph) (schema other : Schema) : Prop :=
  other.IsPartOf schema ∨ ∃ target, schema.RefersTo target ∧ graph.schema? target = some other

/-- All references of a schema and of the schemas in it are to handles below a number. -/
def IsWithin (size : Nat) (schema : Schema) : Prop :=
  ∀ part, Relation.ReflTransGen (fun whole part => IsPartOf part whole) schema part →
    ∀ target, part.RefersTo target → target.index < size

end Schema

/-- All references in a keyword value are to handles below a number. -/
def KeywordValue.IsWithin (size : Nat) (value : KeywordValue) : Prop :=
  (∀ target, value.target? = some target → target.index < size) ∧
    ∀ schema ∈ value.schemas, schema.IsWithin size

/-- All references in the values of some keywords are to handles below a number. -/
def AreWithin (size : Nat) (keywords : List (Keyword × KeywordValue)) : Prop :=
  ∀ entry ∈ keywords, entry.2.IsWithin size

namespace Schema

variable {size size' : Nat} {schema : Schema}

theorem isWithin_iff : schema.IsWithin size ↔ AreWithin size schema.keywords := by
  constructor
  · rintro within ⟨keyword, value⟩ mem
    refine ⟨fun target refers => within schema .refl target ⟨keyword, value, mem, refers⟩, ?_⟩
    intro part listed inner path
    exact within inner (.head ⟨keyword, value, mem, listed⟩ path)
  · intro within part path target refers
    rcases path.cases_head with rfl | ⟨next, ⟨keyword, value, mem, listed⟩, rest⟩
    · obtain ⟨keyword, value, mem, same⟩ := refers
      exact (within (keyword, value) mem).1 target same
    · exact (within (keyword, value) mem).2 next listed part rest target refers

theorem IsWithin.mono (le : size ≤ size') (h : schema.IsWithin size) : schema.IsWithin size' :=
  fun part path target refers => Nat.lt_of_lt_of_le (h part path target refers) le

theorem IsWithin.part {part : Schema} (h : schema.IsWithin size) (inside : part.IsPartOf schema) :
    part.IsWithin size :=
  fun inner path => h inner (.head inside path)

theorem isWithin_always : Schema.always.IsWithin size :=
  isWithin_iff.2 (fun _ mem => absurd mem List.not_mem_nil)

theorem isWithin_ofBool (value : Bool) : (Schema.ofBool value).IsWithin size := by
  cases value with
  | true => exact isWithin_always
  | false =>
    refine isWithin_iff.2 (fun entry mem => ?_)
    cases List.mem_singleton.1 mem
    refine ⟨(fun target refers => nomatch refers), fun part listed => ?_⟩
    cases List.mem_singleton.1 listed
    exact isWithin_always

end Schema

theorem KeywordValue.IsWithin.mono {size size' : Nat} {value : KeywordValue} (le : size ≤ size')
    (h : value.IsWithin size) : value.IsWithin size' :=
  ⟨fun target refers => Nat.lt_of_lt_of_le (h.1 target refers) le,
    fun schema mem => (h.2 schema mem).mono le⟩

/-- The schemas of a graph refer to handles that the graph has given out. -/
def SchemaGraph.IsSound (graph : SchemaGraph) : Prop :=
  ∀ id schema, graph.schema? id = some schema → schema.IsWithin graph.handles.size

/-- Every handle that a graph has given out is bound. -/
def SchemaGraph.IsBound (graph : SchemaGraph) : Prop :=
  ∀ id : HandleId, id.index < graph.handles.size → (graph.schema? id).isSome

/-- What a schema leads to refers to bound handles. -/
theorem bound_of_leads {graph : SchemaGraph} (sound : graph.IsSound) (bound : graph.IsBound)
    {schema other : Schema} (within : schema.IsWithin graph.handles.size)
    (leads : Relation.ReflTransGen (Schema.LeadsTo graph) schema other) {target : HandleId}
    (refers : other.RefersTo target) : (graph.schema? target).isSome := by
  have inside : other.IsWithin graph.handles.size := by
    clear refers
    induction leads with
    | refl => exact within
    | tail _ step ih =>
      rcases step with part | ⟨id, _, found⟩
      · exact ih.part part
      · exact sound id _ found
  exact bound target (inside other .refl target refers)

/-! ## Compiling -/

namespace Compile

variable {α β : Type} {compiler : Compiler} {graph : SchemaGraph} {recur : SchemaCompiler}

/-- A program that does not stop with an unbound handle. -/
def Resolves (act : Compile α) : Prop :=
  ∀ s uri s', act.run.run s ≠ (.error (.unresolved uri), s')

theorem resolves_pure (a : α) : Resolves (pure a : Compile α) := by
  intro s uri s' run
  cases run

theorem resolves_throw {fault : Fault} (other : ∀ uri, fault ≠ .unresolved uri) :
    Resolves (throw fault : Compile α) := by
  intro s uri s' run
  have same : fault = .unresolved uri := by
    injection run with result
    injection result
  exact other uri same

theorem resolves_bind {act : Compile α} {next : α → Compile β} (first : Resolves act)
    (rest : ∀ a, Resolves (next a)) : Resolves (act >>= next) := by
  intro s uri s' run
  cases whole : act.run.run s with
  | mk result s₁ =>
    cases result with
    | ok a =>
      rw [run_bind_ok whole] at run
      exact rest a s₁ uri s' run
    | error fault =>
      rw [run_bind_error whole] at run
      cases run
      exact first s uri s' whole

theorem resolves_check {x : Except Fault α} (other : ∀ uri, x ≠ .error (.unresolved uri)) :
    Resolves (check x) := by
  cases x with
  | ok a => exact resolves_pure a
  | error fault => exact resolves_throw (fun uri same => other uri (by rw [same]))

theorem resolves_checkError {ε : Type} {x : Except ε α} {wrap : ε → Fault}
    (other : ∀ e uri, wrap e ≠ .unresolved uri) : Resolves (check (x.mapError wrap)) := by
  refine resolves_check (fun uri same => ?_)
  cases x with
  | ok a => cases same
  | error e => exact other e uri (Except.error.inj same)

theorem resolves_mapM {f : α → Compile β} {xs : List α} (each : ∀ x ∈ xs, Resolves (f x)) :
    Resolves (xs.mapM f) := by
  induction xs with
  | nil => exact resolves_pure []
  | cons x xs ih =>
    rw [List.mapM_cons]
    refine resolves_bind (each x List.mem_cons_self) (fun y => ?_)
    exact resolves_bind (ih (fun x' mem => each x' (List.mem_cons_of_mem _ mem)))
      (fun ys => resolves_pure _)

theorem resolves_get : Resolves (get : Compile Compilation) := by
  intro s uri s' run
  cases run

theorem resolves_set (state : Compilation) : Resolves (set state : Compile PUnit) := by
  intro s uri s' run
  cases run

theorem resolves_known (schema : Schema) : Resolves (known? schema) := by
  cases schema with
  | node id location draft keywords => exact resolves_bind resolves_get (fun _ => resolves_pure _)
  | _ => exact resolves_pure _

theorem resolves_enter (schema : Schema) (location : String) : Resolves (enter schema location) :=
  resolves_bind resolves_get (fun _ => resolves_bind (resolves_set _) (fun _ => resolves_pure _))

theorem resolves_fill (id : ValidatorId) (checks : List Check) : Resolves (fill id checks) := by
  refine resolves_bind resolves_get (fun state => ?_)
  split
  · exact resolves_throw nofun
  · next validator _ =>
    refine resolves_bind (resolves_check (fun uri same => ?_)) (fun filled => resolves_set _)
    unfold Validator.fill at same
    split at same <;> cases same

theorem resolves_list {schemas : List Schema}
    (each : ∀ schema ∈ schemas, ∀ place, Resolves (recur schema place)) (place : String) :
    Resolves (list recur schemas place) := by
  refine resolves_mapM (fun numbered mem => ?_)
  obtain ⟨schema, position⟩ := numbered
  exact each schema (List.fst_mem_of_mem_zipIdx mem) _

theorem resolves_map {schemas : List (String × Schema)}
    (each : ∀ entry ∈ schemas, ∀ place, Resolves (recur entry.2 place)) (place : String) :
    Resolves (map recur schemas place) :=
  resolves_mapM (fun entry mem =>
    resolves_bind (each entry mem _) (fun _ => resolves_pure _))

theorem resolves_search (pattern : String) : Resolves (searchOf compiler pattern) :=
  resolves_checkError nofun

theorem resolves_count (key : String) (rule : Int → Rule) (value : KeywordValue) :
    Resolves (countRule key rule value) := by
  unfold countRule
  split
  · split
    · exact resolves_pure _
    · exact resolves_throw nofun
  · exact resolves_throw nofun

theorem Resolves.map {act : Compile α} (h : Resolves act) (f : α → β) : Resolves (f <$> act) := by
  rw [map_eq_pure_bind]
  exact resolves_bind h (fun _ => resolves_pure _)

/-- A compiling function meets no unbound handle in some schemas. -/
def ResolvesAll (recur : SchemaCompiler) (member : Schema → Prop) : Prop :=
  ∀ schema place, member schema → Resolves (recur schema place)

section Keywords

variable {member : Schema → Prop} (all : ResolvesAll recur member)
include all

theorem resolves_optional {schema : Option Schema} (inside : ∀ s, schema = some s → member s)
    (place : String) : Resolves (optional recur schema place) := by
  cases schema with
  | none => exact resolves_pure none
  | some s => exact resolves_bind (all s place (inside s rfl)) (fun _ => resolves_pure _)

theorem resolves_items {form : ItemsForm} {additional : Option Schema}
    (parts : ∀ schema ∈ form.schemas ++ additional.toList, member schema) (place : String) :
    Resolves (itemsRule recur form additional place) := by
  have more : ∀ place, Resolves (optional recur
      (additional.filter (!·.isAlwaysInvalid)) place) := by
    intro place
    refine resolves_optional all (fun schema kept => ?_) place
    have found := (Option.filter_eq_some_iff.1 kept).1
    exact parts schema (by simp [found])
  unfold itemsRule
  cases form with
  | absent =>
    refine resolves_bind (resolves_pure none) (fun _ => ?_)
    refine resolves_bind (resolves_pure none) (fun _ => ?_)
    exact resolves_bind (more _) (fun _ => resolves_pure _)
  | every schema =>
    refine resolves_bind ((all schema place (parts schema List.mem_cons_self)).map some)
      (fun _ => ?_)
    refine resolves_bind (resolves_pure none) (fun _ => ?_)
    exact resolves_bind (more _) (fun _ => resolves_pure _)
  | each schemas =>
    have listed : ∀ schema ∈ schemas, ∀ place, Resolves (recur schema place) :=
      fun schema mem place => all schema place (parts schema (List.mem_append_left _ mem))
    refine resolves_bind (resolves_pure none) (fun _ => ?_)
    refine resolves_bind ((resolves_list listed place).map some) (fun _ => ?_)
    exact resolves_bind (more _) (fun _ => resolves_pure _)

theorem resolves_additional {schema : Schema} (inside : member schema) (owner : Schema)
    (place : String) : Resolves (additionalRule compiler recur owner schema place) := by
  unfold additionalRule
  split
  · exact resolves_pure none
  · refine resolves_bind (all schema place inside) (fun _ => ?_)
    refine resolves_bind (resolves_mapM (fun pattern _ => resolves_search pattern)) (fun _ => ?_)
    exact resolves_pure _

/-- The rule of a keyword whose schemas have been loaded and whose reference is bound. -/
theorem resolves_rule {value : KeywordValue} (parts : ∀ schema ∈ value.schemas, member schema)
    (targets : ∀ target, value.target? = some target →
      ∃ schema, graph.schema? target = some schema ∧ member schema)
    (owner : Schema) (assertion : Assertion) (place : String) :
    Resolves (ruleOf compiler graph recur owner assertion value place) := by
  have list : ∀ {schemas : List Schema}, (∀ schema ∈ schemas, member schema) →
      Resolves (Compile.list recur schemas place) :=
    fun inside => resolves_list (fun schema mem place => all schema place (inside schema mem)) place
  have map : ∀ {schemas : List (String × Schema)},
      (∀ schema ∈ schemas.map (·.2), member schema) →
      Resolves (Compile.map recur schemas place) :=
    fun inside => resolves_map
      (fun entry mem place => all entry.2 place (inside entry.2 (List.mem_map_of_mem mem))) place
  have single : ∀ {schema : Schema}, (∀ inner ∈ [schema], member inner) →
      Resolves (recur schema place) :=
    fun inside => all _ place (inside _ List.mem_cons_self)
  unfold ruleOf
  dsimp only
  split
  -- type, disallow, enum, const
  iterate 7 exact resolves_pure _
  -- allOf, extends, anyOf, oneOf
  iterate 4 exact resolves_bind (list parts) (fun _ => resolves_pure _)
  -- not
  exact resolves_bind (single parts) (fun _ => resolves_pure _)
  -- $ref
  next ref uri target =>
    obtain ⟨schema, found, inside⟩ := targets target rfl
    unfold SchemaGraph.target
    rw [found]
    have rule : Resolves (recur schema uri >>= fun id => pure (some (Rule.reference id))) :=
      resolves_bind (all schema uri inside) (fun _ => resolves_pure _)
    exact rule
  -- format
  exact resolves_pure _
  next other _ =>
    refine resolves_bind (resolves_check (fun uri same => ?_)) (fun _ => resolves_pure _)
    unfold Json.checkPlain at same
    split at same <;> cases same
  -- multipleOf, divisibleBy
  iterate 2
    exact resolves_bind (resolves_checkError nofun) (fun _ => resolves_pure _)
  -- minimum, maximum
  iterate 4 exact resolves_pure _
  -- lengths
  iterate 6 exact resolves_count _ _ _
  -- pattern
  exact resolves_bind (resolves_search _) (fun _ => resolves_pure _)
  -- items, uniqueItems, contains
  exact resolves_items all parts place
  exact resolves_pure _
  exact resolves_bind (single parts) (fun _ => resolves_pure _)
  -- properties, patternProperties, additionalProperties
  exact resolves_bind (map parts) (fun _ => resolves_pure _)
  · refine resolves_bind (map parts) (fun compiled => ?_)
    refine resolves_bind (resolves_mapM (fun entry _ => ?_)) (fun _ => resolves_pure _)
    exact resolves_bind (resolves_search _) (fun _ => resolves_pure _)
  exact resolves_additional all (parts _ List.mem_cons_self) owner place
  -- required
  iterate 2 exact resolves_pure _
  -- propertyNames, dependencies
  exact resolves_bind (single parts) (fun _ => resolves_pure _)
  exact resolves_bind (map parts) (fun _ => resolves_pure _)
  exact resolves_throw nofun

end Keywords

section Schemas

variable {member : Schema → Prop}
  (parts : ∀ schema other, member schema → other.IsPartOf schema → member other)
  (targets : ∀ schema target, member schema → schema.RefersTo target →
    ∃ other, graph.schema? target = some other ∧ member other)
include parts targets

theorem resolves_schemaWith (all : ResolvesAll recur member) :
    ResolvesAll (schemaWith compiler graph recur) member := by
  intro schema fallback owned
  have keyword : ∀ entry ∈ schema.keywords, ∀ location,
      Resolves (checkOf compiler graph recur schema location entry.1 entry.2) := by
    intro entry mem location
    unfold checkOf
    split
    · exact resolves_pure none
    · refine resolves_bind (resolves_rule all (fun part listed => ?_) (fun target refers => ?_)
        schema _ _) (fun _ => resolves_pure _)
      · exact parts schema part owned ⟨entry.1, entry.2, mem, listed⟩
      · exact targets schema target owned ⟨entry.1, entry.2, mem, refers⟩
  have rest : ∀ location, Resolves (placeAt compiler graph recur schema location) := by
    intro location
    refine resolves_bind (resolves_enter schema location) (fun id => ?_)
    refine resolves_bind ?_ (fun checks =>
      resolves_bind (resolves_fill _ _) (fun _ => resolves_pure _))
    unfold checksOf
    split
    · exact resolves_pure _
    · exact resolves_bind (resolves_mapM (fun entry mem => keyword entry mem location))
        (fun checks => resolves_pure _)
  rw [schemaWith_eq]
  refine resolves_bind (resolves_known schema) (fun found => ?_)
  cases found with
  | some id => exact resolves_pure id
  | none =>
    dsimp only
    split
    · exact resolves_bind (resolves_checkError nofun) (fun location => rest location)
    · exact rest fallback

theorem resolves_schemaWithin (depth : Nat) :
    ResolvesAll (schemaWithin compiler graph depth) member := by
  induction depth with
  | zero => exact fun _ _ _ => resolves_throw nofun
  | succ depth ih => exact resolves_schemaWith parts targets ih

end Schemas

end Compile

/-- Compiling a schema meets no unbound handle, if all are bound that the schema leads to. -/
theorem ofSchema_ne_unresolved {compiler : Compiler} {graph : SchemaGraph} {root : Schema}
    (bound : ∀ other, Relation.ReflTransGen (Schema.LeadsTo graph) root other →
      ∀ target, other.RefersTo target → (graph.schema? target).isSome) (uri : String) :
    CompiledSchema.ofSchema compiler graph root ≠ .error (.unresolved uri) := by
  have resolves : Compile.ResolvesAll
      (Compile.schemaWithin compiler graph (graph.nextNode + 2))
      (Relation.ReflTransGen (Schema.LeadsTo graph) root) := by
    refine Compile.resolves_schemaWithin ?_ ?_ _
    · intro schema other owned part
      exact owned.tail (.inl part)
    · intro schema target owned refers
      obtain ⟨other, found⟩ := Option.isSome_iff_exists.1 (bound schema owned target refers)
      exact ⟨other, found, owned.tail (.inr ⟨target, refers, found⟩)⟩
  intro fails
  unfold CompiledSchema.ofSchema at fails
  split at fails
  · cases fails
  · next fault state run =>
    cases fails
    exact resolves root "#" .refl .empty uri state run

end JsonSchema
