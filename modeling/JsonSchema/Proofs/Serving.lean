import JsonSchema.Proofs.Checking

/-!
# Places that serve schemas

A keyword is compiled to a rule that goes on to places of the table. They stand for the schemas that
the keyword uses, in their order (`Served`). Left out are only schemas for the values inside a value
that accept everything or nothing: the rule says so itself and needs no place for them.

This is said of compiling in any worlds that have a table in the making (`Tabled`), with nothing
assumed about the values that keywords hold (`Compile.serves_ruleOf`).
-/

namespace JsonSchema

/-! ## Served schemas -/

/-- Places serve the schemas that are used: one after the other they stand for them. A schema for
the values inside may be spared a place if it accepts everything or nothing. -/
inductive Served (stands : Schema → ValidatorId → Prop) :
    List (Use × Schema) → List (Use × ValidatorId) → Prop
  | nil : Served stands [] []
  | placed {use : Use} {schema : Schema} {id : ValidatorId} {needs : List (Use × Schema)}
    {places : List (Use × ValidatorId)} (stood : stands schema id)
    (rest : Served stands needs places) :
    Served stands ((use, schema) :: needs) ((use, id) :: places)
  | spared {schema : Schema} {needs : List (Use × Schema)} {places : List (Use × ValidatorId)}
    (constant : schema.isAlwaysValid = true ∨ schema.isAlwaysInvalid = true)
    (rest : Served stands needs places) : Served stands ((.inside, schema) :: needs) places

namespace Served

variable {stands stands' : Schema → ValidatorId → Prop} {needs needs' : List (Use × Schema)}
  {places places' : List (Use × ValidatorId)} {use : Use}

theorem mono (h : Served stands needs places)
    (more : ∀ schema id, stands schema id → stands' schema id) : Served stands' needs places := by
  induction h with
  | nil => exact .nil
  | placed stood _ ih => exact .placed (more _ _ stood) ih
  | spared constant _ ih => exact .spared constant ih

theorem append (h : Served stands needs places) (h' : Served stands needs' places') :
    Served stands (needs ++ needs') (places ++ places') := by
  induction h with
  | nil => exact h'
  | placed stood _ ih => exact .placed stood ih
  | spared constant _ ih => exact .spared constant ih

theorem of_forall₂ (use : Use) {schemas : List Schema} {ids : List ValidatorId}
    (h : List.Forall₂ stands schemas ids) :
    Served stands (schemas.map (use, ·)) (ids.map (use, ·)) := by
  induction h with
  | nil => exact .nil
  | cons stood _ ih => exact .placed stood ih

theorem single (use : Use) {schema : Schema} {id : ValidatorId} (stood : stands schema id) :
    Served stands [(use, schema)] [(use, id)] :=
  .placed stood .nil

/-- A place that serves stands for a schema that is used in the same way. -/
theorem exists_need (h : Served stands needs places) {id : ValidatorId}
    (mem : (use, id) ∈ places) : ∃ schema, (use, schema) ∈ needs ∧ stands schema id := by
  induction h with
  | nil => cases mem
  | placed stood _ ih =>
    rcases List.mem_cons.1 mem with same | later
    · cases same
      exact ⟨_, List.mem_cons_self, stood⟩
    · obtain ⟨schema, listed, found⟩ := ih later
      exact ⟨schema, List.mem_cons_of_mem _ listed, found⟩
  | spared _ _ ih =>
    obtain ⟨schema, listed, found⟩ := ih mem
    exact ⟨schema, List.mem_cons_of_mem _ listed, found⟩

/-- A schema that is used has a place that serves it, unless it is spared one. -/
theorem exists_place (h : Served stands needs places) {schema : Schema}
    (mem : (use, schema) ∈ needs) :
    (∃ id, (use, id) ∈ places ∧ stands schema id) ∨
      use = .inside ∧ (schema.isAlwaysValid = true ∨ schema.isAlwaysInvalid = true) := by
  induction h with
  | nil => cases mem
  | placed stood _ ih =>
    rcases List.mem_cons.1 mem with same | later
    · cases same
      exact .inl ⟨_, List.mem_cons_self, stood⟩
    · refine (ih later).imp_left ?_
      rintro ⟨id, listed, found⟩
      exact ⟨id, List.mem_cons_of_mem _ listed, found⟩
  | spared constant _ ih =>
    rcases List.mem_cons.1 mem with same | later
    · cases same
      exact .inr ⟨rfl, constant⟩
    · exact ih later

end Served

/-! ## Compiling keywords -/

/-- Worlds with a table in the making: the state of compiling, and which places stand for a schema,
as they still do later. -/
class Tabled (Ω : Type) extends Preorder Ω where
  state : Ω → Compilation
  StandsFor : Ω → Schema → ValidatorId → Prop
  later : ∀ {w w' : Ω} {schema : Schema} {id : ValidatorId}, w ≤ w' → StandsFor w schema id →
    StandsFor w' schema id

/-- The places that the rule of a keyword goes on to, if it has one. -/
def Rule.placesOf (rule : Option Rule) : List (Use × ValidatorId) :=
  (rule.map Rule.uses).getD []

namespace Compile

open Tabled

variable {Ω : Type} [Tabled Ω] {w : Ω} {compiler : Compiler} {graph : SchemaGraph}
  {member : Schema → Prop} {recur : SchemaCompiler}

/-- A run that ends in a later world with `Q`, if it does not stop with a fault. -/
abbrev Ends {α : Type} (act : Compile α) (w : Ω) (Q : α → Ω → Prop) : Prop :=
  After Tabled.state Anyhow act w Q

/-- A compiling function gives some schemas places that stand for them. -/
def Seats (Ω : Type) [Tabled Ω] (member : Schema → Prop) (recur : SchemaCompiler) : Prop :=
  ∀ (w : Ω) schema place, member schema →
    Ends (recur schema place) w fun id w' => StandsFor w' schema id

/-- What compiling a keyword gives: a rule whose places serve the schemas of the keyword. -/
def Serves (needs : List (Use × Schema)) (rule : Option Rule) (w : Ω) : Prop :=
  Served (StandsFor w) needs (Rule.placesOf rule)

theorem ends_check {α : Type} (x : Except Fault α) : Ends (check x) w fun a _ => x = .ok a := by
  cases x with
  | ok a => exact after_pure rfl
  | error fault => exact after_throw trivial

/-- A keyword without schemas. -/
theorem serves_plain {needs : List (Use × Schema)} {rule : Option Rule} (nothing : needs = [])
    (none : Rule.placesOf rule = []) : Ends (pure rule) w (Serves needs) := by
  refine after_pure ?_
  unfold Serves
  rw [nothing, none]
  exact .nil

section Families

variable {place : String} (seats : Seats Ω member recur)
include seats

theorem ends_list {schemas : List Schema} (inside : ∀ schema ∈ schemas, member schema) :
    Ends (list recur schemas place) w fun ids w' => List.Forall₂ (StandsFor w') schemas ids := by
  have loop : Ends (list recur schemas place) w fun ids w' =>
      List.Forall₂ (fun numbered id => StandsFor w' numbered.1 id) schemas.zipIdx ids := by
    refine after_mapM (Q := fun (numbered : Schema × Nat) id (w' : Ω) =>
      StandsFor w' numbered.1 id) (fun _ _ _ _ up h => later up h) _ ?_
    rintro ⟨schema, position⟩ mem w' -
    exact seats w' schema _ (inside schema (List.fst_mem_of_mem_zipIdx mem))
  refine after_mono loop (fun ids w' _ h => ?_)
  have mapped := List.forall₂_map_left_iff (R := StandsFor w') (f := Prod.fst) |>.2 h
  rwa [List.zipIdx_map_fst] at mapped

theorem ends_map {schemas : List (String × Schema)}
    (inside : ∀ entry ∈ schemas, member entry.2) :
    Ends (map recur schemas place) w fun ids w' =>
      List.Forall₂ (StandsFor w') (schemas.map (·.2)) (ids.map (·.2)) := by
  have loop : Ends (map recur schemas place) w fun ids w' =>
      List.Forall₂ (fun (entry : String × Schema) (entry' : String × ValidatorId) =>
        StandsFor w' entry.2 entry'.2) schemas ids := by
    refine after_mapM (Q := fun (entry : String × Schema) (entry' : String × ValidatorId)
      (w' : Ω) => StandsFor w' entry.2 entry'.2) (fun _ _ _ _ up h => later up h) _ ?_
    rintro ⟨name, schema⟩ mem w' -
    exact after_bind (seats w' schema _ (inside (name, schema) mem)) (fun id w'' _ h => after_pure h)
  exact after_mono loop fun ids w' _ h =>
    List.forall₂_map_left_iff.2 (List.forall₂_map_right_iff.2 h)

theorem ends_optional {schema : Option Schema} (inside : ∀ s, schema = some s → member s) :
    Ends (optional recur schema place) w fun id w' =>
      List.Forall₂ (StandsFor w') schema.toList id.toList := by
  cases schema with
  | none => exact after_pure .nil
  | some s =>
    exact after_bind (seats w s place (inside s rfl)) (fun id w' _ h => after_pure (.cons h .nil))

/-! ### The rules of keywords -/

theorem serves_list {use : Use} {rule : List ValidatorId → Rule} {schemas : List Schema}
    (inside : ∀ schema ∈ schemas, member schema)
    (uses : ∀ ids, (rule ids).uses = ids.map (use, ·)) :
    Ends (do return some (rule (← list recur schemas place))) w
      (Serves (schemas.map (use, ·))) := by
  refine after_bind (ends_list seats inside) (fun ids w' _ h => after_pure ?_)
  have served := Served.of_forall₂ use h
  rw [← uses] at served
  exact served

theorem serves_schema {use : Use} {rule : ValidatorId → Rule} {schema : Schema}
    (inside : member schema) (uses : ∀ id, (rule id).uses = [(use, id)]) :
    Ends (do return some (rule (← recur schema place))) w (Serves [(use, schema)]) := by
  refine after_bind (seats w schema place inside) (fun id w' _ h => after_pure ?_)
  have served := Served.single use h
  rw [← uses] at served
  exact served

theorem serves_map {use : Use} {rule : List (String × ValidatorId) → Rule}
    {schemas : List (String × Schema)} (inside : ∀ entry ∈ schemas, member entry.2)
    (uses : ∀ ids, (rule ids).uses = (ids.map (·.2)).map (use, ·)) :
    Ends (do return some (rule (← map recur schemas place))) w
      (Serves (schemas.map fun entry => (use, entry.2))) := by
  refine after_bind (ends_map seats inside) (fun ids w' _ h => after_pure ?_)
  have served := Served.of_forall₂ use h
  rw [← uses, List.map_map] at served
  exact served

theorem serves_ref {target : HandleId} {uri : String}
    (inside : ∀ schema, graph.schema? target = some schema → member schema) :
    Ends (do
      let schema ← check (graph.target target)
      return some (.reference (← recur schema uri))) w
      (Serves ((graph.schema? target).toList.map (.target, ·))) := by
  refine after_bind (ends_check _) (fun schema w₁ _ found => ?_)
  have bound : graph.schema? target = some schema := by
    unfold SchemaGraph.target at found
    cases h : graph.schema? target with
    | some schema' =>
      rw [h] at found
      cases found
      rfl
    | none =>
      rw [h] at found
      cases uriOk : graph.handleUri target <;> rw [uriOk] at found <;> cases found
  rw [bound]
  exact serves_schema seats (inside schema bound) (fun _ => rfl)

theorem serves_patterns {schemas : List (String × Schema)}
    (inside : ∀ entry ∈ schemas, member entry.2) :
    Ends (do
      let compiled ← map recur schemas place
      let searches ← compiled.mapM fun (pattern, id) => do return (← searchOf compiler pattern, id)
      return some (.patternProperties searches)) w
      (Serves (schemas.map fun entry => (.inside, entry.2))) := by
  refine after_bind (ends_map seats inside) (fun ids w₁ _ h => ?_)
  have searched : Ends (ids.mapM fun (pattern, id) => do
      return (← searchOf compiler pattern, id)) w₁ fun searches _ =>
      List.Forall₂ (fun entry entry' => entry'.2 = entry.2) ids searches := by
    refine after_mapM (fun _ _ _ _ _ same => same) _ ?_
    rintro ⟨pattern, id⟩ - w₂ -
    exact after_bind (ends_check _) (fun search w₃ _ _ => after_pure rfl)
  refine after_bind searched (fun searches w₂ up same => after_pure ?_)
  have kept : ids.map (·.2) = searches.map (·.2) := by
    rw [← List.forall₂_eq_eq_eq, List.forall₂_map_left_iff, List.forall₂_map_right_iff]
    exact same.imp fun _ _ eq => eq.symm
  rw [kept] at h
  have served := (Served.of_forall₂ .inside h).mono fun _ _ => later up
  rw [List.map_map] at served
  exact served

theorem serves_additional {owner schema : Schema} (inside : member schema) :
    Ends (additionalRule compiler recur owner schema place) w (Serves [(.inside, schema)]) := by
  unfold additionalRule
  split
  · next valid => exact after_pure (.spared (.inl valid) .nil)
  · refine after_bind (seats w schema place inside) (fun id w₁ _ h => ?_)
    have searched : Ends ((namesUnder owner Builtin.patternProperties).mapM (searchOf compiler)) w₁
        fun _ _ => True := by
      refine after_mono (after_mapM (Q := fun _ _ _ => True) (fun _ _ _ _ _ _ => trivial) _ ?_)
        (fun _ _ _ _ => trivial)
      exact fun pattern _ _ _ => after_mono (ends_check _) fun _ _ _ _ => trivial
    exact after_bind searched (fun searches w₂ up _ => after_pure (.single _ (later up h)))

/-- The end of the rule of items, after the schemas that `items` names. -/
theorem serves_surplus {form : ItemsForm} {additional : Option Schema}
    {every : Option ValidatorId} {each : Option (List ValidatorId)} (forbid : Bool)
    (inside : ∀ schema, additional = some schema → member schema)
    (items : List.Forall₂ (StandsFor w) form.schemas (every.toList ++ each.getD [])) :
    Ends (do
      let more ← optional recur (additional.filter (!·.isAlwaysInvalid)) place
      return some (.items every each more forbid place)) w
      (Serves ((form.schemas ++ additional.toList).map (.inside, ·))) := by
  have kept : ∀ s, additional.filter (!·.isAlwaysInvalid) = some s → additional = some s :=
    fun s h => (Option.filter_eq_some_iff.1 h).1
  refine after_bind (ends_optional seats fun s h => inside s (kept s h))
    (fun more w' up h => after_pure ?_)
  have own := Served.of_forall₂ .inside (items.imp fun _ _ found => later up found)
  have extra : Served (StandsFor w') (additional.toList.map (.inside, ·))
      (more.toList.map (.inside, ·)) := by
    cases additional with
    | none => exact .of_forall₂ _ h
    | some schema =>
      cases invalid : schema.isAlwaysInvalid with
      | false =>
        rw [Option.filter_some_pos (by simp [invalid])] at h
        exact .of_forall₂ _ h
      | true =>
        rw [Option.filter_some_neg (by simp [invalid])] at h
        cases more with
        | none => exact .spared (.inr invalid) .nil
        | some id => cases h
  have both := own.append extra
  rw [← List.map_append, ← List.map_append] at both
  exact both

theorem serves_items {form : ItemsForm} {additional : Option Schema}
    (inside : ∀ schema ∈ form.schemas ++ additional.toList, member schema) :
    Ends (itemsRule recur form additional place) w
      (Serves ((form.schemas ++ additional.toList).map (.inside, ·))) := by
  have extra : ∀ schema, additional = some schema → member schema :=
    fun schema h => inside schema (by simp [h])
  unfold itemsRule
  cases form with
  | absent =>
    refine after_bind (Q := fun every _ => every = none) (after_pure rfl) (fun _ w₁ _ hevery => ?_)
    refine after_bind (Q := fun each _ => each = none) (after_pure rfl) (fun _ w₂ _ heach => ?_)
    refine serves_surplus seats _ extra ?_
    rw [hevery, heach]
    exact .nil
  | every schema =>
    have named : Ends (some <$> recur schema place) w fun every w' =>
        List.Forall₂ (StandsFor w') [schema] every.toList :=
      after_map (after_mono (seats w schema place (inside schema (by simp [ItemsForm.schemas])))
        fun id w' _ h => .cons h .nil)
    refine after_bind named (fun every w₁ _ h => ?_)
    refine after_bind (Q := fun each _ => each = none) (after_pure rfl) (fun _ w₂ up heach => ?_)
    refine serves_surplus seats _ extra ?_
    rw [heach, Option.getD_none, List.append_nil]
    exact h.imp fun _ _ found => later up found
  | each schemas =>
    refine after_bind (Q := fun every _ => every = none) (after_pure rfl) (fun _ w₁ _ hevery => ?_)
    have named : Ends (some <$> list recur schemas place) w₁ fun each w' =>
        List.Forall₂ (StandsFor w') schemas (each.getD []) :=
      after_map (ends_list seats fun schema mem => inside schema (List.mem_append_left _ mem))
    refine after_bind named (fun each w₂ _ h => ?_)
    refine serves_surplus seats _ extra ?_
    rw [hevery]
    exact h

end Families

theorem serves_count {needs : List (Use × Schema)} {key : String} {rule : Int → Rule}
    {value : KeywordValue} (nothing : needs = []) (none : ∀ n, (rule n).uses = []) :
    Ends (countRule key rule value) w (Serves needs) := by
  unfold countRule
  split
  · split
    · exact serves_plain nothing (none _)
    · exact after_throw trivial
  · exact after_throw trivial

theorem serves_multiple (n : Number) :
    Ends (do
      return some (.multipleOf (.number n) (← check (n.fraction.mapError .noFraction)))) w
      (Serves []) :=
  after_bind (ends_check _) fun _ _ _ _ => serves_plain rfl rfl

theorem serves_format (name : String) :
    Ends (pure ((compiler.formats.lookup name).map (.format name))) w (Serves []) := by
  refine serves_plain rfl ?_
  cases compiler.formats.lookup name <;> rfl

/-- The rule of a keyword goes on to places that serve the schemas of the keyword. -/
theorem serves_ruleOf (seats : Seats Ω member recur) {owner : Schema} {assertion : Assertion}
    {value : KeywordValue}
    (inside : ∀ use schema, (use, schema) ∈ Meaning.uses graph assertion value → member schema)
    (place : String) :
    Ends (ruleOf compiler graph recur owner assertion value place) w
      (Serves (Meaning.uses graph assertion value)) := by
  unfold ruleOf
  dsimp only
  split
  -- type, disallow, enum, const
  · exact serves_plain rfl rfl
  · exact serves_plain (by cases value <;> rfl) rfl
  · exact serves_plain rfl rfl
  · exact serves_plain (by cases value <;> rfl) rfl
  iterate 3 exact serves_plain rfl rfl
  -- allOf, extends, anyOf, oneOf, not, $ref
  iterate 3
    exact serves_list seats (fun schema mem => inside .beside schema (List.mem_map_of_mem mem))
      fun _ => rfl
  · exact serves_list seats (fun schema mem => inside .judged schema (List.mem_map_of_mem mem))
      fun _ => rfl
  · exact serves_schema seats (inside .judged _ (List.mem_singleton_self _)) fun _ => rfl
  · next ref uri target =>
    refine serves_ref seats (fun schema bound => inside .target schema ?_)
    simp [Meaning.uses, bound]
  -- format, multipleOf, divisibleBy, minimum, maximum
  · exact serves_format _
  · exact after_bind (ends_check _) fun _ _ _ _ => serves_plain rfl rfl
  · exact serves_multiple _
  · exact serves_multiple _
  · exact serves_plain rfl rfl
  · exact serves_plain (by cases value <;> rfl) rfl
  · exact serves_plain rfl rfl
  · exact serves_plain (by cases value <;> rfl) rfl
  -- lengths, pattern
  iterate 6 exact serves_count (by cases value <;> rfl) fun _ => rfl
  · exact after_bind (ends_check _) fun _ _ _ _ => serves_plain rfl rfl
  -- items, uniqueItems, contains
  · exact serves_items seats fun schema mem => inside .inside schema (List.mem_map_of_mem mem)
  · next flag => exact serves_plain rfl (by cases flag.isTruthy <;> rfl)
  · exact serves_schema seats (inside .inside _ (List.mem_singleton_self _)) fun _ => rfl
  -- members
  · exact serves_map seats
      (fun entry mem => inside .inside entry.2 (List.mem_map.2 ⟨entry, mem, rfl⟩)) fun _ => rfl
  · exact serves_patterns seats
      fun entry mem => inside .inside entry.2 (List.mem_map.2 ⟨entry, mem, rfl⟩)
  · exact serves_additional seats (inside .inside _ (List.mem_singleton_self _))
  · exact serves_plain rfl rfl
  · exact serves_plain (by cases value <;> rfl) rfl
  · exact serves_schema seats (inside .inside _ (List.mem_singleton_self _)) fun _ => rfl
  · exact serves_map seats
      (fun entry mem => inside .beside entry.2 (List.mem_map.2 ⟨entry, mem, rfl⟩)) fun _ => rfl
  -- a value of another kind
  · exact after_throw trivial

end Compile

end JsonSchema
