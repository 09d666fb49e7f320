import JsonSchema.Proofs.Compiled

/-!
# Acceptance

A schema accepts a value if the value meets it, where the verdicts on the schemas in it are those of
acceptance again. Along references this does not end by itself. `AcceptsWithin` goes on for a number
of steps and takes it that the schemas in `active` accept the value when a reference leads to them;
it does not change any more after `need` steps (`acceptsWithin_stable`), and `Accepts` is what it
comes to.

That a schema taken for granted when a reference comes back to it is the same as asking about it once
more is `accepts_active_iff`. It rests on two facts about the schemas that are asked about one value:

* without judged uses, acceptance under `active` is membership in the greatest set of schemas that
  supports itself, given `active` (`accepts_iff_supported`);
* a judged schema that does not lead back to its owner is not concerned with the schemas in `active`
  (`accepts_local`).
-/

namespace JsonSchema

/-! ## Steps -/

/-- The verdicts that a schema relies on, while the schemas in `active` are taken for granted. -/
def Schema.Under (accepts : List Schema → Schema → Json → Prop) (active : List Schema) (use : Use)
    (schema : Schema) (v : Json) : Prop :=
  match use with
  | .beside | .judged => accepts active schema v
  | .target => schema ∈ active ∨ accepts (schema :: active) schema v
  | .inside => accepts [] schema v

/-- Acceptance as far as a number of steps tells. -/
def Schema.AcceptsWithin (compiler : Compiler) (graph : SchemaGraph) (depth : Nat)
    (active : List Schema) (schema : Schema) (v : Json) : Prop :=
  match depth with
  | 0 => schema.isAlwaysInvalid = false
  | depth + 1 =>
    schema.Meets compiler graph (Schema.Under (AcceptsWithin compiler graph depth) active) v

/-- Acceptance, as all but finitely many numbers of steps tell it. -/
def Schema.Accepts (compiler : Compiler) (graph : SchemaGraph) (active : List Schema)
    (schema : Schema) (v : Json) : Prop :=
  ∃ least, ∀ depth, least ≤ depth → schema.AcceptsWithin compiler graph depth active v

namespace Schema

section Constant

variable {compiler : Compiler} {graph : SchemaGraph} {active : List Schema} {schema : Schema}
  {v : Json}

theorem acceptsWithin_of_valid (valid : schema.isAlwaysValid = true) (depth : Nat) :
    schema.AcceptsWithin compiler graph depth active v := by
  cases depth with
  | zero => exact not_invalid_of_valid valid
  | succ depth => exact meets_of_valid valid

theorem not_acceptsWithin_of_invalid (invalid : schema.isAlwaysInvalid = true) (proper : v.IsProper)
    (depth : Nat) : ¬ schema.AcceptsWithin compiler graph depth active v := by
  cases depth with
  | zero =>
    intro valid
    exact absurd (invalid.symm.trans valid) (by decide)
  | succ depth =>
    exact not_meets_of_invalid proper invalid
      (fun inner _ valid => acceptsWithin_of_valid valid depth)

theorem accepts_of_valid (valid : schema.isAlwaysValid = true) :
    schema.Accepts compiler graph active v :=
  ⟨0, fun depth _ => acceptsWithin_of_valid valid depth⟩

theorem not_accepts_of_invalid (invalid : schema.isAlwaysInvalid = true) (proper : v.IsProper) :
    ¬ schema.Accepts compiler graph active v := by
  rintro ⟨least, accepted⟩
  exact not_acceptsWithin_of_invalid invalid proper least (accepted least le_rfl)

end Constant

/-! ## The steps that are needed -/

/-- The size of a schema, where that which accepts everything is smaller than that which negates
it. -/
noncomputable def weight : Schema → Nat
  | .always => 0
  | .never => 1
  | .node _ _ _ keywords => sizeOf keywords

theorem weight_le (schema : Schema) : schema.weight ≤ sizeOf schema := by
  cases schema with
  | always => exact Nat.zero_le _
  | never => simp [weight]
  | node id location draft keywords =>
    simp only [weight, Schema.node.sizeOf_spec]
    omega

/-- A schema in a keyword that is asked about the same value is a part of the keyword value. -/
theorem sizeOf_lt_of_uses {graph : SchemaGraph} {assertion : Assertion} {value : KeywordValue}
    {use : Use} {schema : Schema} (listed : (use, schema) ∈ Meaning.uses graph assertion value)
    (here : use = .beside ∨ use = .judged) : sizeOf schema < sizeOf value := by
  have ofList : ∀ {schemas : List Schema} {use' : Use},
      (use, schema) ∈ schemas.map (use', ·) → sizeOf schema < sizeOf schemas := by
    intro schemas use' mem
    exact List.sizeOf_lt_of_mem (Compile.mem_uses_list mem).2
  unfold Meaning.uses at listed
  split at listed
  -- allOf, extends, anyOf, oneOf
  iterate 4
    next schemas =>
      have smaller := ofList listed
      simp only [KeywordValue.schemaList.sizeOf_spec]
      omega
  -- not
  next inner =>
    cases List.mem_singleton.1 listed
    simp only [KeywordValue.schema.sizeOf_spec]
    omega
  -- $ref
  next =>
    cases (Compile.mem_uses_list listed).1
    rcases here with h | h <;> cases h
  -- items, contains
  next =>
    cases (Compile.mem_uses_list listed).1
    rcases here with h | h <;> cases h
  next =>
    cases List.mem_singleton.1 listed
    rcases here with h | h <;> cases h
  -- properties, patternProperties
  iterate 2
    next =>
      obtain ⟨entry, -, eq⟩ := List.mem_map.1 listed
      cases eq
      rcases here with h | h <;> cases h
  -- additionalProperties, propertyNames
  iterate 2
    next =>
      cases List.mem_singleton.1 listed
      rcases here with h | h <;> cases h
  -- dependencies
  next names schemas =>
    obtain ⟨⟨name, inner⟩, mem, eq⟩ := List.mem_map.1 listed
    cases eq
    have smaller := List.sizeOf_lt_of_mem mem
    simp only [Prod.mk.sizeOf_spec, KeywordValue.dependencies.sizeOf_spec] at smaller ⊢
    omega
  -- the other keywords use no schemas
  cases listed

theorem eq_of_uses_schema {graph : SchemaGraph} {assertion : Assertion} {use : Use}
    {schema inner : Schema} (listed : (use, schema) ∈ Meaning.uses graph assertion (.schema inner)) :
    schema = inner := by
  cases assertion with
  | not | contains | additionalProperties | propertyNames =>
    cases List.mem_singleton.1 listed
    rfl
  | _ => cases listed

theorem weight_lt_of_uses {graph : SchemaGraph} {use : Use} {owner schema : Schema}
    (uses : owner.Uses graph use schema) (here : use = .beside ∨ use = .judged) :
    schema.weight < owner.weight := by
  obtain ⟨keyword, assertion, value, ⟨mem, -⟩, listed⟩ := uses
  have smaller := sizeOf_lt_of_uses listed here
  have bound := schema.weight_le
  cases owner with
  | always => cases mem
  | never =>
    cases List.mem_singleton.1 mem
    rw [eq_of_uses_schema listed]
    exact Nat.zero_lt_one
  | node id location draft keywords =>
    have part : sizeOf (keyword, value) < sizeOf keywords := List.sizeOf_lt_of_mem mem
    simp only [Prod.mk.sizeOf_spec] at part
    exact show schema.weight < sizeOf keywords by omega

section Need

variable (stands : List Schema)

open Classical in
/-- The schemas of a table that are not taken for granted. -/
noncomputable def free (active : List Schema) : Nat :=
  (stands.filter fun schema => schema ∉ active).length

/-- The schemas of a table that are smaller than a schema. -/
noncomputable def rank (schema : Schema) : Nat :=
  (stands.filter fun other => other.weight < schema.weight).length

/-- A number of steps that is enough for a schema of a table: the value gets less deep, or one more
schema is taken for granted, or the schema gets smaller. -/
noncomputable def need (active : List Schema) (schema : Schema) (v : Json) : Nat :=
  (v.depth * (stands.length + 1) + free stands active) * (stands.length + 1) + rank stands schema + 1

variable {stands} {active : List Schema} {schema owner : Schema} {v inner : Json}

theorem free_le (stands active : List Schema) : free stands active ≤ stands.length :=
  List.length_filter_le _ _

theorem rank_le (stands : List Schema) (schema : Schema) : rank stands schema ≤ stands.length :=
  List.length_filter_le _ _

theorem length_filter_lt {α : Type} {p q : α → Bool} {xs : List α} {x : α} (mem : x ∈ xs)
    (weaker : ∀ y, p y = true → q y = true) (fails : p x = false) (holds : q x = true) :
    (xs.filter p).length < (xs.filter q).length := by
  induction xs with
  | nil => cases mem
  | cons y ys ih =>
    have rest : (ys.filter p).length ≤ (ys.filter q).length := by
      simp only [← List.countP_eq_length_filter]
      exact List.countP_mono_left (fun z _ => weaker z)
    rcases List.mem_cons.1 mem with rfl | later
    · rw [List.filter_cons_of_neg (by simp [fails]), List.filter_cons_of_pos holds]
      exact Nat.lt_succ_of_le rest
    · have smaller := ih later
      cases hp : p y with
      | true =>
        rw [List.filter_cons_of_pos hp, List.filter_cons_of_pos (weaker y hp)]
        exact Nat.succ_lt_succ smaller
      | false =>
        rw [List.filter_cons_of_neg (by simp [hp])]
        refine Nat.lt_of_lt_of_le smaller ?_
        exact (List.Sublist.filter q (List.sublist_cons_self y ys)).length_le

theorem need_lt_of_weight (mem : schema ∈ stands) (smaller : schema.weight < owner.weight) :
    need stands active schema v < need stands active owner v := by
  have less : rank stands schema < rank stands owner := by
    refine length_filter_lt mem (fun other below => ?_) (by simp) (by simpa using smaller)
    simp only [decide_eq_true_eq] at below ⊢
    omega
  unfold need
  omega

theorem need_lt_of_free (mem : schema ∈ stands) (fresh : schema ∉ active) :
    need stands (schema :: active) schema v < need stands active owner v := by
  have less : free stands (schema :: active) < free stands active := by
    classical
    refine length_filter_lt mem (fun other apart => ?_) (by simp) (by simpa using fresh)
    simp only [List.mem_cons, not_or, decide_eq_true_eq] at apart ⊢
    exact apart.2
  have step : (v.depth * (stands.length + 1) + free stands (schema :: active) + 1) *
      (stands.length + 1) ≤
      (v.depth * (stands.length + 1) + free stands active) * (stands.length + 1) :=
    Nat.mul_le_mul_right _ (by omega)
  have bound := rank_le stands schema
  unfold need
  rw [Nat.succ_mul] at step
  omega

theorem need_lt_of_depth (less : inner.depth < v.depth) :
    need stands [] schema inner < need stands active owner v := by
  have room := free_le stands []
  have step : (inner.depth * (stands.length + 1) + free stands [] + 1) * (stands.length + 1) ≤
      (v.depth * (stands.length + 1) + free stands active) * (stands.length + 1) := by
    refine Nat.mul_le_mul_right _ ?_
    have outer : (inner.depth + 1) * (stands.length + 1) ≤ v.depth * (stands.length + 1) :=
      Nat.mul_le_mul_right _ less
    rw [Nat.succ_mul] at outer
    omega
  have bound := rank_le stands schema
  unfold need
  rw [Nat.succ_mul] at step
  omega

theorem need_le : need stands [] schema v ≤ (v.depth + 1) * (stands.length + 1) *
    (stands.length + 1) := by
  have room := free_le stands []
  have bound := rank_le stands schema
  have step : (v.depth * (stands.length + 1) + free stands [] + 1) * (stands.length + 1) ≤
      (v.depth + 1) * (stands.length + 1) * (stands.length + 1) := by
    refine Nat.mul_le_mul_right _ ?_
    rw [Nat.succ_mul]
    omega
  unfold need
  rw [Nat.succ_mul] at step
  omega

end Need

/-! ## The end of the steps -/

/-- The schemas of a table are closed under use, as far as they have to be compiled. -/
def AreClosed (graph : SchemaGraph) (stands : List Schema) : Prop :=
  ∀ owner ∈ stands, owner.isAlwaysInvalid = false → ∀ use schema, owner.Uses graph use schema →
    Placed stands use schema

section Stable

variable {compiler : Compiler} {graph : SchemaGraph} {stands : List Schema} {active : List Schema}
  {schema : Schema} {v : Json}

theorem AreClosed.mem (closed : AreClosed graph stands) {owner : Schema} (mem : owner ∈ stands)
    (valid : owner.isAlwaysInvalid = false) {use : Use} (used : owner.Uses graph use schema)
    (here : use ≠ .inside) : schema ∈ stands := by
  rcases closed owner mem valid use schema used with found | ⟨inside, -⟩
  · exact found
  · exact absurd inside here

/-- What a schema relies on takes fewer steps than the schema. -/
theorem need_lt_of_uses (mem : schema ∈ stands) {owner : Schema} {use : Use}
    (used : owner.Uses graph use schema) (here : use = .beside ∨ use = .judged) :
    need stands active schema v < need stands active owner v :=
  need_lt_of_weight mem (weight_lt_of_uses used here)

/-- Verdicts that agree on what needs fewer steps agree on what a schema relies on. -/
theorem under_iff (closed : AreClosed graph stands) {owner : Schema} (mem : owner ∈ stands)
    (valid : owner.isAlwaysInvalid = false) (proper : v.IsProper)
    {accepts accepts' : List Schema → Schema → Json → Prop}
    (agree : ∀ active' schema' v', schema' ∈ stands → v'.IsProper →
      need stands active' schema' v' < need stands active owner v →
      (accepts active' schema' v' ↔ accepts' active' schema' v'))
    (trivially : ∀ schema' v', v'.IsProper →
      schema'.isAlwaysValid = true ∨ schema'.isAlwaysInvalid = true →
      (accepts [] schema' v' ↔ accepts' [] schema' v')) :
    owner.Meets compiler graph (Under accepts active) v ↔
      owner.Meets compiler graph (Under accepts' active) v := by
  refine Meets.congr proper (fun use schema used here => ?_) (fun schema inner used proper' within => ?_)
  · have listed := closed.mem mem valid used here
    cases use with
    | beside => exact agree active schema v listed proper (need_lt_of_uses listed used (.inl rfl))
    | judged => exact agree active schema v listed proper (need_lt_of_uses listed used (.inr rfl))
    | target =>
      by_cases known : schema ∈ active
      · exact iff_of_true (.inl known) (.inl known)
      · exact or_congr_right (agree (schema :: active) schema v listed proper
          (need_lt_of_free listed known))
    | inside => exact absurd rfl here
  · rcases closed owner mem valid .inside schema used with listed | ⟨-, constant⟩
    · exact agree [] schema inner listed proper' (need_lt_of_depth within.depth_lt)
    · exact trivially schema inner proper' constant

theorem acceptsWithin_constant {depth depth' : Nat} (proper : v.IsProper)
    (constant : schema.isAlwaysValid = true ∨ schema.isAlwaysInvalid = true) :
    schema.AcceptsWithin compiler graph depth active v ↔
      schema.AcceptsWithin compiler graph depth' active v := by
  rcases constant with valid | invalid
  · exact iff_of_true (acceptsWithin_of_valid valid depth) (acceptsWithin_of_valid valid depth')
  · exact iff_of_false (not_acceptsWithin_of_invalid invalid proper depth)
      (not_acceptsWithin_of_invalid invalid proper depth')

/-- More steps than a schema needs do not change what it accepts. -/
theorem acceptsWithin_stable (closed : AreClosed graph stands) (depth depth' : Nat)
    (mem : schema ∈ stands) (proper : v.IsProper) (enough : need stands active schema v ≤ depth)
    (enough' : need stands active schema v ≤ depth') :
    schema.AcceptsWithin compiler graph depth active v ↔
      schema.AcceptsWithin compiler graph depth' active v := by
  induction depth generalizing depth' active schema v with
  | zero => exact absurd enough (by unfold need; omega)
  | succ depth ih =>
    cases depth' with
    | zero => exact absurd enough' (by unfold need; omega)
    | succ depth' =>
      cases invalid : schema.isAlwaysInvalid with
      | true => exact acceptsWithin_constant proper (.inr invalid)
      | false =>
        refine under_iff closed mem invalid proper (fun active' schema' v' mem' proper' less => ?_)
          (fun schema' v' proper' constant => acceptsWithin_constant proper' constant)
        exact ih depth' mem' proper' (by omega) (by omega)

theorem accepts_iff_acceptsWithin (closed : AreClosed graph stands) (mem : schema ∈ stands)
    (proper : v.IsProper) {depth : Nat} (enough : need stands active schema v ≤ depth) :
    schema.Accepts compiler graph active v ↔ schema.AcceptsWithin compiler graph depth active v := by
  constructor
  · rintro ⟨least, accepted⟩
    have later := accepted (max least depth) (Nat.le_max_left _ _)
    exact (acceptsWithin_stable closed _ _ mem proper enough
      (Nat.le_trans enough (Nat.le_max_right _ _))).2 later
  · intro accepted
    refine ⟨depth, fun depth' more => ?_⟩
    exact (acceptsWithin_stable closed _ _ mem proper enough (Nat.le_trans enough more)).1 accepted

/-- Acceptance is what the keywords demand, over acceptance of the schemas in them. -/
theorem accepts_iff_meets_under (closed : AreClosed graph stands) (mem : schema ∈ stands)
    (proper : v.IsProper) : schema.Accepts compiler graph active v ↔
      schema.Meets compiler graph (Under (fun active' schema' => schema'.Accepts compiler graph active')
        active) v := by
  cases invalid : schema.isAlwaysInvalid with
  | true =>
    exact iff_of_false (not_accepts_of_invalid invalid proper)
      (not_meets_of_invalid proper invalid (fun inner _ valid => accepts_of_valid valid))
  | false =>
    rw [accepts_iff_acceptsWithin closed mem proper (Nat.le_succ (need stands active schema v))]
    refine under_iff closed mem invalid proper (fun active' schema' v' mem' proper' less => ?_)
      (fun schema' v' proper' constant => ?_)
    · exact (accepts_iff_acceptsWithin closed mem' proper' (Nat.le_of_lt less)).symm
    · rcases constant with valid | invalid'
      · exact iff_of_true (acceptsWithin_of_valid valid _) (accepts_of_valid valid)
      · exact iff_of_false (not_acceptsWithin_of_invalid invalid' proper' _)
          (not_accepts_of_invalid invalid' proper')

end Stable

/-! ## Locality -/

section Local

variable {compiler : Compiler} {graph : SchemaGraph} {active active' : List Schema}
  {schema : Schema} {v : Json}

theorem stays_of_uses {owner other : Schema} {use : Use} (used : owner.Uses graph use schema)
    (here : use ≠ .inside) (stays : schema.Stays graph other) : owner.Stays graph other :=
  .head ⟨use, here, used⟩ stays

theorem stays_tail {owner other : Schema} {use : Use} (stays : other.Stays graph owner)
    (used : owner.Uses graph use schema) (here : use ≠ .inside) : other.Stays graph schema :=
  .tail stays ⟨use, here, used⟩

/-- Only the schemas that a schema leads to at the same value matter among those that are taken for
granted. -/
theorem acceptsWithin_local (depth : Nat) (proper : v.IsProper)
    (agree : ∀ other, schema.Stays graph other → (other ∈ active ↔ other ∈ active')) :
    schema.AcceptsWithin compiler graph depth active v ↔
      schema.AcceptsWithin compiler graph depth active' v := by
  induction depth generalizing active active' schema with
  | zero => exact Iff.rfl
  | succ depth ih =>
    refine Meets.congr proper (fun use inner used here => ?_) (fun _ _ _ _ _ => Iff.rfl)
    have rest : ∀ other, inner.Stays graph other → (other ∈ active ↔ other ∈ active') :=
      fun other stays => agree other (stays_of_uses used here stays)
    cases use with
    | beside | judged => exact ih rest
    | target =>
      refine or_congr (rest inner .refl) (ih (fun other stays => ?_))
      rw [List.mem_cons, List.mem_cons, rest other stays]
    | inside => exact absurd rfl here

theorem accepts_local (proper : v.IsProper)
    (agree : ∀ other, schema.Stays graph other → (other ∈ active ↔ other ∈ active')) :
    schema.Accepts compiler graph active v ↔ schema.Accepts compiler graph active' v :=
  exists_congr fun _ => forall_congr' fun depth => imp_congr_right fun _ =>
    acceptsWithin_local depth proper agree

end Local

/-! ## Support -/

section Support

variable (compiler : Compiler) (graph : SchemaGraph)

/-- The verdicts that a set of schemas gives at one value, while those in `active` are taken for
granted. Judged schemas and those at other values have the verdict of acceptance. -/
def Relying (active : List Schema) (among : Schema → Prop) (use : Use) (schema : Schema) (v : Json) :
    Prop :=
  match use with
  | .beside => among schema
  | .target => schema ∈ active ∨ among schema
  | .judged | .inside => schema.Accepts compiler graph [] v

/-- A set of schemas in which each is met by a value, relying on the others. -/
def IsSupport (active : List Schema) (v : Json) (among : Schema → Prop) : Prop :=
  ∀ schema, among schema → schema.Meets compiler graph (Relying compiler graph active among) v

/-- A schema in some set that supports itself. -/
def Supported (active : List Schema) (v : Json) (schema : Schema) : Prop :=
  ∃ among, IsSupport compiler graph active v among ∧ among schema

variable {compiler graph} {active active' : List Schema} {among among' : Schema → Prop}
  {schema : Schema} {v : Json}

theorem relying_mono (proper : v.IsProper)
    (more : ∀ other, other ∈ active → other ∈ active' ∨ among' other)
    (most : ∀ other, among other → among' other)
    (met : schema.Meets compiler graph (Relying compiler graph active among) v) :
    schema.Meets compiler graph (Relying compiler graph active' among') v := by
  refine met.mono proper ?_ ?_ ?_
  · intro use inner used here accepted
    cases use with
    | beside => exact most inner accepted
    | judged => exact accepted
    | target =>
      rcases accepted with listed | accepted
      · exact more inner listed
      · exact .inr (most inner accepted)
    | inside => exact absurd rfl here
  · exact fun inner used accepted => accepted
  · exact fun inner value used proper' within accepted => accepted

theorem supported_iff_meets (proper : v.IsProper) : Supported compiler graph active v schema ↔
    schema.Meets compiler graph
      (Relying compiler graph active (Supported compiler graph active v)) v := by
  have below : ∀ {other}, Supported compiler graph active v other → other.Meets compiler graph
      (Relying compiler graph active (Supported compiler graph active v)) v := by
    rintro other ⟨among, support, mem⟩
    exact relying_mono proper (fun _ => .inl) (fun third mem' => ⟨among, support, mem'⟩)
      (support other mem)
  refine ⟨below, fun met => ?_⟩
  refine ⟨fun other => other = schema ∨ Supported compiler graph active v other, ?_, .inl rfl⟩
  rintro other (rfl | supported)
  · exact relying_mono proper (fun _ => .inl) (fun _ => .inr) met
  · exact relying_mono proper (fun _ => .inl) (fun _ => .inr) (below supported)

/-- A schema that is supported when it is taken for granted is supported without this: it is in the
set that supports it. -/
theorem supported_cons (proper : v.IsProper) : Supported compiler graph (schema :: active) v schema ↔
    Supported compiler graph active v schema := by
  constructor
  · rintro ⟨among, support, mem⟩
    refine ⟨among, fun other mem' => ?_, mem⟩
    refine relying_mono proper (fun third listed => ?_) (fun _ => id) (support other mem')
    rcases List.mem_cons.1 listed with rfl | old
    · exact .inr mem
    · exact .inl old
  · rintro ⟨among, support, mem⟩
    refine ⟨among, fun other mem' => ?_, mem⟩
    exact relying_mono proper (fun third listed => .inl (List.mem_cons_of_mem _ listed)) (fun _ => id)
      (support other mem')

variable {stands : List Schema}

/-- No schema is judged by one that it leads back to at the same value. -/
def AreStratified (graph : SchemaGraph) (stands : List Schema) : Prop :=
  ∀ owner ∈ stands, ∀ schema, owner.Uses graph .judged schema → ¬ schema.Stays graph owner

/-- Acceptance is support, if the schemas that are taken for granted lead to the schema. -/
theorem accepts_iff_supported (closed : AreClosed graph stands)
    (stratified : AreStratified graph stands) (mem : schema ∈ stands) (proper : v.IsProper)
    (above : ∀ other ∈ active, other.Stays graph schema) :
    schema.Accepts compiler graph active v ↔ Supported compiler graph active v schema := by
  induction steps : need stands active schema v using Nat.strong_induction_on
    generalizing active schema with
  | _ steps ih =>
    subst steps
    rw [supported_iff_meets proper]
    cases invalid : schema.isAlwaysInvalid with
    | true =>
      exact iff_of_false (not_accepts_of_invalid invalid proper)
        (not_meets_of_invalid proper invalid (fun inner _ valid => accepts_of_valid valid))
    | false =>
      rw [accepts_iff_meets_under closed mem proper]
      refine Meets.congr proper (fun use inner used here => ?_) (fun _ _ _ _ _ => Iff.rfl)
      have listed := closed.mem mem invalid used here
      have above' : ∀ other ∈ active, other.Stays graph inner :=
        fun other mem' => stays_tail (above other mem') used here
      cases use with
      | beside => exact ih _ (need_lt_of_uses listed used (.inl rfl)) listed above' rfl
      | judged =>
        refine accepts_local proper (fun other stays => ?_)
        refine iff_of_false (fun mem' => ?_) List.not_mem_nil
        exact stratified schema mem inner used (stays.trans (above other mem'))
      | target =>
        by_cases known : inner ∈ active
        · exact iff_of_true (.inl known) (.inl known)
        · refine or_congr_right ?_
          rw [← supported_cons proper]
          refine ih _ (need_lt_of_free listed known) listed (fun other mem' => ?_) rfl
          rcases List.mem_cons.1 mem' with rfl | old
          · exact .refl
          · exact above' other old
      | inside => exact absurd rfl here

/-- A schema that is taken for granted when a reference comes back to it accepts the same. -/
theorem accepts_active_iff (closed : AreClosed graph stands)
    (stratified : AreStratified graph stands) (mem : schema ∈ stands) (proper : v.IsProper) :
    schema.Accepts compiler graph [schema] v ↔ schema.Accepts compiler graph [] v := by
  have above : ∀ other ∈ [schema], other.Stays graph schema := by
    intro other mem'
    rw [List.mem_singleton.1 mem']
    exact .refl
  have none : ∀ other ∈ ([] : List Schema), other.Stays graph schema :=
    fun other absent => absurd absent List.not_mem_nil
  rw [accepts_iff_supported closed stratified mem proper above, supported_cons proper,
    accepts_iff_supported closed stratified mem proper none]

/-- Acceptance solves the equations of the keywords. -/
theorem accepts_iff_meets (closed : AreClosed graph stands)
    (stratified : AreStratified graph stands) (mem : schema ∈ stands) (proper : v.IsProper) :
    schema.Accepts compiler graph [] v ↔
      schema.Meets compiler graph (fun _ => Accepts compiler graph []) v := by
  cases invalid : schema.isAlwaysInvalid with
  | true =>
    exact iff_of_false (not_accepts_of_invalid invalid proper)
      (not_meets_of_invalid proper invalid (fun inner _ valid => accepts_of_valid valid))
  | false =>
    rw [accepts_iff_meets_under closed mem proper]
    refine Meets.congr proper (fun use inner used here => ?_) (fun _ _ _ _ _ => Iff.rfl)
    have listed := closed.mem mem invalid used here
    cases use with
    | beside | judged => exact Iff.rfl
    | target =>
      refine Iff.trans (or_iff_right List.not_mem_nil) ?_
      exact accepts_active_iff closed stratified listed proper
    | inside => exact absurd rfl here

/-- Acceptance is above every solution, if no schema is judged but by one that accepts nothing. -/
theorem accepts_of_solution {member : Schema → Prop} (orderly : Orderly graph member)
    (members : ∀ other ∈ stands, member other) (closed : AreClosed graph stands)
    (stratified : AreStratified graph stands)
    (positive : ∀ owner, member owner → ∀ inner, owner.Uses graph .judged inner →
      owner.isAlwaysInvalid = true)
    {solution : Schema → Json → Prop}
    (solves : ∀ other v, member other → v.IsProper → v.IsComparable member →
      (solution other v ↔ other.Meets compiler graph (fun _ => solution) v))
    (mem : schema ∈ stands) (proper : v.IsProper) (comparable : v.IsComparable member)
    (solved : solution schema v) :
    schema.Accepts compiler graph [] v := by
  have rejects : ∀ other v, member other → v.IsProper → v.IsComparable member →
      other.isAlwaysInvalid = true → ¬ solution other v := by
    intro other v owned proper comparable invalid
    rw [solves other v owned proper comparable]
    refine not_meets_of_invalid proper invalid (fun inner used valid => ?_)
    exact (solves inner v (orderly.closed other owned .judged inner used) proper comparable).2
      (meets_of_valid valid)
  induction depth : v.depth using Nat.strong_induction_on generalizing schema v with
  | _ depth ih =>
    subst depth
    have support : IsSupport compiler graph [] v
        (fun other => other ∈ stands ∧ solution other v) := by
      rintro owner ⟨listed, holds⟩
      have owned := members owner listed
      have valid : owner.isAlwaysInvalid = false := by
        rw [← Bool.not_eq_true]
        exact fun invalid => rejects owner v owned proper comparable invalid holds
      have unjudged : ∀ {inner}, ¬ owner.Uses graph .judged inner := by
        intro inner used
        rw [positive owner owned inner used] at valid
        cases valid
      refine ((solves owner v owned proper comparable).1 holds).mono proper ?_ ?_ ?_
      · intro use inner used here accepted
        have found := closed.mem listed valid used here
        cases use with
        | beside => exact ⟨found, accepted⟩
        | judged => exact absurd used unjudged
        | target => exact .inr ⟨found, accepted⟩
        | inside => exact absurd rfl here
      · exact fun inner used => absurd used unjudged
      · intro inner value used proper' within accepted
        have owned' := orderly.closed owner owned .inside inner used
        rcases closed owner listed valid .inside inner used with found | ⟨-, always | never⟩
        · exact ih value.depth within.depth_lt found proper' (comparable.inside within) accepted rfl
        · exact accepts_of_valid always
        · exact absurd accepted (rejects inner value owned' proper' (comparable.inside within) never)
    have none : ∀ other ∈ ([] : List Schema), other.Stays graph schema :=
      fun other absent => absurd absent List.not_mem_nil
    rw [accepts_iff_supported closed stratified mem proper none]
    exact ⟨_, support, mem, solved⟩

end Support

end Schema

end JsonSchema
