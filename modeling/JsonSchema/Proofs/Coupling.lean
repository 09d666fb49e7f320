import JsonSchema.Proofs.Acceptance
import JsonSchema.Proofs.Alike

/-!
# Coupled graphs

Schemas of two graphs are coupled if following their references comes to alike schemas, or further
on both sides to coupled ones (`Couples`). It has to be further on both sides: a reference that only
comes back to itself is coupled to nothing but such references. Coupled schemas accept the same
values (`AreCoupled.accepts_iff`).

The proof is the one for greatest sets that support themselves: what references come to from a schema
that is coupled to a supported one is such a set (`supported_of_couples`). Judged schemas and those
at other values have their verdicts already, by induction on the depth of the value and on the
number of schemas that a schema leads to at one value (`Schema.height`).
-/

namespace JsonSchema

/-! ## Following references -/

namespace Schema

/-- A schema is nothing but a reference, which is bound to another schema. -/
def PointsTo (graph : SchemaGraph) (schema target : Schema) : Prop :=
  ∃ id location draft ref uri handle,
    schema = .node id location draft [(Builtin.ref, .reference ref uri handle)] ∧
      graph.schema? handle = some target

/-- Following references from a schema comes to an end. -/
inductive EndsIn (graph : SchemaGraph) : Schema → Schema → Prop
  | here {schema : Schema} (none : ∀ target, ¬ schema.PointsTo graph target) :
    EndsIn graph schema schema
  | next {schema target last : Schema} (step : schema.PointsTo graph target)
    (rest : EndsIn graph target last) : EndsIn graph schema last

variable {compiler : Compiler} {graph : SchemaGraph} {accepts : Use → Schema → Json → Prop}
  {schema target other last : Schema} {v : Json}

theorem PointsTo.asserts (points : schema.PointsTo graph target) :
    ∃ ref uri handle, graph.schema? handle = some target ∧
      schema.keywords = [(Builtin.ref, .reference ref uri handle)] := by
  obtain ⟨_, _, _, ref, uri, handle, rfl, bound⟩ := points
  exact ⟨ref, uri, handle, bound, rfl⟩

theorem PointsTo.unique (points : schema.PointsTo graph target)
    (points' : schema.PointsTo graph other) : target = other := by
  obtain ⟨_, _, _, bound, same⟩ := points.asserts
  obtain ⟨_, _, _, bound', same'⟩ := points'.asserts
  rw [same] at same'
  cases same'
  rw [bound] at bound'
  exact Option.some.inj bound'

theorem PointsTo.uses (points : schema.PointsTo graph target) :
    schema.Uses graph .target target := by
  obtain ⟨ref, uri, handle, bound, same⟩ := points.asserts
  refine ⟨Builtin.ref, .ref, .reference ref uri handle, ⟨?_, by decide⟩, ?_⟩
  · rw [same]
    exact List.mem_singleton_self _
  · simp [Meaning.uses, bound]

/-- A value meets a reference if what the reference is bound to accepts it. -/
theorem meets_pointing (proper : v.IsProper) (points : schema.PointsTo graph target) :
    schema.Meets compiler graph accepts v ↔ accepts .target target v := by
  obtain ⟨ref, uri, handle, bound, same⟩ := points.asserts
  have known : Assertion.ofKey? Builtin.ref.key = some .ref := by decide
  constructor
  · intro met
    obtain ⟨type, typed⟩ := proper.type
    have applies : Builtin.ref.appliesToType type = true := by
      cases type <;> rfl
    have asserts : schema.Asserts Builtin.ref .ref (.reference ref uri handle) :=
      ⟨by rw [same]; exact List.mem_singleton_self _, known⟩
    obtain ⟨other, bound', accepted⟩ := met _ _ _ asserts type typed applies
    rw [bound] at bound'
    cases bound'
    exact accepted
  · rintro accepted keyword assertion value ⟨mem, key⟩ type typed applies
    rw [same] at mem
    cases List.mem_singleton.1 mem
    rw [known] at key
    cases key
    exact ⟨target, bound, accepted⟩

/-- An alike schema is no reference. -/
theorem Alike.stops {rel : Schema → Schema → Prop} (alike : other.Alike rel schema) :
    ∀ target, ¬ schema.PointsTo graph target := by
  intro target points
  obtain ⟨ref, uri, handle, _, same⟩ := points.asserts
  obtain ⟨value, _, nothing⟩ := alike.back Builtin.ref (.reference ref uri handle) (by
    rw [same]
    exact List.mem_singleton_self _)
  cases value <;> exact nothing

theorem endsIn_of (chain : Relation.ReflTransGen (PointsTo graph) schema last)
    (stops : ∀ target, ¬ last.PointsTo graph target) : EndsIn graph schema last := by
  induction chain using Relation.ReflTransGen.head_induction_on with
  | refl => exact .here stops
  | head step _ ih => exact .next step ih

/-- The end is the same from everything on the way. -/
theorem EndsIn.from (ends : EndsIn graph schema last)
    (chain : Relation.ReflTransGen (PointsTo graph) schema other) : EndsIn graph other last := by
  induction chain using Relation.ReflTransGen.head_induction_on with
  | refl => exact ends
  | head step _ ih =>
    cases ends with
    | here none => exact absurd step (none _)
    | next step' rest =>
      cases step.unique step'
      exact ih rest

theorem EndsIn.eq_of_stops (ends : EndsIn graph schema last)
    (stops : ∀ target, ¬ schema.PointsTo graph target) : schema = last := by
  cases ends with
  | here _ => rfl
  | next step _ => exact absurd step (stops _)

end Schema

open Schema

/-- Following the references of related schemas comes to the same, or further on both sides to
related ones. -/
def Couples (graph graph' : SchemaGraph) (rel same : Schema → Schema → Prop) : Prop :=
  ∀ schema schema', rel schema schema' →
    (∃ last last', Relation.ReflTransGen (PointsTo graph) schema last ∧
      Relation.ReflTransGen (PointsTo graph') schema' last' ∧ same last last') ∨
    ∃ next next', Relation.TransGen (PointsTo graph) schema next ∧
      Relation.TransGen (PointsTo graph') schema' next' ∧ rel next next'

section Support

variable {compiler : Compiler} {graph graph' : SchemaGraph} {rel same : Schema → Schema → Prop}
  {schema schema' last' : Schema} {v : Json}

/-- If one side comes to an end, so does the other one, and both to the same. -/
theorem Couples.exists_same (couples : Couples graph graph' rel same)
    (stops : ∀ last last', same last last' → ∀ target, ¬ last'.PointsTo graph' target)
    (ends : EndsIn graph' schema' last') : ∀ {schema middle'},
      Relation.ReflTransGen (PointsTo graph') schema' middle' → rel schema middle' →
      ∃ last, Relation.ReflTransGen (PointsTo graph) schema last ∧ same last last' := by
  have here : ∀ {schema middle' last₁'}, EndsIn graph' middle' last' →
      Relation.ReflTransGen (PointsTo graph') middle' last₁' →
      (∃ last, Relation.ReflTransGen (PointsTo graph) schema last ∧ same last last₁') →
      ∃ last, Relation.ReflTransGen (PointsTo graph) schema last ∧ same last last' := by
    rintro schema middle' last₁' ends chain ⟨last, way, alike⟩
    cases (ends.from chain).eq_of_stops (stops _ _ alike)
    exact ⟨last, way, alike⟩
  induction ends with
  | @here schema' none =>
    intro schema middle' chain related
    rcases chain.cases_head with rfl | ⟨_, step, _⟩
    · rcases couples schema _ related with ⟨last, last₁', way, way', alike⟩ | ⟨_, _, _, way', _⟩
      · exact here (.here none) way' ⟨last, way, alike⟩
      · obtain ⟨_, step, _⟩ := Relation.TransGen.head'_iff.1 way'
        exact absurd step (none _)
    · exact absurd step (none _)
  | @next schema' target' last' step rest ih =>
    intro schema middle' chain related
    rcases chain.cases_head with rfl | ⟨_, step', way⟩
    · rcases couples schema _ related with
        ⟨last, last₁', way, way', alike⟩ | ⟨next, next', way, way', related'⟩
      · exact here (.next step rest) way' ⟨last, way, alike⟩
      · obtain ⟨_, step', way'⟩ := Relation.TransGen.head'_iff.1 way'
        cases step.unique step'
        obtain ⟨last, further, alike⟩ := ih here way' related'
        exact ⟨last, way.to_reflTransGen.trans further, alike⟩
    · cases step.unique step'
      exact ih here way related

theorem supported_pointed (proper : v.IsProper) {target : Schema}
    (chain : Relation.ReflTransGen (PointsTo graph) schema target)
    (supported : Supported compiler graph [] v schema) : Supported compiler graph [] v target := by
  induction chain with
  | refl => exact supported
  | tail _ step ih =>
    rcases (meets_pointing proper step).1 ((supported_iff_meets proper).1 ih) with listed | supported
    · cases listed
    · exact supported

/-- A schema that is coupled to a supported one is supported. -/
theorem supported_of_couples (couples : Couples graph graph' rel same)
    (stops : ∀ last last', same last last' → ∀ target, ¬ last'.PointsTo graph' target)
    (proper : v.IsProper)
    (carry : ∀ last last', same last last' → ∀ among among' : Schema → Prop,
      (∀ inner inner', rel inner inner' → among inner → among' inner') →
      last.Meets compiler graph (Relying compiler graph [] among) v →
      last'.Meets compiler graph' (Relying compiler graph' [] among') v)
    (related : rel schema schema') (supported : Supported compiler graph [] v schema) :
    Supported compiler graph' [] v schema' := by
  refine ⟨fun other' => ∃ inner inner', rel inner inner' ∧ Supported compiler graph [] v inner ∧
    Relation.ReflTransGen (PointsTo graph') inner' other', ?_, schema, schema', related, supported,
    .refl⟩
  rintro other' ⟨inner, inner', related, supported, chain⟩
  by_cases more : ∃ target, other'.PointsTo graph' target
  · obtain ⟨target, step⟩ := more
    exact (meets_pointing proper step).2 (.inr ⟨inner, inner', related, supported, chain.tail step⟩)
  · have ends := endsIn_of chain (not_exists.1 more)
    obtain ⟨last, way, alike⟩ := couples.exists_same stops ends .refl related
    refine carry last other' alike (Supported compiler graph [] v) _ ?_
      ((supported_iff_meets proper).1 (supported_pointed proper way supported))
    exact fun inner inner' related supported => ⟨inner, inner', related, supported, .refl⟩

end Support

/-! ## Tables -/

namespace Schema

/-- A schema has a place in a table, or accepts every value or none. -/
def Tabled (stands : List Schema) (schema : Schema) : Prop :=
  schema ∈ stands ∨ schema.isAlwaysValid = true ∨ schema.isAlwaysInvalid = true

section Tables

variable {compiler : Compiler} {graph : SchemaGraph} {stands : List Schema} {owner schema : Schema}
  {use : Use} {v : Json}

theorem not_uses_of_valid (valid : owner.isAlwaysValid = true) : ¬ owner.Uses graph use schema := by
  rintro ⟨keyword, assertion, value, ⟨mem, _⟩, _⟩
  rw [List.isEmpty_iff.1 valid] at mem
  cases mem

/-- A schema that accepts nothing uses one that accepts everything. -/
theorem valid_of_uses (invalid : owner.isAlwaysInvalid = true) (used : owner.Uses graph use schema) :
    schema.isAlwaysValid = true := by
  obtain ⟨keyword, assertion, value, ⟨mem, _⟩, listed⟩ := used
  unfold isAlwaysInvalid at invalid
  split at invalid
  · next negation inner keywords =>
    rw [keywords] at mem
    cases List.mem_singleton.1 mem
    rw [eq_of_uses_schema listed]
    exact (Bool.and_eq_true_iff.1 invalid).2
  · cases invalid

theorem Tabled.uses (closed : AreClosed graph stands) (tabled : Tabled stands owner)
    (used : owner.Uses graph use schema) : Tabled stands schema := by
  cases invalid : owner.isAlwaysInvalid with
  | true => exact .inr (.inl (valid_of_uses invalid used))
  | false =>
    rcases tabled with mem | valid | invalid'
    · exact (closed owner mem invalid use schema used).imp_right And.right
    · exact absurd used (not_uses_of_valid valid)
    · rw [invalid] at invalid'
      cases invalid'

theorem Tabled.stays (closed : AreClosed graph stands) (tabled : Tabled stands owner)
    (stays : owner.Stays graph schema) : Tabled stands schema := by
  induction stays with
  | refl => exact tabled
  | tail _ step ih =>
    obtain ⟨use, _, used⟩ := step
    exact ih.uses closed used

theorem Tabled.accepts_iff_supported (closed : AreClosed graph stands)
    (stratified : AreStratified graph stands) (tabled : Tabled stands schema) (proper : v.IsProper) :
    schema.Accepts compiler graph [] v ↔ Supported compiler graph [] v schema := by
  rcases tabled with mem | valid | invalid
  · exact Schema.accepts_iff_supported closed stratified mem proper
      (fun _ mem => absurd mem List.not_mem_nil)
  · exact iff_of_true (accepts_of_valid valid)
      ((supported_iff_meets proper).2 (meets_of_valid valid))
  · refine iff_of_false (not_accepts_of_invalid invalid proper) (fun supported => ?_)
    exact not_meets_of_invalid proper invalid (fun inner _ valid => accepts_of_valid valid)
      ((supported_iff_meets proper).1 supported)

theorem eq_of_stays_valid (valid : owner.isAlwaysValid = true) (stays : owner.Stays graph schema) :
    schema = owner := by
  rcases stays.cases_head with same | ⟨_, ⟨_, _, used⟩, _⟩
  · exact same.symm
  · exact absurd used (not_uses_of_valid valid)

open Classical in
/-- The number of schemas of a table that a schema leads to at one value. -/
noncomputable def reach (graph : SchemaGraph) (stands : List Schema) (schema : Schema) : Nat :=
  (stands.filter fun other => schema.Stays graph other).length

/-- The reach of a schema, one more if it has keywords. -/
noncomputable def height (graph : SchemaGraph) (stands : List Schema) (schema : Schema) : Nat :=
  reach graph stands schema + if schema.isAlwaysValid then 0 else 1

theorem reach_le_of_stays (stays : owner.Stays graph schema) :
    reach graph stands schema ≤ reach graph stands owner := by
  classical
  unfold reach
  simp only [← List.countP_eq_length_filter]
  refine List.countP_mono_left (fun other _ further => ?_)
  simp only [decide_eq_true_eq] at further ⊢
  exact stays.trans further

theorem height_le_of_stays (stays : owner.Stays graph schema) :
    height graph stands schema ≤ height graph stands owner := by
  have fewer : reach graph stands schema ≤ reach graph stands owner := reach_le_of_stays stays
  unfold height
  cases valid : owner.isAlwaysValid with
  | true =>
    cases eq_of_stays_valid valid stays
    rw [valid]
  | false =>
    rw [if_neg Bool.false_ne_true]
    split <;> omega

/-- A judged schema has less height than its owner, which it does not lead to. -/
theorem height_lt_of_judged (stratified : AreStratified graph stands) (tabled : Tabled stands owner)
    (used : owner.Uses graph .judged schema) :
    height graph stands schema < height graph stands owner := by
  have stays : owner.Stays graph schema := .single ⟨.judged, by decide, used⟩
  have keywords : owner.isAlwaysValid ≠ true := fun valid => not_uses_of_valid valid used
  unfold height
  rw [if_neg keywords]
  rcases tabled with mem | valid | invalid
  · classical
    have less : reach graph stands schema < reach graph stands owner := by
      refine length_filter_lt mem (fun other further => ?_)
        (decide_eq_false (stratified owner mem schema used))
        (decide_eq_true Relation.ReflTransGen.refl)
      simp only [decide_eq_true_eq] at further ⊢
      exact stays.trans further
    split <;> omega
  · exact absurd valid keywords
  · have fewer : reach graph stands schema ≤ reach graph stands owner := reach_le_of_stays stays
    rw [if_pos (valid_of_uses invalid used)]
    omega

end Tables

/-! ## Coupled schemas -/

/-- The demands of two schemas agree, as far as related schemas at the same value that are not judged
are paired. -/
structure Agrees (compiler : Compiler) (graph graph' : SchemaGraph)
    (rel pair : Schema → Schema → Prop) (v : Json) (last last' : Schema) : Prop where
  alike : last.Alike rel last'
  beside : ∀ inner inner', rel inner inner' → last.Uses graph .beside inner →
    last'.Uses graph' .beside inner' → pair inner inner'
  judged : ∀ inner inner', rel inner inner' → last.Uses graph .judged inner →
    last'.Uses graph' .judged inner' →
    (inner.Accepts compiler graph [] v ↔ inner'.Accepts compiler graph' [] v)
  inside : ∀ inner inner' value, rel inner inner' → last.Uses graph .inside inner →
    last'.Uses graph' .inside inner' → value.IsProper → value.depth < v.depth →
    (inner.Accepts compiler graph [] value ↔ inner'.Accepts compiler graph' [] value)
  flags : ∀ inner inner', rel inner inner' → (inner.IsFlagged ↔ inner'.IsFlagged)

section Coupled

variable {compiler : Compiler} {graph graph' : SchemaGraph} {rel pair : Schema → Schema → Prop}
  {schema schema' last last' : Schema} {v : Json}

theorem Agrees.flip (agrees : Agrees compiler graph graph' rel pair v last last') :
    Agrees compiler graph' graph (flip rel) (flip pair) v last' last where
  alike := agrees.alike.flip
  beside inner' inner related used' used := agrees.beside inner inner' related used used'
  judged inner' inner related used' used := (agrees.judged inner inner' related used used').symm
  inside inner' inner value related used' used proper deep :=
    (agrees.inside inner inner' value related used used' proper deep).symm
  flags inner' inner related := (agrees.flags inner inner' related).symm

theorem Agrees.carry (agrees : Agrees compiler graph graph' rel pair v last last')
    (proper : v.IsProper) {among among' : Schema → Prop}
    (more : ∀ inner inner', pair inner inner' → among inner → among' inner')
    (met : last.Meets compiler graph (Relying compiler graph [] among) v) :
    last'.Meets compiler graph' (Relying compiler graph' [] among') v := by
  refine met.alike proper agrees.alike ?_
  exact {
    beside := fun inner inner' related used used' =>
      more inner inner' (agrees.beside inner inner' related used used')
    judged := agrees.judged
    inside := fun inner inner' value related used used' proper deep =>
      (agrees.inside inner inner' value related used used' proper deep).1
    flags := fun inner inner' related _ _ => (agrees.flags inner inner' related).2 }

theorem couples_flip {same : Schema → Schema → Prop} (couples : Couples graph graph' rel same) :
    Couples graph' graph (flip rel) (flip same) := by
  intro schema' schema related
  rcases couples schema schema' related with ⟨last, last', way, way', alike⟩ |
    ⟨next, next', way, way', further⟩
  · exact .inl ⟨last', last, way', way, alike⟩
  · exact .inr ⟨next', next, way', way, further⟩

/-- Schemas whose demands agree are supported together. -/
theorem supported_iff_of_couples (proper : v.IsProper)
    (couples : Couples graph graph' pair (Agrees compiler graph graph' rel pair v))
    (related : pair schema schema') :
    Supported compiler graph [] v schema ↔ Supported compiler graph' [] v schema' := by
  constructor
  · exact supported_of_couples couples (fun last last' agrees => agrees.alike.stops) proper
      (fun last last' agrees among among' more met => agrees.carry proper more met) related
  · exact supported_of_couples (couples_flip couples)
      (fun last' last agrees => agrees.alike.flip.stops) proper
      (fun last' last agrees among' among more met => agrees.flip.carry proper more met) related

/-- Following references from related schemas comes to alike schemas or further to related ones, and
related schemas are flagged together. -/
structure AreCoupled (graph graph' : SchemaGraph) (rel : Schema → Schema → Prop) : Prop where
  couples : Couples graph graph' rel (Alike rel)
  flags : ∀ schema schema', rel schema schema' → (schema.IsFlagged ↔ schema'.IsFlagged)

theorem stays_of_points (chain : Relation.ReflTransGen (PointsTo graph) schema last) :
    schema.Stays graph last :=
  Relation.ReflTransGen.mono (fun _ _ step => ⟨.target, by decide, step.uses⟩) _ _ chain

/-- Coupled schemas accept the same values. -/
theorem AreCoupled.accepts_iff (coupled : AreCoupled graph graph' rel) {stands stands' : List Schema}
    (closed : AreClosed graph stands) (closed' : AreClosed graph' stands')
    (stratified : AreStratified graph stands) (stratified' : AreStratified graph' stands')
    (proper : v.IsProper) (related : rel schema schema') (tabled : Tabled stands schema)
    (tabled' : Tabled stands' schema') :
    schema.Accepts compiler graph [] v ↔ schema'.Accepts compiler graph' [] v := by
  induction deep : v.depth using Nat.strong_induction_on generalizing schema schema' v with
  | _ depth below =>
  subst deep
  induction high : height graph stands schema using Nat.strong_induction_on
    generalizing schema schema' with
  | _ high lower =>
  subst high
  rw [tabled.accepts_iff_supported closed stratified proper,
    tabled'.accepts_iff_supported closed' stratified' proper]
  -- the pairs that the two schemas lead to at this value
  let pair : Schema → Schema → Prop := fun inner inner' =>
    rel inner inner' ∧ schema.Stays graph inner ∧ schema'.Stays graph' inner'
  suffices couples : Couples graph graph' pair (Agrees compiler graph graph' rel pair v) by
    exact supported_iff_of_couples proper couples ⟨related, .refl, .refl⟩
  rintro inner inner' ⟨related, stays, stays'⟩
  rcases coupled.couples inner inner' related with ⟨last, last', way, way', alike⟩ |
    ⟨next, next', way, way', further⟩
  · have above := stays.trans (stays_of_points way)
    have above' := stays'.trans (stays_of_points way')
    have owner := tabled.stays closed above
    have owner' := tabled'.stays closed' above'
    refine .inl ⟨last, last', way, way', alike, ?_, ?_, ?_, coupled.flags⟩
    · exact fun other other' related used used' => ⟨related,
        above.tail ⟨.beside, by decide, used⟩, above'.tail ⟨.beside, by decide, used'⟩⟩
    · intro other other' related used used'
      have less := height_lt_of_judged stratified owner used
      exact lower _ (lt_of_lt_of_le less (height_le_of_stays above)) related
        (owner.uses closed used) (owner'.uses closed' used') rfl
    · exact fun other other' value related used used' proper less => below value.depth less proper
        related (owner.uses closed used) (owner'.uses closed' used') rfl
  · exact .inr ⟨next, next', way, way', further,
      stays.trans (stays_of_points way.to_reflTransGen),
      stays'.trans (stays_of_points way'.to_reflTransGen)⟩

end Coupled

end Schema

end JsonSchema
