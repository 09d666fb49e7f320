import JsonSchema.Proofs.Acceptance

/-!
# Evaluation

Evaluating a compiled schema settles whether the schema accepts the value
(`evaluateWithin_settles`), and the bound of `evaluate` is enough for it. So the verdicts of freshly
compiled schemas solve the equations of the keywords, and are the greatest solution where nothing is
judged (`validates_iff_meets`).
-/

namespace JsonSchema

/-! ## Evaluating a table -/

/-- The references that are being evaluated at a place of a value are those to the schemas that are
taken for granted. Schemas that accept everything or nothing have many places in a table, and are
never taken for granted while a node is evaluated. -/
structure Matches (stands active : List Schema) (owner : Schema) (references : ActiveReferences)
    (path : Pointer) : Prop where
  known : ∀ (id : ValidatorId), (id, path) ∈ references →
    ∃ schema ∈ active, stands[id.index]? = some schema
  listed : ∀ schema ∈ active, schema.id?.isSome → ∀ id : ValidatorId,
    stands[id.index]? = some schema → (id, path) ∈ references
  short : ∀ (id : ValidatorId) path', (id, path') ∈ references → path'.length ≤ path.length
  nodes : owner.id?.isSome → ∀ schema ∈ active, schema.id?.isSome

section Uses

variable {graph : SchemaGraph} {use : Use} {owner schema : Schema}

theorem uses_of_never (used : Schema.never.Uses graph use schema) :
    use = .judged ∧ schema = .always := by
  obtain ⟨keyword, assertion, value, ⟨mem, known⟩, listed⟩ := used
  cases List.mem_singleton.1 mem
  have not : Assertion.ofKey? Builtin.not.key = some .not := by decide
  rw [not] at known
  cases known
  cases List.mem_singleton.1 listed
  exact ⟨rfl, rfl⟩

theorem not_uses_of_always : ¬ Schema.always.Uses graph use schema := by
  rintro ⟨keyword, assertion, value, ⟨mem, -⟩, -⟩
  cases mem

/-- Only nodes use nodes. -/
theorem isNode_of_uses (used : owner.Uses graph use schema) (node : schema.id?.isSome) :
    owner.id?.isSome := by
  cases owner with
  | always => exact absurd used not_uses_of_always
  | never =>
    rw [(uses_of_never used).2] at node
    cases node
  | node id location draft keywords => rfl

/-- Only nodes refer. -/
theorem isNode_of_refers (used : owner.Uses graph .target schema) : owner.id?.isSome := by
  cases owner with
  | always => exact absurd used not_uses_of_always
  | never => cases (uses_of_never used).1
  | node id location draft keywords => rfl

end Uses

section Matching

variable {compiler : Compiler} {graph : SchemaGraph} {member : Schema → Prop}
  {table : Array Validator} {stands active : List Schema} {owner schema : Schema}
  {references : ActiveReferences} {path : Pointer}

theorem Matches.here (h : Matches stands active owner references path) {use : Use}
    (used : owner.Uses graph use schema) : Matches stands active schema references path where
  known := h.known
  listed := h.listed
  short := h.short
  nodes node := h.nodes (isNode_of_uses used node)

/-- Further down in the value nothing is taken for granted. -/
theorem Matches.inside (h : Matches stands active owner references path) (segment : String) :
    Matches stands [] schema references (path ++ [segment]) where
  known := by
    intro id mem
    have short := h.short id _ mem
    rw [List.length_append] at short
    exact absurd short (by simp)
  listed schema mem := absurd mem List.not_mem_nil
  short id path' mem := by
    have short := h.short id path' mem
    rw [List.length_append]
    omega
  nodes _ schema mem := absurd mem List.not_mem_nil

theorem Matches.enter (represents : Represents compiler graph member table stands)
    (h : Matches stands active owner references path) (refers : owner.id?.isSome)
    {id : ValidatorId} (found : stands[id.index]? = some schema) :
    Matches stands (schema :: active) schema ((id, path) :: references) path where
  known := by
    intro id' mem
    rcases List.mem_cons.1 mem with same | old
    · cases same
      exact ⟨schema, List.mem_cons_self, found⟩
    · obtain ⟨other, listed, stands⟩ := h.known id' old
      exact ⟨other, List.mem_cons_of_mem _ listed, stands⟩
  listed := by
    intro other mem node id' found'
    rcases List.mem_cons.1 mem with rfl | old
    · obtain ⟨name, named⟩ := Option.isSome_iff_exists.1 node
      have same := represents.once id.index id'.index other other name found found' named named
      have place : id' = id := by
        cases id
        cases id'
        exact congrArg ValidatorId.mk same.symm
      rw [place]
      exact List.mem_cons_self
    · exact List.mem_cons_of_mem _ (h.listed other old node id' found')
  short := by
    intro id' path' mem
    rcases List.mem_cons.1 mem with same | old
    · cases same
      exact le_rfl
    · exact h.short id' path' old
  nodes := by
    intro node other mem
    rcases List.mem_cons.1 mem with rfl | old
    · exact node
    · exact h.nodes refers other old

/-- A reference is being evaluated exactly if its target is taken for granted. -/
theorem Matches.contains_iff (h : Matches stands active owner references path)
    (refers : owner.id?.isSome) {id : ValidatorId} (found : stands[id.index]? = some schema) :
    references.contains (id, path) = true ↔ schema ∈ active := by
  rw [List.contains_iff_mem]
  constructor
  · intro mem
    obtain ⟨other, listed, found'⟩ := h.known id mem
    rw [found] at found'
    cases found'
    exact listed
  · exact fun mem => h.listed schema mem (h.nodes refers schema mem) id found

end Matching

section Evaluate

variable {compiler : Compiler} {graph : SchemaGraph} {member : Schema → Prop}
  {table : Array Validator} {stands : List Schema}

/-- Enough steps of evaluation settle acceptance. -/
theorem evaluateWithin_settles (represents : Represents compiler graph member table stands)
    (depth : Nat) {references : ActiveReferences} {active : List Schema} {schema : Schema}
    {id : ValidatorId} {node : InstanceNode} (found : stands[id.index]? = some schema)
    (proper : node.value.IsProper) (comparable : node.value.IsComparable member)
    (enough : Schema.need stands active schema node.value ≤ depth)
    (h : Matches stands active schema references node.path) :
    Settles (evaluateWithin table depth references id node)
      (schema.AcceptsWithin compiler graph depth active node.value) := by
  induction depth generalizing references active schema id node with
  | zero => exact absurd enough (by unfold Schema.need; omega)
  | succ depth ih =>
    obtain ⟨location, checks, place, judges⟩ := represents.judged id.index schema found
    unfold evaluateWithin
    rw [place]
    refine judges.settles location _ _ (Schema.Under (Schema.AcceptsWithin compiler graph depth)
      active) node proper ?_
    constructor
    · intro use inner id' used inside target found'
      have listed := List.mem_of_getElem? found'
      cases use with
      | beside =>
        have less : Schema.need stands active inner node.value <
            Schema.need stands active schema node.value :=
          Schema.need_lt_of_uses listed used (.inl rfl)
        exact ih found' proper comparable (by omega) (h.here used)
      | judged =>
        have less : Schema.need stands active inner node.value <
            Schema.need stands active schema node.value :=
          Schema.need_lt_of_uses listed used (.inr rfl)
        exact ih found' proper comparable (by omega) (h.here used)
      | target => exact absurd rfl target
      | inside => exact absurd rfl inside
    · intro target id' used found'
      have refers := isNode_of_refers used
      have taken := h.contains_iff refers found'
      split
      · next active' => exact settles_nil (.inl (taken.1 active'))
      · next inactive =>
        have fresh : target ∉ active := fun mem => inactive (taken.2 mem)
        have less : Schema.need stands (target :: active) target node.value <
            Schema.need stands active schema node.value :=
          Schema.need_lt_of_free (List.mem_of_getElem? found') fresh
        refine (ih found' proper comparable (by omega) (h.enter represents refers found')).congr ?_
        exact (or_iff_right fresh).symm
    · intro inner id' segment value used found' proper' within
      have less : Schema.need stands [] inner value < Schema.need stands active schema node.value :=
        Schema.need_lt_of_depth within.depth_lt
      exact ih found' proper' (comparable.inside within)
        (Nat.le_of_lt_succ (Nat.lt_of_lt_of_le less enough)) (h.inside segment)
    · intro n number
      rw [number] at comparable
      exact comparable n .here schema (represents.members schema (List.mem_of_getElem? found))
    · intro use inner v valid
      cases use with
      | target => exact .inr (Schema.acceptsWithin_of_valid valid depth)
      | _ => exact Schema.acceptsWithin_of_valid valid depth
    · exact fun inner v invalid proper' =>
        Schema.not_acceptsWithin_of_invalid invalid proper' depth

theorem Represents.areClosed (represents : Represents compiler graph member table stands) :
    Schema.AreClosed graph stands := by
  intro owner mem valid use schema used
  obtain ⟨i, found⟩ := List.getElem?_of_mem mem
  obtain ⟨location, checks, -, judges⟩ := represents.judged i owner found
  exact judges.placed valid use schema used

/-- Evaluation settles acceptance. -/
theorem evaluate_settles (represents : Represents compiler graph member table stands)
    {schema : Schema} {id : ValidatorId} (found : stands[id.index]? = some schema) {v : Json}
    (proper : v.IsProper) (comparable : v.IsComparable member) :
    Settles (evaluate table id v) (schema.Accepts compiler graph [] v) := by
  have enough : Schema.need stands [] schema v ≤ evaluationBound table v := by
    refine Nat.le_trans Schema.need_le ?_
    unfold evaluationBound
    rw [represents.size_eq]
    exact Nat.mul_le_mul_right _ (Nat.mul_le_mul_right _ (by omega))
  have start : Matches stands [] schema [] (InstanceNode.root v).path :=
    ⟨nofun, nofun, nofun, nofun⟩
  unfold evaluate
  refine (evaluateWithin_settles represents _ found proper comparable enough start).congr ?_
  exact (Schema.accepts_iff_acceptsWithin represents.areClosed (List.mem_of_getElem? found) proper
    enough).symm

end Evaluate

/-! ## Verdicts of compiled schemas -/

/-- A freshly compiled schema finds a value valid. -/
def Schema.Validates (compiler : Compiler) (graph : SchemaGraph) (schema : Schema) (v : Json) :
    Prop :=
  ∃ compiled, CompiledSchema.ofSchema compiler graph schema = .ok compiled ∧
    compiled.isValid v = .ok true

section Verdicts

variable {compiler : Compiler} {graph : SchemaGraph} {member : Schema → Prop} {schema : Schema}
  {v : Json}

theorem isValid_of_settles {compiled : CompiledSchema} {P : Prop}
    (h : Settles (evaluate compiled.table compiled.root v) P) :
    ∃ b, compiled.isValid v = .ok b ∧ (b = true ↔ P) := by
  obtain ⟨found, ok, iff⟩ := h
  refine ⟨found.isEmpty, ?_, List.isEmpty_iff.trans iff⟩
  unfold CompiledSchema.isValid CompiledSchema.validate
  rw [ok]
  rfl

/-- A compiled schema has a verdict on every value, which is acceptance. -/
theorem isValid_iff_accepts (orderly : Orderly graph member) (total : compiler.IsTotal)
    (owned : member schema) {compiled : CompiledSchema}
    (ok : CompiledSchema.ofSchema compiler graph schema = .ok compiled) (proper : v.IsProper)
    (comparable : v.IsComparable member) :
    ∃ b, compiled.isValid v = .ok b ∧ (b = true ↔ schema.Accepts compiler graph [] v) := by
  obtain ⟨stands, found, represents⟩ :=
    CompiledSchema.ofSchema_represents orderly total owned ok
  exact isValid_of_settles (evaluate_settles represents found proper comparable)

theorem validates_iff_accepts (orderly : Orderly graph member) (total : compiler.IsTotal)
    (owned : member schema) {compiled : CompiledSchema}
    (ok : CompiledSchema.ofSchema compiler graph schema = .ok compiled) (proper : v.IsProper)
    (comparable : v.IsComparable member) :
    schema.Validates compiler graph v ↔ schema.Accepts compiler graph [] v := by
  obtain ⟨b, valid, iff⟩ := isValid_iff_accepts orderly total owned ok proper comparable
  rw [← iff]
  constructor
  · rintro ⟨compiled', ok', valid'⟩
    rw [ok] at ok'
    cases ok'
    rw [valid] at valid'
    exact Except.ok.inj valid'
  · intro true
    exact ⟨compiled, ok, by rw [valid, true]⟩

/-- The verdicts of compiled schemas solve the equations of the keywords: every value has a verdict,
and a value is valid exactly if every keyword that applies to it holds, where the keywords use these
verdicts for the schemas in them. If nothing is judged but by schemas that accept nothing, no
solution of the equations accepts more. This is said of the values whose numbers compare with the
bounds of the schemas, since the order of a NaN and a decimal is a fault. -/
theorem validates_iff_meets (orderly : Orderly graph member) (total : compiler.IsTotal)
    (compiles : ∀ schema, member schema →
      ∃ compiled, CompiledSchema.ofSchema compiler graph schema = .ok compiled)
    (stratified : ∀ owner schema, member owner → owner.Uses graph .judged schema →
      ¬ schema.Stays graph owner) :
    (∀ schema v, member schema → v.IsProper → v.IsComparable member →
      (∃ compiled b, CompiledSchema.ofSchema compiler graph schema = .ok compiled ∧
        compiled.isValid v = .ok b) ∧
      (schema.Validates compiler graph v ↔
        schema.Meets compiler graph (fun _ => Schema.Validates compiler graph) v)) ∧
    ((∀ owner schema, member owner → owner.Uses graph .judged schema →
        owner.isAlwaysInvalid = true) →
      ∀ solution : Schema → Json → Prop,
        (∀ schema v, member schema → v.IsProper → v.IsComparable member →
          (solution schema v ↔ schema.Meets compiler graph (fun _ => solution) v)) →
        ∀ schema v, member schema → v.IsProper → v.IsComparable member → solution schema v →
          schema.Validates compiler graph v) := by
  have accepted : ∀ schema v, member schema → v.IsProper → v.IsComparable member →
      (schema.Validates compiler graph v ↔ schema.Accepts compiler graph [] v) := by
    intro schema v owned proper comparable
    obtain ⟨compiled, ok⟩ := compiles schema owned
    exact validates_iff_accepts orderly total owned ok proper comparable
  have table : ∀ schema, member schema → ∃ stands, schema ∈ stands ∧
      (∀ other ∈ stands, member other) ∧ Schema.AreClosed graph stands := by
    intro schema owned
    obtain ⟨compiled, ok⟩ := compiles schema owned
    obtain ⟨stands, found, represents⟩ :=
      CompiledSchema.ofSchema_represents orderly total owned ok
    exact ⟨stands, List.mem_of_getElem? found, represents.members, represents.areClosed⟩
  refine ⟨fun schema v owned proper comparable => ⟨?_, ?_⟩, ?_⟩
  · obtain ⟨compiled, ok⟩ := compiles schema owned
    obtain ⟨b, valid, -⟩ := isValid_iff_accepts orderly total owned ok proper comparable
    exact ⟨compiled, b, ok, valid⟩
  · obtain ⟨stands, mem, members, closed⟩ := table schema owned
    rw [accepted schema v owned proper comparable, Schema.accepts_iff_meets closed
      (fun owner listed inner => stratified owner inner (members owner listed)) mem proper]
    refine Schema.Meets.congr proper (fun use inner used _ => ?_)
      (fun inner value used proper' within => ?_)
    · exact (accepted inner v (orderly.closed schema owned use inner used) proper comparable).symm
    · exact (accepted inner value (orderly.closed schema owned .inside inner used) proper'
        (comparable.inside within)).symm
  · intro positive solution solves schema v owned proper comparable solved
    obtain ⟨stands, mem, members, closed⟩ := table schema owned
    rw [accepted schema v owned proper comparable]
    exact Schema.accepts_of_solution orderly members closed
      (fun owner listed inner => stratified owner inner (members owner listed))
      (fun owner owned inner => positive owner inner owned) solves mem proper comparable solved

end Verdicts

/-! ### A schema that refers to itself -/

namespace Loop

/-- A schema whose one keyword is a reference to the schema itself. -/
def schema : Schema :=
  .node ⟨0⟩ none .draft6 [(Builtin.ref, .reference "#" "#" ⟨0⟩)]

/-- The graph of this schema. -/
def graph : SchemaGraph where
  handles := #[{ location := default, schema := some schema }]
  nextNode := 1

/-- A compiler without formats, whose patterns are found nowhere. -/
def compiler : Compiler where
  formats := ⟨[]⟩
  search _ := .ok fun _ => false

theorem uses {use : Use} {inner : Schema} (used : schema.Uses graph use inner) :
    use = .target ∧ inner = schema := by
  obtain ⟨keyword, assertion, value, ⟨mem, known⟩, listed⟩ := used
  cases List.mem_singleton.1 mem
  have ref : Assertion.ofKey? Builtin.ref.key = some .ref := by decide
  rw [ref] at known
  cases known
  cases List.mem_singleton.1 listed
  exact ⟨rfl, rfl⟩

theorem asserts {keyword : Keyword} {assertion : Assertion} {value : KeywordValue}
    (asserts : schema.Asserts keyword assertion value) :
    keyword = Builtin.ref ∧ assertion = .ref ∧ value = .reference "#" "#" ⟨0⟩ := by
  obtain ⟨mem, known⟩ := asserts
  cases List.mem_singleton.1 mem
  have ref : Assertion.ofKey? Builtin.ref.key = some .ref := by decide
  rw [ref] at known
  cases known
  exact ⟨rfl, rfl, rfl⟩

theorem orderly : Orderly graph (· = schema) where
  closed := by
    rintro owner rfl use inner used
    exact (uses used).2
  typed := by
    rintro owner rfl keyword assertion value h
    obtain ⟨rfl, rfl, rfl⟩ := asserts h
    exact ⟨trivial, fun _ applies => applies⟩
  distinct := by
    rintro owner other id rfl rfl _ _
    rfl

end Loop

/-- A schema that refers to itself accepts everything. -/
theorem loop_validates : Loop.schema.Validates Loop.compiler Loop.graph .null := by
  have total : Loop.compiler.IsTotal := fun name test found => nomatch found
  have equations := validates_iff_meets Loop.orderly total
    (by
      rintro schema rfl
      exact ⟨_, rfl⟩)
    (by
      rintro owner schema rfl used
      cases (Loop.uses used).1)
  refine equations.2 ?_ (fun _ _ => True) ?_ _ _ rfl trivial ?_ trivial
  · rintro owner schema rfl used
    cases (Loop.uses used).1
  · rintro schema v rfl - -
    refine iff_of_true trivial ?_
    intro keyword assertion value h type typed applies
    obtain ⟨rfl, rfl, rfl⟩ := Loop.asserts h
    exact ⟨Loop.schema, rfl, trivial⟩
  · rintro n (- | ⟨⟨⟩, -⟩)

end JsonSchema
