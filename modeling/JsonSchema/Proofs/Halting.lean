import JsonSchema.Proofs.Layout
import JsonSchema.Proofs.Orderly

/-!
# Compiling and validating end

Compiling a schema and validating values with it ends, whatever cycles the references of its graph
have (`CompiledSchema.ofSchema_finishes`): neither runs out of its recursion bound, and with a
larger bound both do the same. For compiling this is `Compile.lasts_schemaWithin`. An evaluation goes
down in the value, or takes up a reference that is not being evaluated there yet, or goes on to a
schema that is a part of the one before; `Layout.effort` counts this.
-/

namespace JsonSchema

/-- The tests of formats do not run out of a recursion bound. -/
def Compiler.TestsFinish (compiler : Compiler) : Prop :=
  ∀ name test, compiler.formats.lookup name = some test → ∀ text, Finishes (test text)

namespace Layout

variable {compiler : Compiler} {graph : SchemaGraph} {member : Schema → Prop}
  (w : Layout compiler graph member)

/-! ## The effort of an evaluation -/

/-- The places of the table to which no reference is being evaluated at a place of the value. -/
def unreferenced (active : ActiveReferences) (path : Pointer) : Nat :=
  ((List.range w.stands.length).filter fun i => !active.contains (⟨i⟩, path)).length

/-- A number of steps that is enough to evaluate a schema: the value gets less deep, or one more
reference is being evaluated at its place, or the schema gets smaller. -/
noncomputable def effort (active : ActiveReferences) (schema : Schema) (node : InstanceNode) :
    Nat :=
  (node.value.depth * (w.stands.length + 1) + w.unreferenced active node.path) *
    (w.stands.length + 1) + Schema.rank w.stands schema + 1

variable {w} {active : ActiveReferences} {owner schema : Schema} {node : InstanceNode}
  {id : ValidatorId}

theorem unreferenced_le (active : ActiveReferences) (path : Pointer) :
    w.unreferenced active path ≤ w.stands.length :=
  (List.length_filter_le _ _).trans (Nat.le_of_eq List.length_range)

theorem effort_lt_of_uses {use : Use} (found : w.stands[id.index]? = some schema)
    (used : owner.Uses graph use schema) (here : use = .beside ∨ use = .judged) :
    w.effort active schema node < w.effort active owner node := by
  have smaller := Schema.weight_lt_of_uses used here
  have less : Schema.rank w.stands schema < Schema.rank w.stands owner := by
    refine Schema.length_filter_lt (List.mem_of_getElem? found) (fun other below => ?_)
      (by simp) (by simpa using smaller)
    simp only [decide_eq_true_eq] at below ⊢
    omega
  unfold effort
  omega

theorem effort_lt_of_target (found : w.stands[id.index]? = some schema)
    (fresh : active.contains (id, node.path) = false) :
    w.effort ((id, node.path) :: active) schema node < w.effort active owner node := by
  have bound : id.index < w.stands.length := (List.getElem?_eq_some_iff.1 found).1
  have less : w.unreferenced ((id, node.path) :: active) node.path <
      w.unreferenced active node.path := by
    refine Schema.length_filter_lt (List.mem_range.2 bound) (fun i apart => ?_) ?_ ?_
    · rw [List.contains_cons, Bool.not_eq_true', Bool.or_eq_false_iff] at apart
      rw [apart.2]
      rfl
    · rw [List.contains_cons, beq_self_eq_true]
      rfl
    · rw [fresh]
      rfl
  have step : (node.value.depth * (w.stands.length + 1) +
        w.unreferenced ((id, node.path) :: active) node.path + 1) * (w.stands.length + 1) ≤
      (node.value.depth * (w.stands.length + 1) + w.unreferenced active node.path) *
        (w.stands.length + 1) :=
    Nat.mul_le_mul_right _ (by omega)
  have room := Schema.rank_le w.stands schema
  unfold effort
  rw [Nat.succ_mul] at step
  omega

/-- Down in the value it does not matter which references are being evaluated. -/
theorem effort_lt_of_inside {active' : ActiveReferences} {inner : InstanceNode}
    (less : inner.value.depth < node.value.depth) :
    w.effort active' schema inner < w.effort active owner node := by
  have room := w.unreferenced_le active' inner.path
  have step : (inner.value.depth * (w.stands.length + 1) + w.unreferenced active' inner.path + 1) *
        (w.stands.length + 1) ≤
      (node.value.depth * (w.stands.length + 1) + w.unreferenced active node.path) *
        (w.stands.length + 1) := by
    refine Nat.mul_le_mul_right _ ?_
    have outer : (inner.value.depth + 1) * (w.stands.length + 1) ≤
        node.value.depth * (w.stands.length + 1) := Nat.mul_le_mul_right _ less
    rw [Nat.succ_mul] at outer
    omega
  have bound := Schema.rank_le w.stands schema
  unfold effort
  rw [Nat.succ_mul] at step
  omega

theorem effort_le : w.effort active schema node ≤
    evaluationBound w.state.validators node.value := by
  have room := w.unreferenced_le active node.path
  have bound := Schema.rank_le w.stands schema
  have step : (node.value.depth * (w.stands.length + 1) + w.unreferenced active node.path + 1) *
        (w.stands.length + 1) ≤
      (node.value.depth + 2) * (w.stands.length + 1) * (w.stands.length + 1) := by
    refine Nat.mul_le_mul_right _ ?_
    rw [Nat.add_mul]
    omega
  unfold effort evaluationBound
  rw [w.size_eq]
  rw [Nat.succ_mul] at step
  omega

/-! ## Evaluating -/

/-- Evaluating at most `depth` schemas deep does not run out and is the same as evaluating deeper,
if `depth` is enough for the effort. -/
theorem coincide_evaluateWithin (tests : compiler.TestsFinish) (depth depth' : Nat)
    (found : w.stands[id.index]? = some schema) (enough : w.effort active schema node ≤ depth)
    (enough' : w.effort active schema node ≤ depth') :
    Coincide (evaluateWithin w.state.validators depth active id node)
      (evaluateWithin w.state.validators depth' active id node) := by
  induction depth generalizing depth' active schema id node with
  | zero => exact absurd enough (by unfold effort; omega)
  | succ depth ih =>
    cases depth' with
    | zero => exact absurd enough' (by unfold effort; omega)
    | succ depth' =>
      have bound : id.index < w.state.validators.size := by
        rw [w.size_eq]
        exact (List.getElem?_eq_some_iff.1 found).1
      have filled := Array.getElem?_eq_getElem bound
      unfold evaluateWithin
      rw [filled]
      refine Validator.coincide_evaluateWith fun check mem => ?_
      have tied := w.tied id.index schema _ found filled check mem
      refine Check.coincide_run
        (fun name test same => tests name test (tied.tests name test same)) ?_
      constructor
      · intro use id' mem here
        obtain ⟨inner, found', used⟩ := tied.places use id' mem
        have less : w.effort active inner node < w.effort active schema node :=
          w.effort_lt_of_uses found' used here
        exact ih depth' found' (by omega) (by omega)
      · intro id' mem
        obtain ⟨target, found', -⟩ := tied.places .target id' mem
        split
        · exact coincide_ok _
        · next inactive =>
          have less : w.effort ((id', node.path) :: active) target node <
              w.effort active schema node :=
            w.effort_lt_of_target found' (Bool.not_eq_true _ ▸ inactive)
          exact ih depth' found' (by omega) (by omega)
      · intro id' mem segment value deep
        obtain ⟨inner, found', -⟩ := tied.places .inside id' mem
        have less : w.effort active inner (node.child segment value) <
            w.effort active schema node := effort_lt_of_inside deep
        exact ih depth' found' (by omega) (by omega)

end Layout

/-! ## Compiled schemas -/

section Ends

variable {compiler : Compiler} {graph : SchemaGraph} {member : Schema → Prop} {schema : Schema}

/-- Compiling with the bound of `Compile.schema` and with a larger one lasts from the empty
layout. -/
theorem Compile.lasts_schema (compiler : Compiler) (apart : graph.TellsApart member)
    (owned : member schema) (extra : Nat) :
    Lasts (Compile.schema compiler graph schema)
      (schemaWithin compiler graph (graph.nextNode + 2 + extra) schema "#")
      (Layout.empty compiler graph member) fun id w => w.stands[id.index]? = some schema := by
  have room := (Layout.empty compiler graph member).unplaced_le
  exact (lasts_schemaWithin apart _ _ (by omega) (by omega)).here owned "#"

/-- Compiling gives the table of a layout in which the schema has its place. -/
theorem CompiledSchema.exists_layout (apart : graph.TellsApart member) (owned : member schema)
    {compiled : CompiledSchema} (ok : ofSchema compiler graph schema = .ok compiled) :
    ∃ w : Layout compiler graph member, w.state.validators = compiled.table ∧
      w.stands[compiled.root.index]? = some schema := by
  have lasts := Compile.lasts_schema compiler apart owned 0
  unfold ofSchema at ok
  split at ok
  · next id state run =>
    cases ok
    obtain ⟨w, -, rfl, stands⟩ := lasts.ends.of_ok run
    exact ⟨w, rfl, stands⟩
  · cases ok

/-- Compiling a schema of a graph ends, and so does validating any value with the compiled schema:
neither runs out of its recursion bound, and with a larger one they do the same. -/
theorem CompiledSchema.ofSchema_finishes (apart : graph.TellsApart member)
    (tests : compiler.TestsFinish) (owned : member schema) :
    Finishes (ofSchema compiler graph schema) ∧
    (∀ extra, (Compile.schemaWithin compiler graph (graph.nextNode + 2 + extra) schema "#").run.run
        .empty = (Compile.schema compiler graph schema).run.run .empty) ∧
    ∀ compiled, ofSchema compiler graph schema = .ok compiled → ∀ v,
      Finishes (compiled.validate v) ∧
      ∀ extra, evaluateWithin compiled.table (evaluationBound compiled.table v + extra) []
        compiled.root (.root v) = evaluate compiled.table compiled.root v := by
  refine ⟨?_, fun extra => (Compile.lasts_schema compiler apart owned extra).same,
    fun compiled ok v => ?_⟩
  · have lasts := Compile.lasts_schema compiler apart owned 0
    unfold ofSchema
    split
    · exact finishes_ok _
    · next fault state run =>
      intro out
      exact lasts.ends.of_error run (Except.error.inj out)
  · obtain ⟨w, table, stands⟩ := exists_layout apart owned ok
    have evaluated : ∀ extra, Coincide (evaluate compiled.table compiled.root v)
        (evaluateWithin compiled.table (evaluationBound compiled.table v + extra) []
          compiled.root (.root v)) := by
      intro extra
      have enough : w.effort [] schema (.root v) ≤ evaluationBound w.state.validators v :=
        w.effort_le
      rw [table] at enough
      have coincide := w.coincide_evaluateWithin tests _ (evaluationBound compiled.table v + extra)
        stands enough (enough.trans (Nat.le_add_right _ _))
      rwa [table] at coincide
    refine ⟨?_, fun extra => (evaluated extra).same⟩
    exact finishes_bind (evaluated 0).finishes (fun _ _ => finishes_ok _)

/-- A schema that refers to itself is compiled, and validates values. -/
theorem loop_finishes : Finishes (CompiledSchema.ofSchema Loop.compiler Loop.graph Loop.schema) ∧
    ∃ compiled, CompiledSchema.ofSchema Loop.compiler Loop.graph Loop.schema = .ok compiled ∧
      ∀ v, Finishes (compiled.validate v) := by
  have apart : Loop.graph.TellsApart (· = Loop.schema) := by
    refine ⟨Loop.orderly.closed, ?_, Loop.orderly.distinct⟩
    rintro _ id rfl named
    cases named
    exact Nat.zero_lt_one
  have tests : Loop.compiler.TestsFinish := fun name test known => nomatch known
  have ends := CompiledSchema.ofSchema_finishes apart tests rfl
  refine ⟨ends.1, _, rfl, fun v => ?_⟩
  exact (ends.2.2 _ rfl v).1

end Ends

/-! ### Where this applies -/

/-- The nodes that a session without errors has made are told apart by their identities. -/
theorem Load.Track.tellsApart {contents : String → Json} {w : Load.Track contents}
    (clean : w.stock.IsClean) : w.session.graph.TellsApart w.stock.Made where
  closed := (orderly clean).closed
  given schema id made named := by
    rcases made with rfl | rfl | mem
    · cases named
    · cases named
    · obtain ⟨id', named', given⟩ := w.numbered schema mem
      rw [named] at named'
      cases named'
      exact given
  distinct := (orderly clean).distinct

/-- The tests of the formats that the drafts name do not run out. -/
theorem Compiler.default_testsFinish : Compiler.default.TestsFinish := by
  intro name test known text
  have plain : ∀ check : String → Bool, ∀ text, Finishes (Format.plainTest check text) :=
    fun check text => finishes_ok _
  have regex : ∀ text, Finishes (Format.regexTest text) := by
    intro text
    unfold Format.regexTest
    split <;> exact nofun
  have all : ∀ entry ∈ FormatRegistry.default.tests, ∀ text, Finishes (entry.2 text) := by
    unfold FormatRegistry.default
    simp only [List.forall_mem_cons]
    repeat' apply And.intro
    all_goals first | exact regex | exact plain _ | exact nofun
  exact all (name, test) (Members.mem_of_lookup known) text

end JsonSchema
