import JsonSchema.Proofs.Acceptance
import JsonSchema.Proofs.Checking

/-!
# The layout of compiled tables

Compiling a schema does not run out of its recursion bound, and with a larger one it does the same
(`Compile.lasts_schemaWithin`). For each node takes its place before its keywords are compiled, and
the nodes that have no place yet become fewer on every way down (`Layout.unplaced`).

A `Layout` is a table in the making, with the schemas that its places stand for: a check at a place
goes on only to places of schemas that the schema of the place uses (`Rule.Tied`). Nothing is assumed
about the values that keywords hold, but that the nodes of the graph are told apart by identities
which it gave out (`SchemaGraph.TellsApart`).
-/

namespace JsonSchema

/-- The nodes among the schemas that are closed under use have identities that the graph gave out,
and no two have one identity. -/
structure SchemaGraph.TellsApart (graph : SchemaGraph) (member : Schema → Prop) : Prop where
  closed : ∀ owner, member owner → ∀ use schema, owner.Uses graph use schema → member schema
  given : ∀ schema id, member schema → schema.id? = some id → id.index < graph.nextNode
  distinct : ∀ schema other id, member schema → member other → schema.id? = some id →
    other.id? = some id → schema = other

/-! ## Tied rules -/

/-- A rule of a schema goes on to places of schemas that the schema uses, in the way in which it uses
them, and tests the formats of the compiler. -/
structure Rule.Tied (compiler : Compiler) (graph : SchemaGraph) (stands : List Schema)
    (owner : Schema) (rule : Rule) : Prop where
  places : ∀ use (id : ValidatorId), (use, id) ∈ rule.uses →
    ∃ schema, stands[id.index]? = some schema ∧ owner.Uses graph use schema
  tests : ∀ name test, rule = .format name test → compiler.formats.lookup name = some test

section Tied

variable {compiler : Compiler} {graph : SchemaGraph} {stands stands' : List Schema}
  {owner : Schema} {rule : Rule}

theorem Rule.Tied.mono (more : stands <+: stands') (tied : rule.Tied compiler graph stands owner) :
    rule.Tied compiler graph stands' owner where
  places use id mem := by
    obtain ⟨schema, found, used⟩ := tied.places use id mem
    exact ⟨schema, getElem?_mono more found, used⟩
  tests := tied.tests

/-- A rule that goes on to no place. -/
theorem Rule.tied_plain (none : rule.uses = []) (plain : ∀ name test, rule ≠ .format name test) :
    rule.Tied compiler graph stands owner where
  places use id mem := by
    rw [none] at mem
    cases mem
  tests name test same := absurd same (plain name test)

/-- A rule that goes on to the places of given schemas in one way. -/
theorem Rule.tied_of_forall₂ {use : Use} {schemas : List Schema} {ids : List ValidatorId}
    (h : List.Forall₂ (fun schema (id : ValidatorId) => stands[id.index]? = some schema)
      schemas ids) (used : ∀ schema ∈ schemas, owner.Uses graph use schema)
    (uses : rule.uses = ids.map (use, ·)) (plain : ∀ name test, rule ≠ .format name test) :
    rule.Tied compiler graph stands owner where
  places use' id mem := by
    rw [uses] at mem
    obtain ⟨id', mem', same⟩ := List.mem_map.1 mem
    cases same
    obtain ⟨schema, listed, found⟩ := exists_of_forall₂ h.flip mem'
    exact ⟨schema, found, used schema listed⟩
  tests name test same := absurd same (plain name test)

end Tied

/-! ## Layouts -/

/-- A table in the making: its places stand for schemas, those of nodes are known, and the checks at
a place are tied to it. -/
structure Layout (compiler : Compiler) (graph : SchemaGraph) (member : Schema → Prop) where
  state : Compilation
  stands : List Schema
  size_eq : state.validators.size = stands.length
  members : ∀ schema ∈ stands, member schema
  known_stands : ∀ id (place : ValidatorId), state.known.lookup id = some place →
    ∃ schema, stands[place.index]? = some schema ∧ schema.id? = some id
  tied : ∀ (i : Nat) schema validator, stands[i]? = some schema →
    state.validators[i]? = some validator → ∀ check ∈ validator.checkList,
      check.rule.Tied compiler graph stands schema

namespace Layout

variable {compiler : Compiler} {graph : SchemaGraph} {member : Schema → Prop}
  (w : Layout compiler graph member)

/-- The identities that the graph gave out and that have no place. -/
def unplaced : Nat :=
  ((List.range graph.nextNode).filter fun i => (w.state.known.lookup ⟨i⟩).isNone).length

/-- A layout is later than another one if it has more places. -/
instance : Preorder (Layout compiler graph member) where
  le w w' := w.stands <+: w'.stands ∧ w'.unplaced ≤ w.unplaced
  le_refl w := ⟨List.prefix_rfl, le_rfl⟩
  le_trans _ _ _ h h' := ⟨h.1.trans h'.1, h'.2.trans h.2⟩

theorem size_empty : Compilation.empty.validators.size = ([] : List Schema).length :=
  rfl

theorem known_empty (id : SchemaId) (place : ValidatorId)
    (found : Compilation.empty.known.lookup id = some place) :
    ∃ schema, ([] : List Schema)[place.index]? = some schema ∧ schema.id? = some id := by
  cases found

theorem tied_empty (compiler : Compiler) (graph : SchemaGraph) (i : Nat) (schema : Schema)
    (validator : Validator) (stands : ([] : List Schema)[i]? = some schema)
    (_ : Compilation.empty.validators[i]? = some validator) :
    ∀ check ∈ validator.checkList, check.rule.Tied compiler graph [] schema := by
  cases stands

/-- The layout before compiling. -/
def empty (compiler : Compiler) (graph : SchemaGraph) (member : Schema → Prop) :
    Layout compiler graph member where
  state := .empty
  stands := []
  size_eq := size_empty
  members := List.forall_mem_nil member
  known_stands := known_empty
  tied := tied_empty compiler graph

theorem unplaced_le : w.unplaced ≤ graph.nextNode :=
  (List.length_filter_le _ _).trans (Nat.le_of_eq List.length_range)

variable {schema : Schema}

/-- The layout in which a schema has taken the next place. -/
def entered (location : String) (owned : member schema) : Layout compiler graph member where
  state :=
    { validators := w.state.validators.push (.unfilled location)
      known := Stage.withPlace w.state.known schema ⟨w.state.validators.size⟩ }
  stands := w.stands ++ [schema]
  size_eq := by
    rw [Array.size_push, List.length_append, w.size_eq]
    rfl
  members := by
    intro schema' mem
    rcases List.mem_append.1 mem with old | new
    · exact w.members schema' old
    · rw [List.mem_singleton.1 new]
      exact owned
  known_stands := by
    intro id place known
    rw [Stage.lookup_withPlace, Option.or_eq_some_iff] at known
    rcases known with old | ⟨-, new⟩
    · obtain ⟨schema', stands, same⟩ := w.known_stands id place old
      exact ⟨schema', getElem?_mono (List.prefix_append _ _) stands, same⟩
    · split at new
      · next same =>
        cases new
        refine ⟨schema, ?_, same⟩
        rw [w.size_eq]
        exact List.getElem?_concat_length
      · cases new
  tied := by
    intro i schema' validator stands found check mem
    rw [Array.getElem?_push] at found
    split at found
    · cases found
      cases mem
    · have bound : i < w.stands.length := by
        rw [← w.size_eq]
        exact (Array.getElem?_eq_some_iff.1 found).1
      rw [List.getElem?_append_left bound] at stands
      exact (w.tied i schema' validator stands found check mem).mono (List.prefix_append _ _)

/-- The layout in which a place has got checks that are tied to its schema. -/
def filled {i : Nat} (stands : w.stands[i]? = some schema) (location : String)
    (checks : List Check) (tied : ∀ check ∈ checks, check.rule.Tied compiler graph w.stands schema) :
    Layout compiler graph member where
  state :=
    { validators := w.state.validators.set! i { location, checks := some checks }
      known := w.state.known }
  stands := w.stands
  size_eq := by
    rw [Array.set!_eq_setIfInBounds, Array.size_setIfInBounds]
    exact w.size_eq
  members := w.members
  known_stands := w.known_stands
  tied := by
    intro j schema' validator stands' found check mem
    rw [Array.set!_eq_setIfInBounds, Array.getElem?_setIfInBounds] at found
    split at found
    · next same =>
      subst same
      split at found
      · cases found
        rw [stands] at stands'
        cases stands'
        exact tied check mem
      · cases found
    · exact w.tied j schema' validator stands' found check mem

theorem lookup_entered {location : String} {owned : member schema} {id : SchemaId}
    (missing : (w.entered location owned).state.known.lookup id = none) :
    w.state.known.lookup id = none := by
  have known : (Stage.withPlace w.state.known schema ⟨w.state.validators.size⟩).lookup id = none :=
    missing
  rw [Stage.lookup_withPlace] at known
  exact (Option.or_eq_none_iff.1 known).1

theorem le_entered (location : String) (owned : member schema) : w ≤ w.entered location owned := by
  refine ⟨List.prefix_append _ _, ?_⟩
  unfold unplaced
  simp only [← List.countP_eq_length_filter]
  refine List.countP_mono_left (fun i _ missing => ?_)
  rw [Option.isNone_iff_eq_none] at missing ⊢
  exact w.lookup_entered missing

theorem le_filled {i : Nat} (stands : w.stands[i]? = some schema) (location : String)
    (checks : List Check) (tied : ∀ check ∈ checks, check.rule.Tied compiler graph w.stands schema) :
    w ≤ w.filled stands location checks tied :=
  ⟨List.prefix_rfl, le_rfl⟩

/-- A node that takes a place leaves fewer without. -/
theorem unplaced_entered {id : SchemaId} (location : String) (owned : member schema)
    (named : schema.id? = some id) (given : id.index < graph.nextNode)
    (fresh : w.state.known.lookup id = none) :
    (w.entered location owned).unplaced < w.unplaced := by
  refine Schema.length_filter_lt (List.mem_range.2 given) (fun i missing => ?_) ?_ ?_
  · rw [Option.isNone_iff_eq_none] at missing ⊢
    exact w.lookup_entered missing
  · have taken : (w.entered location owned).state.known.lookup id =
        some ⟨w.state.validators.size⟩ := by
      refine (Stage.lookup_withPlace _ _ _ _).trans ?_
      rw [fresh, if_pos named]
      rfl
    rw [taken]
    rfl
  · rw [fresh]
    rfl

end Layout

/-! ## Compiling alike -/

namespace Compile

variable {compiler : Compiler} {graph : SchemaGraph} {member : Schema → Prop}
  {w : Layout compiler graph member} {α β : Type}

/-- A stop that is not for want of depth. -/
def NotExhausted (_ : Layout compiler graph member) (fault : Fault) (_ : Compilation) : Prop :=
  fault ≠ .exhausted

instance : Descending (@NotExhausted compiler graph member) where
  down _ h := h

/-- From a layout two computations run alike. They end in a later layout with `Q`, or stop with a
fault that is not for want of depth. -/
structure Lasts (act act' : Compile α) (w : Layout compiler graph member)
    (Q : α → Layout compiler graph member → Prop) : Prop where
  same : act'.run.run w.state = act.run.run w.state
  ends : After Layout.state NotExhausted act w Q

section Rules

variable {Q Q' : α → Layout compiler graph member → Prop}
  {R : β → Layout compiler graph member → Prop}

theorem lasts_pure {a : α} (h : Q a w) : Lasts (pure a) (pure a) w Q :=
  ⟨rfl, after_pure h⟩

theorem lasts_throw {fault : Fault} (other : fault ≠ .exhausted) :
    Lasts (throw fault) (throw fault) w Q :=
  ⟨rfl, after_throw other⟩

theorem Lasts.mono {act act' : Compile α} (h : Lasts act act' w Q)
    (ok : ∀ a w', w ≤ w' → Q a w' → Q' a w') : Lasts act act' w Q' :=
  ⟨h.same, after_mono h.ends ok⟩

theorem Lasts.bind {act act' : Compile α} {next next' : α → Compile β} (first : Lasts act act' w Q)
    (rest : ∀ a w', w ≤ w' → Q a w' → Lasts (next a) (next' a) w' R) :
    Lasts (act >>= next) (act' >>= next') w R := by
  refine ⟨?_, after_bind first.ends fun a w' up h => (rest a w' up h).ends⟩
  cases run : act.run.run w.state with
  | mk result s =>
    have run' := first.same.trans run
    cases result with
    | ok a =>
      obtain ⟨w', up, rfl, h⟩ := first.ends.of_ok run
      rw [run_bind_ok run, run_bind_ok run', (rest a w' up h).same]
    | error fault => rw [run_bind_error run, run_bind_error run']

theorem Lasts.map {act act' : Compile α} {f : α → β}
    (h : Lasts act act' w fun a w' => R (f a) w') : Lasts (f <$> act) (f <$> act') w R := by
  rw [map_eq_pure_bind, map_eq_pure_bind]
  exact h.bind fun a w' _ holds => lasts_pure holds

theorem lasts_check {x : Except Fault α} (finishes : Finishes x) :
    Lasts (check x) (check x) w fun a _ => x = .ok a := by
  cases x with
  | ok a => exact lasts_pure rfl
  | error fault => exact lasts_throw fun out => finishes (by rw [out])

/-- A loop over a list: what each element's run gives stays true while the later ones run. -/
theorem lasts_mapM {Q : α → β → Layout compiler graph member → Prop} {f f' : α → Compile β}
    (stays : ∀ x y w w', w ≤ w' → Q x y w → Q x y w') {xs : List α}
    (each : ∀ x ∈ xs, ∀ w', w ≤ w' → Lasts (f x) (f' x) w' (Q x)) :
    Lasts (xs.mapM f) (xs.mapM f') w (fun ys w' => List.Forall₂ (fun x y => Q x y w') xs ys) := by
  induction xs generalizing w with
  | nil => exact lasts_pure .nil
  | cons x xs ih =>
    rw [List.mapM_cons, List.mapM_cons]
    refine (each x List.mem_cons_self w le_rfl).bind (fun y w₁ up₁ first => ?_)
    have others := ih fun x' mem w' up => each x' (List.mem_cons_of_mem _ mem) w' (up₁.trans up)
    refine others.bind (fun ys w₂ up₂ rest => ?_)
    exact lasts_pure (.cons (stays x y w₁ w₂ up₂ first) rest)

end Rules

/-- From a layout on, two compiling functions run alike and give every schema of the graph a place
that stands for it. -/
def Settle (recur recur' : SchemaCompiler) (w : Layout compiler graph member) : Prop :=
  ∀ w', w ≤ w' → ∀ schema place, member schema →
    Lasts (recur schema place) (recur' schema place) w' fun id w'' =>
      w''.stands[id.index]? = some schema

variable {recur recur' : SchemaCompiler}

theorem Settle.later {w' : Layout compiler graph member} (settle : Settle recur recur' w)
    (up : w ≤ w') : Settle recur recur' w' :=
  fun w'' up' => settle w'' (up.trans up')

theorem Settle.here (settle : Settle recur recur' w) {schema : Schema} (owned : member schema)
    (place : String) : Lasts (recur schema place) (recur' schema place) w fun id w' =>
      w'.stands[id.index]? = some schema :=
  settle w le_rfl schema place owned

theorem finishes_search (compiler : Compiler) (pattern : String) :
    Finishes ((compiler.search pattern).mapError .notAPattern) :=
  finishes_mapError nofun _

theorem lasts_search (pattern : String) :
    Lasts (searchOf compiler pattern) (searchOf compiler pattern) w fun _ _ => True :=
  (lasts_check (finishes_search compiler pattern)).mono fun _ _ _ _ => trivial

/-! ### The rules of keywords -/

/-- What compiling a keyword gives: a rule that is tied to its owner, or none. -/
def IsTied (owner : Schema) (rule : Option Rule) (w : Layout compiler graph member) : Prop :=
  ∀ rule', rule = some rule' → rule'.Tied compiler graph w.stands owner

theorem lasts_none {owner : Schema} : Lasts (pure none) (pure none) w (IsTied owner) :=
  lasts_pure nofun

theorem lasts_plain {owner : Schema} {rule : Rule} (none : rule.uses = [])
    (plain : ∀ name test, rule ≠ .format name test) :
    Lasts (pure (some rule)) (pure (some rule)) w (IsTied owner) := by
  refine lasts_pure (fun rule' same => ?_)
  cases same
  exact Rule.tied_plain none plain

/-- The end of compiling a keyword whose rule goes on to given places. -/
theorem lasts_rule {owner : Schema} {rule : Rule} {use : Use} {schemas : List Schema}
    {ids : List ValidatorId}
    (h : List.Forall₂ (fun schema (id : ValidatorId) => w.stands[id.index]? = some schema)
      schemas ids) (used : ∀ schema ∈ schemas, owner.Uses graph use schema)
    (uses : rule.uses = ids.map (use, ·)) (plain : ∀ name test, rule ≠ .format name test) :
    Lasts (pure (some rule)) (pure (some rule)) w (IsTied owner) := by
  refine lasts_pure (fun rule' same => ?_)
  cases same
  exact Rule.tied_of_forall₂ h used uses plain

section Families

variable (settle : Settle recur recur' w) {owner : Schema} {use : Use} {place : String}
include settle

theorem lasts_list {schemas : List Schema} (inside : ∀ schema ∈ schemas, member schema) :
    Lasts (list recur schemas place) (list recur' schemas place) w fun ids w' =>
      List.Forall₂ (fun schema (id : ValidatorId) => w'.stands[id.index]? = some schema)
        schemas ids := by
  have loop : Lasts (list recur schemas place) (list recur' schemas place) w fun ids w' =>
      List.Forall₂ (fun numbered (id : ValidatorId) => w'.stands[id.index]? = some numbered.1)
        schemas.zipIdx ids := by
    refine lasts_mapM (Q := fun (numbered : Schema × Nat) (id : ValidatorId)
      (w' : Layout compiler graph member) => w'.stands[id.index]? = some numbered.1)
      (fun _ _ _ _ up h => getElem?_mono up.1 h) ?_
    rintro ⟨schema, position⟩ mem w' up
    exact settle w' up schema _ (inside schema (Check.mem_of_mem_zipIdx mem))
  refine loop.mono (fun ids w' _ h => ?_)
  have mapped : List.Forall₂ (fun schema (id : ValidatorId) => w'.stands[id.index]? = some schema)
      (schemas.zipIdx.map (·.1)) ids := List.forall₂_map_left_iff.2 h
  rwa [List.zipIdx_map_fst] at mapped

/-- The places of a map of schemas. -/
theorem lasts_map {schemas : List (String × Schema)}
    (inside : ∀ entry ∈ schemas, member entry.2) :
    Lasts (map recur schemas place) (map recur' schemas place) w fun ids w' =>
      List.Forall₂ (fun schema (id : ValidatorId) => w'.stands[id.index]? = some schema)
        (schemas.map (·.2)) (ids.map (·.2)) := by
  have loop : Lasts (map recur schemas place) (map recur' schemas place) w fun ids w' =>
      List.Forall₂ (fun (entry : String × Schema) (entry' : String × ValidatorId) =>
        w'.stands[entry'.2.index]? = some entry.2) schemas ids := by
    refine lasts_mapM (Q := fun (entry : String × Schema) (entry' : String × ValidatorId)
      (w' : Layout compiler graph member) => w'.stands[entry'.2.index]? = some entry.2)
      (fun _ _ _ _ up h => getElem?_mono up.1 h) ?_
    rintro ⟨name, schema⟩ mem w' up
    exact (settle w' up schema _ (inside (name, schema) mem)).bind
      fun id w'' _ h => lasts_pure h
  exact loop.mono fun ids w' _ h =>
    List.forall₂_map_left_iff.2 (List.forall₂_map_right_iff.2 h)

theorem lasts_ofList {rule : List ValidatorId → Rule} {schemas : List Schema}
    (inside : ∀ schema ∈ schemas, member schema)
    (used : ∀ schema ∈ schemas, owner.Uses graph use schema)
    (uses : ∀ ids, (rule ids).uses = ids.map (use, ·))
    (plain : ∀ ids name test, rule ids ≠ .format name test) :
    Lasts (do return some (rule (← list recur schemas place)))
      (do return some (rule (← list recur' schemas place))) w (IsTied owner) :=
  (lasts_list settle inside).bind fun ids _ _ h => lasts_rule h used (uses ids) (plain ids)

theorem lasts_ofSchema {rule : ValidatorId → Rule} {schema : Schema} (inside : member schema)
    (used : owner.Uses graph use schema) (uses : ∀ id, (rule id).uses = [id].map (use, ·))
    (plain : ∀ id name test, rule id ≠ .format name test) :
    Lasts (do return some (rule (← recur schema place)))
      (do return some (rule (← recur' schema place))) w (IsTied owner) := by
  refine (settle.here inside place).bind fun id _ _ h => ?_
  refine lasts_rule (.cons h .nil) (fun schema' mem => ?_) (uses id) (plain id)
  rw [List.mem_singleton.1 mem]
  exact used

theorem lasts_ofMap {rule : List (String × ValidatorId) → Rule} {schemas : List (String × Schema)}
    (inside : ∀ entry ∈ schemas, member entry.2)
    (used : ∀ entry ∈ schemas, owner.Uses graph use entry.2)
    (uses : ∀ ids, (rule ids).uses = (ids.map (·.2)).map (use, ·))
    (plain : ∀ ids name test, rule ids ≠ .format name test) :
    Lasts (do return some (rule (← map recur schemas place)))
      (do return some (rule (← map recur' schemas place))) w (IsTied owner) :=
  (lasts_map settle inside).bind fun ids _ _ h =>
    lasts_rule h (List.forall_mem_map.2 used) (uses ids) (plain ids)

theorem lasts_ref {uri : String} {target : HandleId}
    (inside : ∀ schema, graph.schema? target = some schema → member schema)
    (used : ∀ schema, graph.schema? target = some schema → owner.Uses graph .target schema) :
    Lasts (do
        let schema ← check (graph.target target)
        return some (.reference (← recur schema uri)))
      (do
        let schema ← check (graph.target target)
        return some (.reference (← recur' schema uri))) w (IsTied owner) := by
  cases bound : graph.schema? target with
  | some schema =>
    have found : graph.target target = .ok schema := by
      unfold SchemaGraph.target
      rw [bound]
      rfl
    rw [found]
    exact lasts_ofSchema settle (inside schema bound) (used schema bound) (fun _ => rfl) nofun
  | none =>
    have finishes : Finishes (graph.target target) := by
      unfold SchemaGraph.target
      rw [bound]
      exact finishes_bind (graph.finishes_handleUri target) (fun _ _ => nofun)
    refine (lasts_check finishes).bind (fun schema w' _ found => ?_)
    have unbound : graph.target target ≠ .ok schema := by
      unfold SchemaGraph.target
      rw [bound]
      cases graph.handleUri target <;> exact nofun
    exact absurd found unbound

theorem lasts_patterns {schemas : List (String × Schema)}
    (inside : ∀ entry ∈ schemas, member entry.2)
    (used : ∀ entry ∈ schemas, owner.Uses graph .inside entry.2) :
    Lasts (do
        let compiled ← map recur schemas place
        let searches ← compiled.mapM fun (pattern, id) => do
          return (← searchOf compiler pattern, id)
        return some (.patternProperties searches))
      (do
        let compiled ← map recur' schemas place
        let searches ← compiled.mapM fun (pattern, id) => do
          return (← searchOf compiler pattern, id)
        return some (.patternProperties searches)) w (IsTied owner) := by
  refine (lasts_map settle inside).bind (fun ids w₁ _ h => ?_)
  have searched : Lasts
      (ids.mapM fun (pattern, id) => do return (← searchOf compiler pattern, id))
      (ids.mapM fun (pattern, id) => do return (← searchOf compiler pattern, id)) w₁
      fun searches _ => List.Forall₂ (fun entry entry' => entry'.2 = entry.2) ids searches := by
    refine lasts_mapM (fun _ _ _ _ _ same => same) ?_
    rintro ⟨pattern, id⟩ - w₂ -
    exact (lasts_search pattern).bind fun _ _ _ _ => lasts_pure rfl
  refine searched.bind (fun searches w₂ up same => ?_)
  have kept : ids.map (·.2) = searches.map (·.2) := by
    rw [← List.forall₂_eq_eq_eq, List.forall₂_map_left_iff, List.forall₂_map_right_iff]
    exact same.imp fun _ _ eq => eq.symm
  rw [kept] at h
  exact lasts_rule (h.imp fun _ _ found => getElem?_mono up.1 found)
    (List.forall_mem_map.2 used) rfl nofun

theorem lasts_additional {schema : Schema} (inside : member schema)
    (used : owner.Uses graph .inside schema) :
    Lasts (additionalRule compiler recur owner schema place)
      (additionalRule compiler recur' owner schema place) w (IsTied owner) := by
  unfold additionalRule
  split
  · exact lasts_none
  · refine (settle.here inside place).bind (fun id w₁ _ h => ?_)
    have searched : Lasts
        ((namesUnder owner Builtin.patternProperties).mapM (searchOf compiler))
        ((namesUnder owner Builtin.patternProperties).mapM (searchOf compiler)) w₁
        fun _ _ => True :=
      (lasts_mapM (Q := fun _ _ _ => True) (fun _ _ _ _ _ _ => trivial)
        fun pattern _ _ _ => lasts_search pattern).mono fun _ _ _ _ => trivial
    refine searched.bind (fun searches w₂ up _ => ?_)
    refine lasts_rule (.cons (getElem?_mono up.1 h) .nil) (fun schema' mem => ?_) rfl nofun
    rw [List.mem_singleton.1 mem]
    exact used

theorem lasts_optional {schema : Option Schema} (inside : ∀ s, schema = some s → member s) :
    Lasts (optional recur schema place) (optional recur' schema place) w fun more w' =>
      List.Forall₂ (fun schema (id : ValidatorId) => w'.stands[id.index]? = some schema)
        schema.toList more.toList := by
  cases schema with
  | none => exact lasts_pure .nil
  | some s =>
    exact (settle.here (inside s rfl) place).bind fun id w' _ h => lasts_pure (.cons h .nil)

/-- The end of the rule of items, after the schemas that `items` names. -/
theorem lasts_surplus {form : ItemsForm} {additional : Option Schema} {every : Option ValidatorId}
    {each : Option (List ValidatorId)} (forbid : Bool)
    (inside : ∀ schema, additional = some schema → member schema)
    (used : ∀ schema ∈ form.schemas ++ additional.toList, owner.Uses graph .inside schema)
    (items : List.Forall₂ (fun schema (id : ValidatorId) => w.stands[id.index]? = some schema)
      form.schemas (every.toList ++ each.getD [])) :
    Lasts (do
        let more ← optional recur (additional.filter (!·.isAlwaysInvalid)) place
        return some (.items every each more forbid place))
      (do
        let more ← optional recur' (additional.filter (!·.isAlwaysInvalid)) place
        return some (.items every each more forbid place)) w (IsTied owner) := by
  have kept : ∀ s, additional.filter (!·.isAlwaysInvalid) = some s → additional = some s :=
    fun s h => (Option.filter_eq_some_iff.1 h).1
  refine (lasts_optional settle fun s h => inside s (kept s h)).bind (fun more w' up h => ?_)
  have listed := List.rel_append (items.imp fun _ _ found => getElem?_mono up.1 found) h
  refine lasts_rule listed (fun schema mem => used schema ?_) rfl nofun
  rcases List.mem_append.1 mem with own | extra
  · exact List.mem_append_left _ own
  · refine List.mem_append_right _ ?_
    rw [Option.mem_toList] at extra ⊢
    exact kept schema extra

theorem lasts_items {form : ItemsForm} {additional : Option Schema}
    (inside : ∀ schema ∈ form.schemas ++ additional.toList, member schema)
    (used : ∀ schema ∈ form.schemas ++ additional.toList, owner.Uses graph .inside schema) :
    Lasts (itemsRule recur form additional place) (itemsRule recur' form additional place) w
      (IsTied owner) := by
  have extra : ∀ schema, additional = some schema → member schema :=
    fun schema h => inside schema (by simp [h])
  unfold itemsRule
  cases form with
  | absent =>
    refine Lasts.bind (Q := fun every w' => every = none) (lasts_pure rfl)
      (fun _ w₁ up₁ hevery => ?_)
    refine Lasts.bind (Q := fun each w' => each = none) (lasts_pure rfl) (fun _ w₂ up₂ heach => ?_)
    refine lasts_surplus (settle.later (up₁.trans up₂)) _ extra used ?_
    rw [hevery, heach]
    exact .nil
  | every schema =>
    have named : Lasts (some <$> recur schema place) (some <$> recur' schema place) w
        fun every w' => List.Forall₂ (fun schema (id : ValidatorId) =>
          w'.stands[id.index]? = some schema) [schema] every.toList :=
      Lasts.map ((settle.here (inside schema (by simp [ItemsForm.schemas])) place).mono
        fun id w' _ h => .cons h .nil)
    refine named.bind (fun every w₁ up₁ h => ?_)
    refine Lasts.bind (Q := fun each w' => each = none) (lasts_pure rfl) (fun _ w₂ up₂ heach => ?_)
    refine lasts_surplus (settle.later (up₁.trans up₂)) _ extra used ?_
    rw [heach, Option.getD_none, List.append_nil]
    exact h.imp fun _ _ found => getElem?_mono up₂.1 found
  | each schemas =>
    refine Lasts.bind (Q := fun every w' => every = none) (lasts_pure rfl)
      (fun _ w₁ up₁ hevery => ?_)
    have named : Lasts (some <$> list recur schemas place) (some <$> list recur' schemas place) w₁
        fun each w' => List.Forall₂ (fun schema (id : ValidatorId) =>
          w'.stands[id.index]? = some schema) schemas (each.getD []) :=
      Lasts.map (lasts_list (settle.later up₁)
        fun schema mem => inside schema (List.mem_append_left _ mem))
    refine named.bind (fun each w₂ up₂ h => ?_)
    refine lasts_surplus (settle.later (up₁.trans up₂)) _ extra used ?_
    rw [hevery]
    exact h

end Families

theorem lasts_count {owner : Schema} {key : String} {rule : Int → Rule} {value : KeywordValue}
    (none : ∀ n, (rule n).uses = []) (plain : ∀ n name test, rule n ≠ .format name test) :
    Lasts (countRule key rule value) (countRule key rule value) w (IsTied owner) := by
  unfold countRule
  split
  · split
    · exact lasts_plain (none _) (plain _)
    · exact lasts_throw nofun
  · exact lasts_throw nofun

theorem lasts_multiple {owner : Schema} (n : Number) :
    Lasts (do
        return some (.multipleOf (.number n) (← check (n.fraction.mapError .noFraction))))
      (do return some (.multipleOf (.number n) (← check (n.fraction.mapError .noFraction)))) w
      (IsTied owner) :=
  (lasts_check (finishes_mapError nofun _)).bind fun _ _ _ _ => lasts_plain rfl nofun

theorem lasts_format {owner : Schema} (name : String) :
    Lasts (pure ((compiler.formats.lookup name).map (.format name)))
      (pure ((compiler.formats.lookup name).map (.format name))) w (IsTied owner) := by
  refine lasts_pure (fun rule found => ?_)
  obtain ⟨test, known, rfl⟩ := Option.map_eq_some_iff.1 found
  refine ⟨nofun, fun name' test' same => ?_⟩
  cases same
  exact known

/-- Compiling a keyword of a schema gives a rule that is tied to the schema. -/
theorem lasts_ruleOf (apart : graph.TellsApart member) (settle : Settle recur recur' w)
    {owner : Schema} (owned : member owner) {keyword : Keyword} {assertion : Assertion}
    {value : KeywordValue} (asserts : owner.Asserts keyword assertion value) (place : String) :
    Lasts (ruleOf compiler graph recur owner assertion value place)
      (ruleOf compiler graph recur' owner assertion value place) w (IsTied owner) := by
  have used : ∀ use schema, (use, schema) ∈ Meaning.uses graph assertion value →
      owner.Uses graph use schema :=
    fun use schema mem => ⟨keyword, assertion, value, asserts, mem⟩
  have inside : ∀ use schema, (use, schema) ∈ Meaning.uses graph assertion value →
      member schema :=
    fun use schema mem => apart.closed owner owned use schema (used use schema mem)
  clear asserts
  unfold ruleOf
  dsimp only
  split
  -- type, disallow, enum, const
  iterate 7 exact lasts_plain rfl (by simp)
  -- allOf, extends, anyOf
  iterate 3
    exact lasts_ofList settle
      (fun schema mem => inside .beside schema (List.mem_map_of_mem mem))
      (fun schema mem => used .beside schema (List.mem_map_of_mem mem)) (fun _ => rfl) (by simp)
  -- oneOf, not, $ref
  · exact lasts_ofList settle
      (fun schema mem => inside .judged schema (List.mem_map_of_mem mem))
      (fun schema mem => used .judged schema (List.mem_map_of_mem mem)) (fun _ => rfl) (by simp)
  · next schema =>
    have listed := List.mem_singleton_self (Use.judged, schema)
    exact lasts_ofSchema settle (inside .judged schema listed) (used .judged schema listed)
      (fun _ => rfl) (by simp)
  · next ref uri target =>
    have listed : ∀ schema, graph.schema? target = some schema →
        (Use.target, schema) ∈ Meaning.uses graph .ref (.reference ref uri target) := by
      intro schema bound
      simp [Meaning.uses, bound]
    exact lasts_ref settle (fun schema bound => inside .target schema (listed schema bound))
      (fun schema bound => used .target schema (listed schema bound))
  -- format
  · exact lasts_format _
  · next other _ =>
    have finishes : Finishes other.checkPlain := by
      unfold Json.checkPlain
      split <;> (intro out; cases out)
    exact (lasts_check finishes).bind fun _ _ _ _ => lasts_none
  -- multipleOf, divisibleBy, minimum, maximum
  · exact lasts_multiple _
  · exact lasts_multiple _
  iterate 4 exact lasts_plain rfl (by simp)
  -- lengths, pattern
  iterate 6 exact lasts_count (fun _ => rfl) (by simp)
  · exact (lasts_search _).bind fun _ _ _ _ => lasts_plain rfl (by simp)
  -- items, uniqueItems, contains
  · exact lasts_items settle (fun schema mem => inside .inside schema (List.mem_map_of_mem mem))
      (fun schema mem => used .inside schema (List.mem_map_of_mem mem))
  · split
    · exact lasts_plain rfl (by simp)
    · exact lasts_none
  · next schema =>
    have listed := List.mem_singleton_self (Use.inside, schema)
    exact lasts_ofSchema settle (inside .inside schema listed) (used .inside schema listed)
      (fun _ => rfl) (by simp)
  -- members
  · exact lasts_ofMap settle
      (fun entry mem => inside .inside entry.2 (List.mem_map.2 ⟨entry, mem, rfl⟩))
      (fun entry mem => used .inside entry.2 (List.mem_map.2 ⟨entry, mem, rfl⟩))
      (fun _ => rfl) (by simp)
  · exact lasts_patterns settle
      (fun entry mem => inside .inside entry.2 (List.mem_map.2 ⟨entry, mem, rfl⟩))
      (fun entry mem => used .inside entry.2 (List.mem_map.2 ⟨entry, mem, rfl⟩))
  · next schema =>
    have listed := List.mem_singleton_self (Use.inside, schema)
    exact lasts_additional settle (inside .inside schema listed) (used .inside schema listed)
  · exact lasts_plain rfl (by simp)
  · exact lasts_none
  · next schema =>
    have listed := List.mem_singleton_self (Use.inside, schema)
    exact lasts_ofSchema settle (inside .inside schema listed) (used .inside schema listed)
      (fun _ => rfl) (by simp)
  · exact lasts_ofMap settle
      (fun entry mem => inside .beside entry.2 (List.mem_map.2 ⟨entry, mem, rfl⟩))
      (fun entry mem => used .beside entry.2 (List.mem_map.2 ⟨entry, mem, rfl⟩))
      (fun _ => rfl) (by simp)
  -- a value of another kind
  · exact lasts_throw (by simp)

/-! ### The places of schemas -/

theorem lasts_checkOf (apart : graph.TellsApart member) (settle : Settle recur recur' w)
    {owner : Schema} (owned : member owner) {keyword : Keyword} {value : KeywordValue}
    (mem : (keyword, value) ∈ owner.keywords) (location : String) :
    Lasts (checkOf compiler graph recur owner location keyword value)
      (checkOf compiler graph recur' owner location keyword value) w fun check w' =>
        ∀ check', check = some check' → check'.rule.Tied compiler graph w'.stands owner := by
  unfold checkOf
  split
  · refine lasts_pure (fun check found => ?_)
    cases found
  · next assertion known =>
    refine (lasts_ruleOf apart settle owned ⟨mem, known⟩ _).bind (fun rule w' _ tied => ?_)
    refine lasts_pure (fun check found => ?_)
    obtain ⟨rule', same, rfl⟩ := Option.map_eq_some_iff.1 found
    exact tied rule' same

/-- Looking a schema up finds a place that stands for it. -/
theorem lasts_known (apart : graph.TellsApart member) {schema : Schema}
    (owned : member schema) :
    Lasts (known? schema) (known? schema) w fun found w' => w = w' ∧
      (∀ id : ValidatorId, found = some id → w.stands[id.index]? = some schema) ∧
      (found = none → ∀ id, schema.id? = some id → w.state.known.lookup id = none) := by
  refine ⟨rfl, ?_⟩
  cases schema with
  | always => exact after_pure ⟨rfl, nofun, fun _ _ absent => nomatch absent⟩
  | never => exact after_pure ⟨rfl, nofun, fun _ _ absent => nomatch absent⟩
  | node id location draft keywords =>
    refine after_get_bind (after_pure ⟨rfl, fun place known => ?_, fun unknown id' same => ?_⟩)
    · obtain ⟨other, stands, named⟩ := w.known_stands id place known
      have member_other := w.members other (List.mem_of_getElem? stands)
      rw [stands, apart.distinct _ other id owned member_other rfl named]
    · cases same
      exact unknown

theorem lasts_enter {schema : Schema} (location : String) (owned : member schema) :
    Lasts (enter schema location) (enter schema location) w fun id w' =>
      id = ⟨w.stands.length⟩ ∧ w' = w.entered location owned := by
  have run : (enter schema location).run.run w.state =
      (.ok ⟨w.stands.length⟩, (w.entered location owned).state) := by
    rw [← w.size_eq]
    cases schema <;> rfl
  exact ⟨rfl, after_of_ok run (w.le_entered location owned) rfl ⟨rfl, rfl⟩⟩

/-- A place that stands for a schema is in the table and can be filled, unless it has checks. -/
theorem lasts_fill {schema : Schema} {i : Nat} (stands : w.stands[i]? = some schema)
    {checks : List Check}
    (tied : ∀ check ∈ checks, check.rule.Tied compiler graph w.stands schema) :
    Lasts (fill ⟨i⟩ checks) (fill ⟨i⟩ checks) w fun _ _ => True := by
  refine ⟨rfl, after_get_bind ?_⟩
  have bound : i < w.state.validators.size := by
    rw [w.size_eq]
    exact (List.getElem?_eq_some_iff.1 stands).1
  dsimp only
  rw [Array.getElem?_eq_getElem bound]
  unfold Validator.fill
  dsimp only
  split
  · exact after_of_error rfl nofun
  · exact after_of_ok rfl (w.le_filled stands _ checks tied) rfl trivial

/-- Entering a schema, working out its checks and filling its place. -/
theorem lasts_bracket {schema : Schema} (location : String) (owned : member schema)
    {work work' : Compile (List Check)}
    (h : Lasts work work' (w.entered location owned) fun checks w' =>
      ∀ check ∈ checks, check.rule.Tied compiler graph w'.stands schema) :
    Lasts (do
        let id ← enter schema location
        let checks ← work
        fill id checks
        return id)
      (do
        let id ← enter schema location
        let checks ← work'
        fill id checks
        return id) w fun id w' => w'.stands[id.index]? = some schema := by
  refine (lasts_enter location owned).bind ?_
  rintro _ _ - ⟨rfl, rfl⟩
  refine h.bind (fun checks w' up tied => ?_)
  have stands : w'.stands[w.stands.length]? = some schema :=
    getElem?_mono up.1 List.getElem?_concat_length
  refine (lasts_fill stands tied).bind (fun _ w'' up' _ => lasts_pure ?_)
  exact getElem?_mono up'.1 stands

/-- The checks of a schema are tied to it, if compiling the schemas in a node settles them. -/
theorem lasts_checksOf (apart : graph.TellsApart member) {schema : Schema}
    (owned : member schema) (location : String)
    (settle : ∀ id, schema.id? = some id → Settle recur recur' w) :
    Lasts (checksOf compiler graph recur schema location)
      (checksOf compiler graph recur' schema location) w fun checks w' =>
        ∀ check ∈ checks, check.rule.Tied compiler graph w'.stands schema := by
  unfold checksOf
  cases invalid : schema.isAlwaysInvalid with
  | true =>
    refine lasts_pure (fun check mem => ?_)
    rw [List.mem_singleton.1 mem]
    exact Rule.tied_plain rfl (by simp)
  | false =>
    have node : ∀ entry ∈ schema.keywords, ∃ id, schema.id? = some id := by
      cases schema with
      | always => exact fun _ listed => absurd listed List.not_mem_nil
      | never => cases invalid
      | node id place draft keywords => exact fun _ _ => ⟨id, rfl⟩
    refine Lasts.bind (lasts_mapM (Q := fun _ check (w' : Layout compiler graph member) =>
      ∀ check', check = some check' → check'.rule.Tied compiler graph w'.stands schema)
      (fun _ _ _ _ up tied check' same => (tied check' same).mono up.1) ?_) ?_
    · intro entry mem w' up
      obtain ⟨id, named⟩ := node entry mem
      exact lasts_checkOf apart ((settle id named).later up) owned mem location
    · intro checks w' _ tied
      refine lasts_pure (fun check mem => ?_)
      obtain ⟨check', listed, same⟩ := List.mem_filterMap.1 mem
      obtain ⟨_, _, h⟩ := exists_of_forall₂ tied.flip listed
      exact h check same

/-- Compiling a schema gives it a place, if compiling the schemas in it does from where a node among
them has its own. -/
theorem lasts_schemaWith (apart : graph.TellsApart member) {schema : Schema}
    (owned : member schema) (fallback : String)
    (settle : ∀ id location, schema.id? = some id → w.state.known.lookup id = none →
      Settle recur recur' (w.entered location owned)) :
    Lasts (schemaWith compiler graph recur schema fallback)
      (schemaWith compiler graph recur' schema fallback) w fun id w' =>
        w'.stands[id.index]? = some schema := by
  rw [schemaWith_eq, schemaWith_eq]
  refine (lasts_known apart owned).bind ?_
  rintro found _ - ⟨rfl, known, unknown⟩
  cases found with
  | some id => exact lasts_pure (known id rfl)
  | none =>
    have inner : ∀ location, Lasts (placeAt compiler graph recur schema location)
        (placeAt compiler graph recur' schema location) w fun id w' =>
          w'.stands[id.index]? = some schema := fun location =>
      lasts_bracket location owned (lasts_checksOf apart owned location
        fun id named => settle id location named (unknown rfl id named))
    dsimp only
    split
    · next location _ =>
      cases location.absoluteUri with
      | ok uri => exact inner uri
      | error fault => exact lasts_throw (by simp)
    · exact inner fallback

/-- Compiling at most `depth` schemas deep does not run out and is the same as compiling deeper, if
fewer than `depth` nodes have no place yet. -/
theorem lasts_schemaWithin (apart : graph.TellsApart member) (depth depth' : Nat)
    (enough : w.unplaced < depth) (enough' : w.unplaced < depth') :
    Settle (schemaWithin compiler graph depth) (schemaWithin compiler graph depth') w := by
  induction depth generalizing depth' w with
  | zero => exact absurd enough (Nat.not_lt_zero _)
  | succ depth ih =>
    cases depth' with
    | zero => exact absurd enough' (Nat.not_lt_zero _)
    | succ depth' =>
      intro w' up schema place owned
      refine lasts_schemaWith apart owned place (fun id location named fresh => ?_)
      have given := apart.given schema id owned named
      have fewer := w'.unplaced_entered location owned named given fresh
      have before := up.2
      exact ih depth' (by omega) (by omega)

end Compile

end JsonSchema
