import JsonSchema.Proofs.Compilable
import JsonSchema.Proofs.Evaluation
import JsonSchema.Proofs.Serving
import Mathlib.Data.List.Induction
import Mathlib.Tactic.FinCases

/-!
# Filled tables

Compiling changes its table in two ways: a schema takes the next place, which is empty at first, or
the schema at a place gets its checks (`Compilation.Change`). The changes of a whole run are a list,
and the table is what they lead to from nothing (`Compilation.replay`). Each change is lawful where it
stands in the list: a node takes a place only if it has none, and the checks that a schema gets are
those that its keywords were compiled to (`Compilation.Lawful`).

* `Lawful.known_iff`, `Lawful.count_fills`, `Lawful.compiled`: what lawful changes lead to.
* `Compile.ends_schemaWithin`: compiling a schema makes lawful changes that leave no place empty but
  those that were so before.
* `CompiledSchema.ofSchema_filled`: in the table of a compiled schema every place that the root leads to
  was filled once, with what the keywords of its schema were compiled to, and a node that is used has
  one place, whatever uses it or refers to it.

Nothing is assumed about the schemas but that no two nodes have one identity; cycles are allowed.
-/

namespace JsonSchema

/-! ## Changes -/

namespace Compilation

/-- A change of the table: a schema takes the next place, or a place gets its checks. -/
inductive Change where
  | entered (schema : Schema) (location : String)
  | filled (place : ValidatorId) (checks : List Check)

/-- The schema that takes a place. -/
def Change.entrant? : Change → Option Schema
  | .entered schema _ => some schema
  | .filled _ _ => none

/-- Whether a place gets its checks. -/
def Change.fills (place : ValidatorId) : Change → Bool
  | .entered _ _ => false
  | .filled other _ => other = place

/-- The table after a change. -/
def apply (table : Compilation) : Change → Compilation
  | .entered schema location =>
    { validators := table.validators.push (.unfilled location)
      known := Stage.withPlace table.known schema ⟨table.validators.size⟩ }
  | .filled place checks =>
    { table with
      validators := table.validators.modify place.index fun validator =>
        { validator with checks := some checks } }

/-- The table that changes lead to from nothing. -/
def replay (changes : List Change) : Compilation :=
  changes.foldl apply .empty

/-- The schemas that have taken a place, in the order of their places. -/
def entrants (changes : List Change) : List Schema :=
  changes.filterMap Change.entrant?

/-- A schema has taken a place. -/
abbrev Taken (changes : List Change) (schema : Schema) (place : ValidatorId) : Prop :=
  (entrants changes)[place.index]? = some schema

variable {changes : List Change} {schema : Schema} {location : String} {place : ValidatorId}
  {checks : List Check}

theorem replay_snoc (changes : List Change) (change : Change) :
    replay (changes ++ [change]) = (replay changes).apply change := by
  rw [replay, List.foldl_append]
  rfl

theorem entrants_entered :
    entrants (changes ++ [.entered schema location]) = entrants changes ++ [schema] :=
  List.filterMap_append

theorem entrants_filled : entrants (changes ++ [.filled place checks]) = entrants changes := by
  rw [entrants, List.filterMap_append]
  exact List.append_nil _

theorem entrants_mono {changes changes' : List Change} (more : changes <+: changes') :
    entrants changes <+: entrants changes' := by
  obtain ⟨later, rfl⟩ := more
  rw [entrants, entrants, List.filterMap_append]
  exact List.prefix_append _ _

theorem Taken.mono {changes changes' : List Change} (more : changes <+: changes')
    (taken : Taken changes schema place) : Taken changes' schema place :=
  getElem?_mono (entrants_mono more) taken

/-- Every schema that has taken a place has one. -/
theorem size_replay (changes : List Change) :
    (replay changes).validators.size = (entrants changes).length := by
  induction changes using List.reverseRecOn with
  | nil => rfl
  | append_singleton changes change ih =>
    rw [replay_snoc]
    cases change with
    | entered schema location =>
      rw [entrants_entered, List.length_append, ← ih]
      exact Array.size_push _
    | filled place checks =>
      rw [entrants_filled, ← ih]
      exact Array.size_modify

/-- The checks at a place, if it is in the table and has got them. -/
def checksAt (table : Compilation) (i : Nat) : Option (List Check) :=
  (table.validators[i]?).bind (·.checks)

theorem checksAt_entered (table : Compilation) (i : Nat) :
    (table.apply (.entered schema location)).checksAt i = table.checksAt i := by
  unfold checksAt apply
  rw [Array.getElem?_push]
  split
  · next last =>
    rw [last, Array.getElem?_size]
    rfl
  · rfl

theorem checksAt_filled {table : Compilation} {validator : Validator}
    (found : table.validators[place.index]? = some validator) (i : Nat) :
    (table.apply (.filled place checks)).checksAt i =
      if place.index = i then some checks else table.checksAt i := by
  unfold checksAt apply
  rw [Array.getElem?_modify]
  split
  · next same =>
    subst same
    rw [found]
    rfl
  · rfl

/-! ## Lawful changes -/

/-- What compiling a keyword of a schema gave in the course of the changes: the run of the keyword
made some of them, and its rule goes on to places that serve the schemas of the keyword. -/
structure Gave (compiler : Compiler) (graph : SchemaGraph) (changes : List Change) (owner : Schema)
    (location : String) (keyword : Keyword) (value : KeywordValue) (check : Option Check) :
    Prop where
  run : ∃ depth before after, before <+: after ∧ after <+: changes ∧
    (Compile.checkOf compiler graph (Compile.schemaWithin compiler graph depth) owner location
      keyword value).run.run (replay before) = (.ok check, replay after)
  serves : ∀ assertion, Assertion.ofKey? keyword.key = some assertion →
    Served (Taken changes) (Meaning.uses graph assertion value)
      (Rule.placesOf (check.map (·.rule)))

/-- The checks that a schema is compiled to: one that nothing passes, or those that its keywords
gave, in their order. -/
inductive Compiles (compiler : Compiler) (graph : SchemaGraph) (changes : List Change)
    (schema : Schema) (location : String) : List Check → Prop
  | nothing (invalid : schema.isAlwaysInvalid = true) :
    Compiles compiler graph changes schema location
      [{ keyword := none, location, rule := .nothing }]
  | keywords {given : List (Option Check)} (demanding : schema.isAlwaysInvalid = false)
    (each : List.Forall₂ (fun entry check =>
      Gave compiler graph changes schema location entry.1 entry.2 check) schema.keywords given) :
    Compiles compiler graph changes schema location (given.filterMap fun check => check)

/-- Changes that compiling may make one after the other: a node takes a place if it has none, at its
own location if it has one, and an empty place gets what its schema is compiled to. -/
inductive Lawful (compiler : Compiler) (graph : SchemaGraph) : List Change → Prop
  | nil : Lawful compiler graph []
  | entered {changes : List Change} {schema : Schema} {location : String}
    (before : Lawful compiler graph changes)
    (fresh : ∀ id, schema.id? = some id → (replay changes).known.lookup id = none)
    (located : ∀ own, schema.location? = some own → own.absoluteUri = .ok location) :
    Lawful compiler graph (changes ++ [.entered schema location])
  | filled {changes : List Change} {place : ValidatorId} {schema : Schema} {location : String}
    {checks : List Check} (before : Lawful compiler graph changes)
    (stands : Taken changes schema place)
    (empty : (replay changes).validators[place.index]? = some (.unfilled location))
    (compiles : Compiles compiler graph changes schema location checks) :
    Lawful compiler graph (changes ++ [.filled place checks])

section Lawful

variable {compiler : Compiler} {graph : SchemaGraph}

theorem Gave.mono {changes' : List Change} (more : changes <+: changes') {owner : Schema}
    {keyword : Keyword} {value : KeywordValue} {check : Option Check}
    (gave : Gave compiler graph changes owner location keyword value check) :
    Gave compiler graph changes' owner location keyword value check where
  run := by
    obtain ⟨depth, before, after, up, within, run⟩ := gave.run
    exact ⟨depth, before, after, up, within.trans more, run⟩
  serves assertion known := (gave.serves assertion known).mono fun _ _ => Taken.mono more

theorem Compiles.mono {changes' : List Change} (more : changes <+: changes')
    (compiles : Compiles compiler graph changes schema location checks) :
    Compiles compiler graph changes' schema location checks := by
  cases compiles with
  | nothing invalid => exact .nothing invalid
  | keywords demanding each => exact .keywords demanding (each.imp fun _ _ gave => gave.mono more)

/-- A node is known at the places that stand for it, and at no other. -/
theorem Lawful.known_iff (lawful : Lawful compiler graph changes) (id : SchemaId)
    (place : ValidatorId) : (replay changes).known.lookup id = some place ↔
      ∃ schema, (entrants changes)[place.index]? = some schema ∧ schema.id? = some id := by
  induction lawful with
  | nil => exact ⟨nofun, nofun⟩
  | @entered changes schema location _ fresh _ ih =>
    rw [replay_snoc, entrants_entered, apply, Stage.lookup_withPlace, Option.or_eq_some_iff, ih]
    constructor
    · rintro (⟨other, found, named⟩ | ⟨-, new⟩)
      · exact ⟨other, getElem?_mono (List.prefix_append _ _) found, named⟩
      · split at new
        · next named =>
          cases new
          refine ⟨schema, ?_, named⟩
          rw [size_replay]
          exact List.getElem?_concat_length
        · cases new
    · rintro ⟨other, found, named⟩
      rcases Nat.lt_trichotomy place.index (entrants changes).length with old | new | beyond
      · rw [List.getElem?_append_left old] at found
        exact .inl ⟨other, found, named⟩
      · rw [new, List.getElem?_concat_length] at found
        cases found
        refine .inr ⟨fresh id named, ?_⟩
        rw [if_pos named, size_replay, ← new]
      · rw [List.getElem?_eq_none (by simp; omega)] at found
        cases found
  | filled _ _ _ _ ih =>
    rw [replay_snoc, entrants_filled]
    exact ih

/-- No two places stand for one node. -/
theorem Lawful.once (lawful : Lawful compiler graph changes) {i j : Nat} {schema other : Schema}
    {id : SchemaId} (at_i : (entrants changes)[i]? = some schema)
    (at_j : (entrants changes)[j]? = some other) (named : schema.id? = some id)
    (named' : other.id? = some id) : i = j := by
  have known := (lawful.known_iff id ⟨i⟩).2 ⟨schema, at_i, named⟩
  have known' := (lawful.known_iff id ⟨j⟩).2 ⟨other, at_j, named'⟩
  rw [known] at known'
  cases known'
  rfl

/-- A place was filled once if it has checks, and never otherwise. -/
theorem Lawful.count_fills (lawful : Lawful compiler graph changes) (i : Nat) :
    changes.countP (·.fills ⟨i⟩) = if ((replay changes).checksAt i).isSome then 1 else 0 := by
  induction lawful with
  | nil => rfl
  | entered _ _ _ ih =>
    rw [replay_snoc, checksAt_entered, List.countP_append, ih]
    rfl
  | @filled changes place schema location checks _ _ empty _ ih =>
    rw [replay_snoc, checksAt_filled empty, List.countP_append, ih, List.countP_singleton]
    by_cases same : place.index = i
    · subst same
      have unfilled : (replay changes).checksAt place.index = none := by
        rw [checksAt, empty]
        rfl
      have fills : (Change.filled place checks).fills ⟨place.index⟩ = true := decide_eq_true rfl
      rw [unfilled, fills, if_pos (rfl : place.index = place.index)]
      rfl
    · have spares : (Change.filled place checks).fills ⟨i⟩ = false :=
        decide_eq_false fun h => same (congrArg ValidatorId.index h)
      rw [spares, if_neg same]
      rfl

/-- The checks at a place are what the schema that it stands for is compiled to. -/
theorem Lawful.compiled (lawful : Lawful compiler graph changes) {i : Nat} {schema : Schema}
    {location : String} {checks : List Check} (stands : (entrants changes)[i]? = some schema)
    (found : (replay changes).validators[i]? = some { location, checks := some checks }) :
    Compiles compiler graph changes schema location checks := by
  induction lawful with
  | nil => cases found
  | @entered changes entrant at_location _ _ _ ih =>
    rw [replay_snoc, apply, Array.getElem?_push] at found
    split at found
    · cases found
    · next old =>
      have bound : i < (entrants changes).length := by
        rw [← size_replay]
        exact (Array.getElem?_eq_some_iff.1 found).1
      rw [entrants_entered, List.getElem?_append_left bound] at stands
      exact (ih stands found).mono (List.prefix_append _ _)
  | @filled changes place filled at_location checks' _ stands' empty compiles ih =>
    rw [entrants_filled] at stands
    rw [replay_snoc, apply, Array.getElem?_modify] at found
    split at found
    · next same =>
      subst same
      rw [empty] at found
      cases found
      cases stands.symm.trans stands'
      exact compiles.mono (List.prefix_append _ _)
    · exact (ih stands found).mono (List.prefix_append _ _)

end Lawful

end Compilation

/-! ## Compiling changes the table lawfully -/

/-- The schemas of a graph as far as their places rely on them: they are closed under use, and no two
nodes have one identity. -/
structure SchemaGraph.Separates (graph : SchemaGraph) (member : Schema → Prop) : Prop where
  closed : ∀ owner, member owner → ∀ use schema, owner.Uses graph use schema → member schema
  distinct : ∀ schema other id, member schema → member other → schema.id? = some id →
    other.id? = some id → schema = other

open Compilation in
/-- The changes of a run so far. -/
structure Ledger (compiler : Compiler) (graph : SchemaGraph) (member : Schema → Prop) where
  changes : List Change
  lawful : Lawful compiler graph changes
  members : ∀ schema ∈ entrants changes, member schema

namespace Ledger

open Compilation

variable {compiler : Compiler} {graph : SchemaGraph} {member : Schema → Prop}

/-- A place that is still empty, with its location. -/
def Empty (w : Ledger compiler graph member) (i : Nat) (location : String) : Prop :=
  (replay w.changes).validators[i]? = some (.unfilled location)

/-- Changes are added at the end. A run is complete if the same places are empty as before. -/
instance : Tabled (Ledger compiler graph member) where
  le w w' := w.changes <+: w'.changes ∧ ∀ i location, w'.Empty i location ↔ w.Empty i location
  le_refl w := ⟨List.prefix_rfl, fun _ _ => Iff.rfl⟩
  le_trans _ _ _ h h' := ⟨h.1.trans h'.1, fun i location => (h'.2 i location).trans (h.2 i location)⟩
  state w := replay w.changes
  StandsFor w := Taken w.changes
  later up := Taken.mono up.1

/-- The ledger before compiling. -/
def empty (compiler : Compiler) (graph : SchemaGraph) (member : Schema → Prop) :
    Ledger compiler graph member where
  changes := []
  lawful := .nil
  members := List.forall_mem_nil member

variable (w : Ledger compiler graph member) {schema : Schema} {location : String}

/-- The ledger in which a schema has taken the next place. -/
def entered (owned : member schema)
    (fresh : ∀ id, schema.id? = some id → (replay w.changes).known.lookup id = none)
    (located : ∀ own, schema.location? = some own → own.absoluteUri = .ok location) :
    Ledger compiler graph member where
  changes := w.changes ++ [.entered schema location]
  lawful := .entered w.lawful fresh located
  members := by
    intro schema' mem
    rw [entrants_entered] at mem
    rcases List.mem_append.1 mem with old | new
    · exact w.members schema' old
    · rw [List.mem_singleton.1 new]
      exact owned

/-- The ledger in which an empty place has got its checks. -/
def filled {place : ValidatorId} {checks : List Check}
    (stands : Taken w.changes schema place)
    (empty : w.Empty place.index location)
    (compiles : Compiles compiler graph w.changes schema location checks) :
    Ledger compiler graph member where
  changes := w.changes ++ [.filled place checks]
  lawful := .filled w.lawful stands empty compiles
  members := by
    rw [entrants_filled]
    exact w.members

theorem Empty.lt {w : Ledger compiler graph member} {i : Nat} (h : w.Empty i location) :
    i < (entrants w.changes).length := by
  rw [← size_replay]
  exact (Array.getElem?_eq_some_iff.1 h).1

theorem empty_entered {owned : member schema}
    {fresh : ∀ id, schema.id? = some id → (replay w.changes).known.lookup id = none}
    {located : ∀ own, schema.location? = some own → own.absoluteUri = .ok location} {i : Nat}
    {other : String} : (w.entered owned fresh located).Empty i other ↔
      w.Empty i other ∨ i = (entrants w.changes).length ∧ other = location := by
  have step : (w.entered owned fresh located).Empty i other ↔
      (if i = (entrants w.changes).length then some (.unfilled location)
        else (replay w.changes).validators[i]?) = some (.unfilled other) := by
    unfold Empty entered
    simp only [replay_snoc, apply, Array.getElem?_push, size_replay]
  rw [step]
  split
  · next last =>
    constructor
    · intro same
      cases same
      exact .inr ⟨last, rfl⟩
    · rintro (old | ⟨-, rfl⟩)
      · exact absurd last (Nat.ne_of_lt old.lt)
      · rfl
  · next inner => exact ⟨.inl, fun h => h.resolve_right fun last => inner last.1⟩

theorem empty_filled {place : ValidatorId} {checks : List Check}
    {stands : Taken w.changes schema place}
    {empty : w.Empty place.index location}
    {compiles : Compiles compiler graph w.changes schema location checks} {i : Nat}
    {other : String} :
    (w.filled stands empty compiles).Empty i other ↔ w.Empty i other ∧ i ≠ place.index := by
  have step : (w.filled stands empty compiles).Empty i other ↔
      (if place.index = i then
        ((replay w.changes).validators[i]?).map fun validator =>
          { validator with checks := some checks }
        else (replay w.changes).validators[i]?) = some (.unfilled other) := by
    unfold Empty filled
    simp only [replay_snoc, apply, Array.getElem?_modify]
  rw [step]
  split
  · next same =>
    subst same
    have found : (replay w.changes).validators[place.index]? = some (.unfilled location) := empty
    rw [found]
    exact ⟨nofun, fun h => absurd rfl h.2⟩
  · next apart => exact ⟨fun h => ⟨h, fun same => apart same.symm⟩, fun h => h.1⟩

end Ledger

namespace Compile

open Compilation Tabled

variable {compiler : Compiler} {graph : SchemaGraph} {member : Schema → Prop}
  {w : Ledger compiler graph member} {recur : SchemaCompiler}

/-- A run that ends may be kept beside what holds of its end. -/
theorem ends_run {α : Type} {act : Compile α} {Q : α → Ledger compiler graph member → Prop}
    (h : Ends act w Q) : Ends act w fun a w' => Q a w' ∧
      act.run.run (replay w.changes) = (.ok a, replay w'.changes) := by
  refine after_anyhow (fun a s run => ?_)
  obtain ⟨w', up, rfl, holds⟩ := h.of_ok run
  exact ⟨w', up, rfl, holds, run⟩

/-- Compiling a keyword gives what the ledger then says it gave. -/
theorem ends_checkOf (separates : graph.Separates member) {depth : Nat}
    (seats : Seats (Ledger compiler graph member) member (schemaWithin compiler graph depth))
    {owner : Schema} (owned : member owner) {keyword : Keyword} {value : KeywordValue}
    (mem : (keyword, value) ∈ owner.keywords) (location : String) :
    Ends (checkOf compiler graph (schemaWithin compiler graph depth) owner location keyword value)
      w fun check w' => Gave compiler graph w'.changes owner location keyword value check := by
  have serves : Ends
      (checkOf compiler graph (schemaWithin compiler graph depth) owner location keyword value) w
      fun check w' => ∀ assertion, Assertion.ofKey? keyword.key = some assertion →
        Served (Taken w'.changes) (Meaning.uses graph assertion value)
          (Rule.placesOf (check.map (·.rule))) := by
    unfold checkOf
    split
    · next unknown =>
      refine after_pure (fun assertion known => ?_)
      rw [unknown] at known
      cases known
    · next assertion known =>
      have inside : ∀ use schema, (use, schema) ∈ Meaning.uses graph assertion value →
          member schema := fun use schema listed =>
        separates.closed owner owned use schema ⟨keyword, assertion, value, ⟨mem, known⟩, listed⟩
      refine after_bind (serves_ruleOf seats inside _) (fun rule w' up serves => ?_)
      refine after_pure (fun assertion' known' => ?_)
      rw [known] at known'
      cases known'
      cases rule <;> exact serves
  refine after_mono (ends_run serves) (fun check w' up holds => ?_)
  obtain ⟨served, run⟩ := holds
  exact ⟨⟨depth, w.changes, w'.changes, up.1, List.prefix_rfl, run⟩, served⟩

/-- The checks of a schema are what it is compiled to. -/
theorem ends_checksOf (separates : graph.Separates member) {depth : Nat}
    (seats : Seats (Ledger compiler graph member) member (schemaWithin compiler graph depth))
    {schema : Schema} (owned : member schema) (location : String) :
    Ends (checksOf compiler graph (schemaWithin compiler graph depth) schema location) w
      fun checks w' => Compiles compiler graph w'.changes schema location checks := by
  unfold checksOf
  cases invalid : schema.isAlwaysInvalid with
  | true => exact after_pure (.nothing invalid)
  | false =>
    refine after_bind (after_mapM (Q := fun (entry : Keyword × KeywordValue) check
      (w' : Ledger compiler graph member) =>
        Gave compiler graph w'.changes schema location entry.1 entry.2 check)
      (fun _ _ w w' (up : w ≤ w') gave => gave.mono up.1) _ ?_) (fun given w' _ each => ?_)
    · exact fun entry mem w' _ => ends_checkOf separates seats owned mem location
    · exact after_pure (.keywords invalid each)

/-- Looking a schema up finds the place that stands for it. -/
theorem ends_known (separates : graph.Separates member) {schema : Schema} (owned : member schema) :
    Ends (known? schema) w fun found w' =>
      (∀ id, found = some id → StandsFor w' schema id) ∧
      (found = none → ∀ id, schema.id? = some id →
        (replay w'.changes).known.lookup id = none) := by
  cases schema with
  | always => exact after_pure ⟨nofun, fun _ _ absent => nomatch absent⟩
  | never => exact after_pure ⟨nofun, fun _ _ absent => nomatch absent⟩
  | node id location draft keywords =>
    refine after_get_bind (after_pure ⟨fun place known => ?_, fun unknown id' same => ?_⟩)
    · obtain ⟨other, stands, named⟩ := (w.lawful.known_iff id place).1 known
      have listed := w.members other (List.mem_of_getElem? stands)
      rw [separates.distinct _ other id owned listed rfl named]
      exact stands
    · cases same
      exact unknown

theorem run_enter (schema : Schema) (location : String) (table : Compilation) :
    (enter schema location).run.run table =
      (.ok ⟨table.validators.size⟩, table.apply (.entered schema location)) := by
  cases schema <;> rfl

theorem run_fill_apply {place : ValidatorId} {location : String} (checks : List Check)
    {table : Compilation} (empty : table.validators[place.index]? = some (.unfilled location)) :
    (fill place checks).run.run table = (.ok ⟨⟩, table.apply (.filled place checks)) := by
  have changed : table.validators.set! place.index { location, checks := some checks } =
      table.validators.modify place.index (fun validator =>
        { validator with checks := some checks }) := by
    refine Array.ext_getElem? fun i => ?_
    rw [Array.set!_eq_setIfInBounds, Array.getElem?_setIfInBounds, Array.getElem?_modify]
    split
    · next same =>
      subst same
      rw [empty, if_pos (Array.getElem?_eq_some_iff.1 empty).1]
      rfl
    · rfl
  rw [show place = ⟨place.index⟩ from rfl, run_fill empty checks, changed]
  rfl

/-- A schema takes a place, its checks are worked out, and the place gets them: the same places are
empty as before. -/
theorem ends_bracket {schema : Schema} {location : String} (owned : member schema)
    (fresh : ∀ id, schema.id? = some id → (replay w.changes).known.lookup id = none)
    (located : ∀ own, schema.location? = some own → own.absoluteUri = .ok location)
    {work : Compile (List Check)}
    (h : Ends work (w.entered owned fresh located) fun checks w' =>
      Compiles compiler graph w'.changes schema location checks) :
    Ends (do
      let id ← enter schema location
      let checks ← work
      fill id checks
      return id) w fun id w' => StandsFor w' schema id := by
  refine after_anyhow (fun id s run => ?_)
  rw [run_bind_ok (run_enter schema location _)] at run
  obtain ⟨checks, s₁, run₁, rest⟩ := run_bind_eq_ok run
  have start : (Tabled.state w).apply (.entered schema location) =
      Tabled.state (w.entered owned fresh located) := (replay_snoc _ _).symm
  rw [start] at run₁
  obtain ⟨w₁, up, rfl, compiles⟩ := h.of_ok run₁
  generalize index : ValidatorId.mk (Tabled.state w).validators.size = place at rest
  have last : place.index = (entrants w.changes).length := by
    rw [← index]
    exact size_replay w.changes
  have stands : Taken w₁.changes schema place := by
    refine getElem?_mono (entrants_mono up.1) ?_
    rw [last, Ledger.entered, entrants_entered]
    exact List.getElem?_concat_length
  have empty : w₁.Empty place.index location :=
    (up.2 _ _).2 (w.empty_entered.2 (.inr ⟨last, rfl⟩))
  rw [run_bind_ok (run_fill_apply checks empty : (fill place checks).run.run (Tabled.state w₁) = _)]
    at rest
  cases rest
  refine ⟨w₁.filled stands empty compiles, ⟨?_, fun i other => ?_⟩, replay_snoc _ _, ?_⟩
  · exact ((List.prefix_append _ _).trans up.1).trans (List.prefix_append _ _)
  · rw [w₁.empty_filled, up.2 i other, w.empty_entered]
    constructor
    · rintro ⟨old | new, apart⟩
      · exact old
      · exact absurd (new.1.trans last.symm) apart
    · exact fun old => ⟨.inl old, fun same => absurd (same.trans last) (Nat.ne_of_lt old.lt)⟩
  · refine Eq.trans ?_ stands
    exact congrArg (·[id.index]?) entrants_filled

/-- Compiling a schema makes lawful changes and gives it a place. -/
theorem ends_schemaWithin (separates : graph.Separates member) (depth : Nat) :
    Seats (Ledger compiler graph member) member (schemaWithin compiler graph depth) := by
  induction depth with
  | zero => exact fun w schema place owned => after_throw trivial
  | succ depth ih =>
    intro w schema fallback owned
    unfold schemaWithin
    rw [schemaWith_eq]
    refine after_bind (ends_known separates owned) (fun found w₁ _ known => ?_)
    cases found with
    | some id => exact after_pure (known.1 id rfl)
    | none =>
      have inner : ∀ location,
          (∀ own, schema.location? = some own → own.absoluteUri = .ok location) →
          Ends (placeAt compiler graph (schemaWithin compiler graph depth) schema location) w₁
            fun id w' => StandsFor w' schema id := fun location located =>
        ends_bracket owned (known.2 rfl) located (ends_checksOf separates ih owned location)
      dsimp only
      split
      · next own at_own =>
        cases uri : own.absoluteUri with
        | ok location =>
          refine inner location (fun own' same => ?_)
          rw [at_own] at same
          cases same
          exact uri
        | error fault => exact after_throw trivial
      · next nowhere => exact inner fallback fun own same => by rw [nowhere] at same; cases same

end Compile

/-! ## Filled tables -/

/-- A place that the root of a compiled schema leads to, through the places that rules go on to. -/
inductive CompiledSchema.LeadsTo (compiled : CompiledSchema) : ValidatorId → Prop
  | root : LeadsTo compiled compiled.root
  | step {place next : ValidatorId} {validator : Validator} {check : Check} {use : Use}
    (before : LeadsTo compiled place)
    (found : compiled.table[place.index]? = some validator) (mem : check ∈ validator.checkList)
    (goes : (use, next) ∈ check.rule.uses) : LeadsTo compiled next

/-- A schema that compiling another one asks a place for: a keyword uses it, unless it is for the
values inside and accepts everything or nothing. -/
def Schema.Needs (graph : SchemaGraph) (owner schema : Schema) : Prop :=
  owner.isAlwaysInvalid = false ∧ ∃ use, owner.Uses graph use schema ∧
    ¬ (use = .inside ∧ (schema.isAlwaysValid = true ∨ schema.isAlwaysInvalid = true))

section Filled

open Compilation

variable {compiler : Compiler} {graph : SchemaGraph}

/-- A place that was filled once, with what the schema that it stands for is compiled to. -/
def Compilation.FilledAt (compiler : Compiler) (graph : SchemaGraph) (changes : List Change)
    (place : ValidatorId) : Prop :=
  changes.countP (·.fills place) = 1 ∧ ∃ schema location checks,
    Taken changes schema place ∧
    (replay changes).validators[place.index]? = some { location, checks := some checks } ∧
    Compiles compiler graph changes schema location checks

/-- Lawful changes that leave no place empty have filled each place once. -/
theorem Compilation.Lawful.filledAt {changes : List Change}
    (lawful : Lawful compiler graph changes)
    (full : ∀ (i : Nat) location,
      (replay changes).validators[i]? ≠ some (Validator.unfilled location))
    {place : ValidatorId} {schema : Schema}
    (stands : Taken changes schema place) :
    FilledAt compiler graph changes place := by
  have bound : place.index < (replay changes).validators.size := by
    rw [size_replay]
    exact (List.getElem?_eq_some_iff.1 stands).1
  obtain ⟨validator, found⟩ : ∃ validator,
      (replay changes).validators[place.index]? = some validator :=
    ⟨_, Array.getElem?_eq_getElem bound⟩
  obtain ⟨location, checks⟩ := validator
  cases checks with
  | none => exact absurd found (full place.index location)
  | some checks =>
    refine ⟨?_, schema, location, checks, stands, found, lawful.compiled stands found⟩
    rw [lawful.count_fills place.index, checksAt, found]
    rfl

/-- The check that a keyword gave is among those of its schema. -/
theorem Compilation.Compiles.exists_place {changes : List Change} {owner schema : Schema}
    {location : String} {checks : List Check}
    (compiles : Compiles compiler graph changes owner location checks)
    (needs : owner.Needs graph schema) : ∃ check ∈ checks, ∃ use id,
      (use, id) ∈ check.rule.uses ∧ Taken changes schema id := by
  obtain ⟨demanding, use, ⟨keyword, assertion, value, ⟨mem, known⟩, listed⟩, kept⟩ := needs
  cases compiles with
  | nothing invalid =>
    rw [demanding] at invalid
    cases invalid
  | keywords _ each =>
    obtain ⟨check, given, gave⟩ := exists_of_forall₂ each mem
    obtain ⟨id, place, stands⟩ :=
      ((gave.serves assertion known).exists_place listed).resolve_right kept
    cases check with
    | none => cases place
    | some check => exact ⟨check, List.mem_filterMap.2 ⟨_, given, rfl⟩, use, id, place, stands⟩

/-- Only keywords with an assertion give checks. -/
theorem Compilation.Gave.exists_assertion {changes : List Change} {owner : Schema}
    {location : String} {keyword : Keyword} {value : KeywordValue} {check : Check}
    (gave : Gave compiler graph changes owner location keyword value (some check)) :
    ∃ assertion, Assertion.ofKey? keyword.key = some assertion := by
  obtain ⟨depth, before, after, _, _, run⟩ := gave.run
  cases known : Assertion.ofKey? keyword.key with
  | some assertion => exact ⟨assertion, rfl⟩
  | none =>
    unfold Compile.checkOf at run
    rw [known] at run
    cases run

/-- The places that the rules of a schema go on to stand for schemas. -/
theorem Compilation.Compiles.exists_stands {changes : List Change} {owner : Schema}
    {location : String} {checks : List Check}
    (compiles : Compiles compiler graph changes owner location checks) {check : Check}
    (mem : check ∈ checks) {use : Use} {id : ValidatorId} (goes : (use, id) ∈ check.rule.uses) :
    ∃ schema, Taken changes schema id := by
  cases compiles with
  | nothing invalid =>
    rw [List.mem_singleton.1 mem] at goes
    cases goes
  | keywords _ each =>
    obtain ⟨_, given, rfl⟩ := List.mem_filterMap.1 mem
    obtain ⟨entry, _, gave⟩ := exists_of_forall₂ each.flip given
    obtain ⟨assertion, known⟩ := gave.exists_assertion
    obtain ⟨schema, _, stands⟩ := (gave.serves assertion known).exists_need goes
    exact ⟨schema, stands⟩

/-- In the table of a compiled schema no place that the root leads to is empty. Lawful changes lead to
the table. Each of these places was filled once, with what the schema that it stands for is compiled
to; no two places stand for one node, so whatever uses a node or refers to it goes on to the same
place; and every schema that compiling asks a place for has one. -/
theorem CompiledSchema.ofSchema_filled {root : Schema} {compiled : CompiledSchema}
    (distinct : ∀ schema other id, root.Reaches graph schema → root.Reaches graph other →
      schema.id? = some id → other.id? = some id → schema = other)
    (ok : CompiledSchema.ofSchema compiler graph root = .ok compiled) :
    ∃ changes, Lawful compiler graph changes ∧ compiled.table = (replay changes).validators ∧
      Taken changes root compiled.root ∧
      (∀ place, compiled.LeadsTo place → FilledAt compiler graph changes place) ∧
      (∀ (place other : ValidatorId) schema id, schema.id? = some id →
        Taken changes schema place →
        Taken changes schema other → place = other) ∧
      ∀ schema, Relation.ReflTransGen (Schema.Needs graph) root schema →
        ∃ place, compiled.LeadsTo place ∧ Taken changes schema place := by
  have separates : graph.Separates (root.Reaches graph) :=
    ⟨fun owner reached use schema used => reached.tail ⟨use, used⟩, distinct⟩
  have ends := Compile.ends_schemaWithin separates (graph.nextNode + 2)
    (Ledger.empty compiler graph (root.Reaches graph)) root "#" .refl
  unfold CompiledSchema.ofSchema at ok
  split at ok
  · next id state run =>
    cases ok
    obtain ⟨w, up, rfl, stands⟩ := ends.of_ok run
    have full : ∀ (i : Nat) location,
        (replay w.changes).validators[i]? ≠ some (Validator.unfilled location) := by
      intro i location empty
      cases (up.2 i location).1 empty
    -- every place that the root leads to stands for a schema
    have stood : ∀ place, CompiledSchema.LeadsTo ⟨(replay w.changes).validators, id⟩ place →
        ∃ schema, Taken w.changes schema place := by
      intro place leads
      induction leads with
      | root => exact ⟨root, stands⟩
      | step _ found mem goes ih =>
        obtain ⟨owner, owned⟩ := ih
        obtain ⟨_, _, location, checks, _, at_place, compiles⟩ := w.lawful.filledAt full owned
        rw [at_place] at found
        cases found
        exact compiles.exists_stands mem goes
    refine ⟨w.changes, w.lawful, rfl, stands, fun place leads => ?_, ?_, fun schema needed => ?_⟩
    · obtain ⟨schema, found⟩ := stood place leads
      exact w.lawful.filledAt full found
    · intro place other schema id named at_place at_other
      cases place
      cases other
      exact congrArg ValidatorId.mk (w.lawful.once at_place at_other named named)
    · induction needed with
      | refl => exact ⟨id, .root, stands⟩
      | tail _ needs ih =>
        obtain ⟨place, leads, owned⟩ := ih
        obtain ⟨_, owner, location, checks, owned', at_place, compiles⟩ :=
          w.lawful.filledAt full owned
        cases owned.symm.trans owned'
        obtain ⟨check, mem, use, next, goes, found⟩ := compiles.exists_place needs
        exact ⟨next, .step leads at_place mem goes, found⟩
  · cases ok

end Filled

/-! ### Two references to one schema -/

namespace Shared

/-- A schema that refers to the handle of the root. -/
def back (id : SchemaId) : Schema :=
  .node id none .draft6 [(Builtin.ref, .reference "#" "#" ⟨0⟩)]

/-- A schema whose two properties are as it is itself. -/
def root : Schema :=
  .node ⟨0⟩ none .draft6 [(Builtin.properties, .schemaMap [("a", back ⟨1⟩), ("b", back ⟨2⟩)])]

/-- The graph of this schema. -/
def graph : SchemaGraph where
  handles := #[{ location := default, schema := some root }]
  nextNode := 3

theorem mem_of_reaches {schema : Schema} (reaches : root.Reaches graph schema) :
    schema ∈ [root, back ⟨1⟩, back ⟨2⟩] := by
  have ref : Assertion.ofKey? Builtin.ref.key = some .ref := by decide
  have properties : Assertion.ofKey? Builtin.properties.key = some .properties := by decide
  have target : ∀ id use inner, (back id).Uses graph use inner → inner = root := by
    rintro id use inner ⟨keyword, assertion, value, ⟨mem, known⟩, listed⟩
    cases List.mem_singleton.1 mem
    rw [ref] at known
    cases known
    cases List.mem_singleton.1 listed
    rfl
  induction reaches with
  | refl => exact List.mem_cons_self
  | @tail owner schema _ step ih =>
    obtain ⟨use, used⟩ := step
    rcases List.mem_cons.1 ih with rfl | inner
    · obtain ⟨keyword, assertion, value, ⟨mem, known⟩, listed⟩ := used
      cases List.mem_singleton.1 mem
      rw [properties] at known
      cases known
      obtain ⟨entry, named, same⟩ := List.mem_map.1 listed
      cases same
      fin_cases named
      · exact List.mem_cons_of_mem _ List.mem_cons_self
      · exact List.mem_cons_of_mem _ (List.mem_cons_of_mem _ List.mem_cons_self)
    · have back : ∃ id, owner = back id := by
        rcases List.mem_cons.1 inner with same | last
        · exact ⟨_, same⟩
        · exact ⟨_, List.mem_singleton.1 last⟩
      obtain ⟨id, rfl⟩ := back
      rw [target id use _ used]
      exact List.mem_cons_self

theorem distinct {schema other : Schema} {id : SchemaId} (reaches : root.Reaches graph schema)
    (reaches' : root.Reaches graph other) (named : schema.id? = some id)
    (named' : other.id? = some id) : schema = other := by
  have mem := mem_of_reaches reaches
  have mem' := mem_of_reaches reaches'
  fin_cases mem <;> fin_cases mem' <;> cases named <;> first | rfl | cases named'

end Shared

theorem shared_filled : ∃ compiled,
    CompiledSchema.ofSchema Loop.compiler Shared.graph Shared.root = .ok compiled ∧
    compiled.table.size = 3 ∧ ∃ changes, compiled.table = (Compilation.replay changes).validators ∧
      ∀ place, compiled.LeadsTo place →
        Compilation.FilledAt Loop.compiler Shared.graph changes place := by
  obtain ⟨compiled, ok, three⟩ : ∃ compiled,
      CompiledSchema.ofSchema Loop.compiler Shared.graph Shared.root = .ok compiled ∧
      compiled.table.size = 3 := ⟨_, rfl, rfl⟩
  obtain ⟨changes, _, table, _, filled, _⟩ :=
    CompiledSchema.ofSchema_filled (fun _ _ _ => Shared.distinct) ok
  exact ⟨compiled, ok, three, changes, table, filled⟩

end JsonSchema
