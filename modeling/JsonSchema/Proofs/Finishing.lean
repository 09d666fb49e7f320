import JsonSchema.Loading.Cache
import JsonSchema.Loading.Digest
import JsonSchema.Proofs.Run
import JsonSchema.Schema.Builder

/-!
# Computations that finish

Only where recursion is bounded by a number can a computation fail with the fault `exhausted`. All
others finish (`Finishes`): they give a value or another fault. This holds of everything that loading
asks about single keyword values, documents and handles.
-/

namespace JsonSchema

/-- The computation does not run out of a recursion bound. -/
def Finishes {α : Type} (x : Except Fault α) : Prop :=
  x ≠ .error .exhausted

section Rules

variable {α β : Type}

theorem finishes_ok (a : α) : Finishes (.ok a) :=
  nofun

theorem finishes_bind {x : Except Fault α} {f : α → Except Fault β} (first : Finishes x)
    (rest : ∀ a, x = .ok a → Finishes (f a)) : Finishes (x >>= f) := by
  cases x with
  | ok a => exact rest a rfl
  | error fault =>
    intro fails
    cases fails
    exact first rfl

theorem finishes_mapError {ε : Type} {wrap : ε → Fault} (other : ∀ e, wrap e ≠ .exhausted)
    (x : Except ε α) : Finishes (x.mapError wrap) := by
  cases x with
  | ok a => exact nofun
  | error e =>
    intro fails
    exact other e (Except.error.inj fails)

theorem finishes_badUri (x : Except Uri.UriFault α) : Finishes (x.mapError Fault.badUri) := by
  refine finishes_mapError (fun fault same => ?_) x
  cases same

theorem finishes_foldlM {f : β → α → Except Fault β} (each : ∀ b a, Finishes (f b a))
    (xs : List α) (init : β) : Finishes (xs.foldlM f init) := by
  induction xs generalizing init with
  | nil => exact finishes_ok init
  | cons x rest ih =>
    rw [List.foldlM_cons]
    exact finishes_bind (each init x) (fun b _ => ih b)

theorem finishes_forM {f : α → Except Fault Unit} (each : ∀ a, Finishes (f a)) (xs : List α) :
    Finishes (xs.forM f) := by
  induction xs with
  | nil => exact finishes_ok _
  | cons x rest ih => exact finishes_bind (each x) (fun _ _ => ih)

end Rules

/-! ## Keyword values -/

theorem finishes_elements (value : Json) : Finishes value.elements := by
  cases value <;> exact nofun

namespace Digest

theorem finishes_names (key : String) (value : Json) (allowEmpty : Bool) :
    Finishes (names key value allowEmpty) := by
  unfold names
  repeat' split
  all_goals exact nofun

theorem finishes_required (key : String) (value : Json) (draft : Draft) :
    Finishes (required key value draft) := by
  unfold required
  split
  · exact finishes_ok _
  · exact finishes_bind (finishes_names _ _ _) (fun _ _ => finishes_ok _)

theorem finishes_dependency (key name : String) (value : Json) (draft : Draft) :
    Finishes (dependency key name value draft) := by
  unfold dependency
  split
  · exact finishes_ok _
  · exact finishes_names _ _ _

theorem finishes_checkSchemaList (key : String) (value : Json) :
    Finishes (checkSchemaList key value) := by
  unfold checkSchemaList
  split <;> exact nofun

theorem finishes_leaf (key : String) (kind : KeywordKind) (value : Json) :
    Finishes (leaf key kind value) := by
  unfold leaf
  split
  case h_5 => exact finishes_bind (finishes_elements value) (fun _ _ => finishes_ok _)
  all_goals exact nofun

theorem finishes_addType (key : String) (draft : Draft) (types : List InstanceType)
    (value : Json) : Finishes (addType key draft types value) := by
  unfold addType
  repeat' split
  all_goals exact nofun

theorem finishes_types (key : String) (value : Json) (draft : Draft) :
    Finishes (types key value draft) := by
  have rest : ∀ named : List Json, Finishes (do
      let types ← named.foldlM (addType key draft) []
      return .types (Keyword.ordered InstanceType.all types) : Except Fault KeywordValue) :=
    fun named => finishes_bind (finishes_foldlM (finishes_addType key draft) _ _)
      (fun _ _ => finishes_ok _)
  have listed : ∀ named : List Json, Finishes (do
      if named.isEmpty && draft ≠ .draft3 then throw (.keywordValue key .noTypes)
      let types ← named.foldlM (addType key draft) []
      return .types (Keyword.ordered InstanceType.all types) : Except Fault KeywordValue) := by
    intro named
    dsimp only
    split
    · exact nofun
    · exact rest named
  unfold types
  dsimp only
  split
  · exact listed [_]
  · exact finishes_bind (finishes_elements value) (fun named _ => listed named)

theorem finishes_make (bound : Option Json) (flag : Bool) (exclusive : Option Json) :
    Finishes (Limit.make bound flag exclusive) := by
  unfold Limit.make
  repeat' split
  all_goals exact nofun

theorem finishes_limit (key exclusiveKey : String) (bound exclusive : Option Json)
    (draft : Draft) : Finishes (limit key exclusiveKey bound exclusive draft) := by
  have made : ∀ (bound exclusive : Option Json) (flag : Bool),
      Finishes (do return some (← Limit.make bound flag exclusive) :
        Except Fault (Option Limit)) :=
    fun _ _ _ => finishes_bind (finishes_make _ _ _) (fun _ _ => finishes_ok _)
  unfold limit
  dsimp only
  split
  · exact nofun
  · split
    · unfold twoLimits
      split
      · exact nofun
      · exact made _ _ _
    · unfold flaggedLimit
      split
      · exact nofun
      · exact nofun
      · exact made _ _ _

end Digest

theorem finishes_makeDependencies (names : List (String × List String))
    (schemas : List (String × Schema)) :
    Finishes (KeywordValue.makeDependencies names schemas) := by
  unfold KeywordValue.makeDependencies
  split <;> exact nofun

/-! ## Builders -/

namespace SchemaBuilder

theorem finishes_checkPattern (key pattern : String) : Finishes (checkPattern key pattern) := by
  unfold checkPattern
  split <;> exact nofun

theorem finishes_checkPatternValue (key : String) (value : Json) :
    Finishes (checkPatternValue key value) := by
  unfold checkPatternValue
  split
  · exact finishes_checkPattern _ _
  · exact finishes_checkPattern _ _
  all_goals exact nofun

theorem finishes_check (keyword : Keyword) (value : KeywordValue) :
    Finishes (check keyword value) := by
  unfold check
  repeat' split
  all_goals first
    | exact finishes_checkPatternValue _ _
    | exact finishes_forM (finishes_checkPattern _) _
    | (intro fails; cases fails)

variable (builder : SchemaBuilder)

theorem finishes_put (keyword : Keyword) (value : KeywordValue) :
    Finishes (builder.put keyword value) :=
  finishes_bind (finishes_check keyword value) (fun _ _ => finishes_ok _)

theorem finishes_items (every : Option Schema) (each : Option (List Schema)) :
    Finishes (builder.items every each) := by
  unfold items
  dsimp only
  repeat' split
  all_goals first
    | exact builder.finishes_put _ _
    | exact nofun

theorem finishes_additionalItems (schema : Schema) : Finishes (builder.additionalItems schema) :=
  builder.finishes_put _ _

end SchemaBuilder

/-! ## Documents and handles -/

namespace Cache

theorem finishes_findIn (uri base fragment : String) (index : List (String × Pointer)) :
    Finishes (findIn uri base fragment index) := by
  unfold findIn
  repeat' split
  all_goals exact nofun

theorem finishes_findAmong (uri base fragment : String)
    (documents : List (String × StoredDocument)) :
    Finishes (findAmong uri base fragment documents) := by
  induction documents with
  | nil => exact finishes_ok _
  | cons first rest ih =>
    rw [findAmong]
    refine finishes_bind (finishes_badUri _) (fun index _ => ?_)
    refine finishes_bind (finishes_findIn _ _ _ _) (fun found _ => ?_)
    split
    · exact finishes_ok _
    · exact ih

theorem finishes_findById (cache : Cache) (uri : String) : Finishes (cache.findById uri) := by
  refine finishes_bind (finishes_badUri _) (fun uri _ => ?_)
  exact finishes_bind (finishes_badUri _) (fun parts _ => finishes_findAmong _ _ _ _)

theorem finishes_addDocument (cache : Cache) (uri : String) (document : Document)
    (draft : Draft) : Finishes (cache.addDocument uri document draft) := by
  refine finishes_bind (finishes_badUri _) (fun uri _ => ?_)
  dsimp only
  repeat' split
  all_goals exact nofun

end Cache

namespace SchemaGraph

theorem finishes_handleUri (graph : SchemaGraph) (id : HandleId) :
    Finishes (graph.handleUri id) := by
  unfold handleUri
  split
  · exact finishes_badUri _
  · exact nofun

theorem finishes_bindHandle (graph : SchemaGraph) (id : HandleId) (schema : Schema) :
    Finishes (graph.bind id schema) := by
  unfold bind
  split
  · split
    · exact finishes_ok _
    · exact finishes_bind (graph.finishes_handleUri id) (fun _ _ => nofun)
  · exact nofun

end SchemaGraph

end JsonSchema
