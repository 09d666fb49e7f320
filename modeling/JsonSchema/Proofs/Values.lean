import JsonSchema.Proofs.Loading
import JsonSchema.Proofs.Settings

/-!
# Values of keywords

One rule for each function that loads the value of a keyword, over a function that loads schemas
(`Load.LoadsIn`), in any setting. From a world in which the parts of the value are to be loaded
(`Load.AreDue`), it works, and if no error was recorded, what it gives says what the value says.
-/

namespace JsonSchema

/-! ## Members that are put in -/

namespace Members

variable {κ α : Type} [DecidableEq κ] {members : List (κ × α)} {key : κ}

theorem put_new (value : α) (absent : key ∉ keys members) :
    put members key value = members ++ [(key, value)] := by
  induction members with
  | nil => rfl
  | cons first rest ih =>
    obtain ⟨other, old⟩ := first
    have different : other ≠ key := by
      rintro rfl
      exact absent List.mem_cons_self
    rw [put, if_neg different, ih (fun mem => absent (List.mem_cons_of_mem _ mem))]
    rfl

theorem put_last (old value : α) (absent : key ∉ keys members) :
    put (members ++ [(key, old)]) key value = members ++ [(key, value)] := by
  induction members with
  | nil => exact if_pos rfl
  | cons first rest ih =>
    obtain ⟨other, before⟩ := first
    have different : other ≠ key := by
      rintro rfl
      exact absent List.mem_cons_self
    rw [List.cons_append, put, if_neg different,
      ih (fun mem => absent (List.mem_cons_of_mem _ mem))]
    rfl

end Members

/-! ## Names of values -/

namespace Digest

theorem names_ok {key : String} {value : Json} {allowEmpty : Bool} {texts : List String}
    (ok : names key value allowEmpty = .ok texts) :
    ∃ items, value = .array items ∧ Json.texts? items = some texts := by
  unfold names at ok
  split at ok
  · next items =>
    split at ok
    · cases ok
    · split at ok
      · cases ok
      · next found =>
        split at ok
        · cases ok
          exact ⟨items, rfl, found⟩
        · cases ok
  · cases ok

end Digest

namespace Load

open Setting

variable {Ω : Type} [Preorder Ω] [Setting Ω] {w : Ω} {load : NodeLoader}

/-- The rule of a function that loads values as schemas. -/
def LoadsIn (Ω : Type) [Preorder Ω] [Setting Ω] (load : NodeLoader) : Prop :=
  ∀ (w : Ω) (value : Json) (location : Location) (draft : Draft),
    Setting.IsDue w location value draft → Works (load value location draft) w
      (fun schema w' => IsClean w' → IsLoaded w' location value draft schema)

/-- A loop that loads parts. -/
theorem works_each {α : Type} {f : α → Load Schema} (location : Location) (draft : Draft)
    (part : α → Pointer × Json) (xs : List α)
    (each : ∀ x ∈ xs, ∀ w', w ≤ w' → Works (f x) w' (fun schema w'' => IsClean w'' →
      Below w'' location draft (part x).1 (part x).2 schema)) :
    Works (xs.mapM f) w (fun schemas w' => IsClean w' → List.Forall₂
      (fun x schema => Below w' location draft (part x).1 (part x).2 schema)
      xs schemas) := by
  refine after_mono (after_mapM ?_ xs each) (fun schemas w' _ all clean => ?_)
  · intro x schema w₁ w₂ up loaded clean
    exact Below.mono up (loaded (clean.anti up))
  · exact all.imp (fun x schema loaded => loaded clean)

/-- The parts of a keyword's value are to be loaded below a location. -/
def AreDue (w : Ω) (location : Location) (draft : Draft) (key : String)
    (parts : List (Pointer × Json)) : Prop :=
  ∀ part ∈ parts, Setting.IsDue w (location.child (key :: part.1)) part.2 draft

/-- Entries that are no schemas have their names, the others a schema that was loaded. -/
structure ReadsDependencies (sub : Sub) (key : String) (draft : Draft)
    (entries : List (String × Json)) (names : List (String × List String))
    (schemas : List (String × Schema)) : Prop where
  needed : List.Forall₂ (fun entry needed => needed.1 = entry.1 ∧
    Digest.dependency key entry.1 entry.2 draft = .ok needed.2)
    (entries.filter (!isSchemaEntry ·)) names
  loaded : List.Forall₂ (ReadsEntry sub) (entries.filter isSchemaEntry) schemas

namespace ReadsDependencies

variable {sub sub' : Sub} {key : String} {draft : Draft} {entries : List (String × Json)}
  {names : List (String × List String)} {schemas : List (String × Schema)}
  {entry : String × Json} (reads : ReadsDependencies sub key draft entries names schemas)

include reads

theorem mono (up : ∀ way part schema, sub way part schema → sub' way part schema) :
    ReadsDependencies sub' key draft entries names schemas :=
  ⟨reads.needed, reads.loaded.imp (fun _ _ => ReadsEntry.mono up)⟩

/-- One entry more, with names. -/
theorem name {needed : List String} (plain : isSchemaEntry entry = false)
    (ok : Digest.dependency key entry.1 entry.2 draft = .ok needed) :
    ReadsDependencies sub key draft (entries ++ [entry]) (names ++ [(entry.1, needed)])
      schemas where
  needed := by
    rw [List.filter_append, List.filter_singleton, plain, Bool.not_false, cond_true]
    exact List.rel_append reads.needed (.cons ⟨rfl, ok⟩ .nil)
  loaded := by
    rw [List.filter_append, List.filter_singleton, plain, cond_false, List.append_nil]
    exact reads.loaded

/-- One entry more, with a schema. -/
theorem schema {schema : Schema} (isSchema : isSchemaEntry entry = true)
    (given : sub [entry.1] entry.2 schema) :
    ReadsDependencies sub key draft (entries ++ [entry]) names
      (schemas ++ [(entry.1, schema)]) where
  needed := by
    rw [List.filter_append, List.filter_singleton, isSchema, Bool.not_true, cond_false,
      List.append_nil]
    exact reads.needed
  loaded := by
    rw [List.filter_append, List.filter_singleton, isSchema, cond_true]
    exact List.rel_append reads.loaded (.cons ⟨rfl, given⟩ .nil)

end ReadsDependencies

section Below

variable (loads : LoadsIn Ω load)

include loads

variable {location : Location} {draft : Draft} {key : String} {value : Json}

/-- Loading the items of an array. -/
theorem works_items {items : List Json} (due : AreDue w location draft key
      (items.zipIdx.map fun (item, position) => ([toString position], item))) :
    Works (items.zipIdx.mapM fun (item, position) =>
        load item ((location.child [key]).child [toString position]) draft) w
      (fun schemas w' => IsClean w' → List.Forall₂
        (fun part schema => Below w' location draft (key :: part.1) part.2 schema)
        (items.zipIdx.map fun (item, position) => ([toString position], item)) schemas) := by
  refine after_mono (works_each location draft (fun entry => ([key, toString entry.2], entry.1))
    items.zipIdx ?_) ?_
  · rintro ⟨item, position⟩ mem w' up
    have below := due _ (List.mem_map_of_mem mem)
    dsimp only at below ⊢
    rw [Location.child_child]
    exact loads w' item _ draft (Setting.due up below)
  · intro schemas w' _ all clean
    rw [List.forall₂_map_left_iff]
    exact all clean

theorem works_loadList (shaped : (∃ members, value = .object members) ∨ ∃ items, value = .array items)
    (due : AreDue w location draft key (KeywordKind.schemaList.parts value)) :
    Works (loadList load key value (location.child [key]) draft) w
      (fun schemas w' => IsClean w' → List.Forall₂
        (fun part schema => Below w' location draft (key :: part.1) part.2 schema)
        (KeywordKind.schemaList.parts value) schemas) := by
  rcases shaped with ⟨members, rfl⟩ | ⟨items, rfl⟩
  · have below := due ([], .object members) List.mem_cons_self
    refine after_bind (loads w _ _ draft below) (fun schema w₁ _ given => after_pure ?_)
    exact fun clean => .cons (given clean) .nil
  · unfold loadList
    refine works_check_bind (fun _ _ => works_check_bind (fun elements same => ?_))
    cases same
    exact works_items loads due

theorem works_loadMap {members : List (String × Json)}
    (due : AreDue w location draft key
      (members.map fun (name, value) => ([name], value))) :
    Works (loadMap load members (location.child [key]) draft) w
      (fun named w' => IsClean w' → List.Forall₂
        (ReadsEntry fun way => Below w' location draft (key :: way)) members named) := by
  unfold loadMap
  refine after_mono (after_mapM (Q := fun (entry : String × Json) (named : String × Schema) w' =>
    IsClean w' → ReadsEntry (fun way => Below w' location draft (key :: way))
      entry named) ?_ members ?_) (fun named w' _ all clean => all.imp (fun _ _ read => read clean))
  · intro entry named w₁ w₂ up read clean
    exact (read (clean.anti up)).mono (fun _ _ _ => Below.mono up)
  · rintro ⟨name, value⟩ mem w' up
    have below := due _ (List.mem_map_of_mem mem)
    dsimp only at below ⊢
    rw [Location.child_child]
    refine after_bind (loads w' value _ draft (Setting.due up below)) ?_
    exact fun schema w'' _ given => after_pure (fun clean => ⟨rfl, given clean⟩)

/-- The dependencies that are names, and those that are schemas. -/
theorem works_loadDependencies {keyword : Keyword} {members : List (String × Json)}
    (due : AreDue w location draft keyword.key
      (KeywordKind.dependencies.parts (.object members))) :
    Works (loadDependencies load keyword.key members (location.child [keyword.key]) draft) w
      (fun loaded w' => IsClean w' →
        ReadsValue (fun way => Below w' location draft (keyword.key :: way)) keyword
          .dependencies draft (.object members) loaded) := by
  unfold loadDependencies
  dsimp only
  refine after_bind (after_foldlM_done (I := fun done (found : List (String × List String) ×
      List (String × Schema)) w' => IsClean w' →
    ReadsDependencies (fun way => Below w' location draft (keyword.key :: way)) keyword.key draft
      done found.1 found.2) members ([], []) (fun _ => ⟨.nil, .nil⟩) ?_) ?_
  · rintro done ⟨name, value⟩ rest split ⟨names, schemas⟩ w₁ up₁ so_far
    have schema : isSchemaEntry (name, value) = true → Works (do
        let schema ← load value ((location.child [keyword.key]).child [name]) draft
        return (names, schemas ++ [(name, schema)])) w₁
        (fun found w' => IsClean w' →
          ReadsDependencies (fun way => Below w' location draft (keyword.key :: way)) keyword.key
            draft (done ++ [(name, value)]) found.1 found.2) := by
      intro isSchema
      have below : Setting.IsDue w₁ (location.child [keyword.key, name]) value draft := by
        refine Setting.due up₁ (due ([name], value) ?_)
        refine List.mem_filterMap.2 ⟨(name, value), ?_, ?_⟩
        · rw [split]
          exact List.mem_append_right _ List.mem_cons_self
        · cases value <;> first | rfl | cases isSchema
      rw [Location.child_child]
      refine after_bind (loads w₁ value _ draft below) (fun schema w₂ up₂ given => ?_)
      refine after_pure (fun clean => ?_)
      have before := (so_far (clean.anti up₂)).mono (fun _ _ _ => Below.mono up₂)
      exact before.schema isSchema (given clean)
    have plain : isSchemaEntry (name, value) = false → Works (do
        let needed ← check (Digest.dependency keyword.key name value draft)
        return (names ++ [(name, needed)], schemas)) w₁
        (fun found w' => IsClean w' →
          ReadsDependencies (fun way => Below w' location draft (keyword.key :: way)) keyword.key
            draft (done ++ [(name, value)]) found.1 found.2) :=
      fun isPlain => works_check_bind (fun needed ok =>
        after_pure (fun clean => (so_far clean).name isPlain ok))
    dsimp only
    cases value with
    | object inner => exact schema rfl
    | bool b => exact schema rfl
    | _ => exact plain rfl
  · rintro ⟨names, schemas⟩ w₁ _ all
    refine works_check (fun loaded ok clean => ?_)
    obtain ⟨needed, read⟩ := all clean
    refine ⟨members, names, schemas, rfl, ?_, needed, read⟩
    unfold KeywordValue.makeDependencies at ok
    split at ok
    · cases ok
      rfl
    · cases ok

omit loads in
theorem readsValue_plain {sub : Sub} {keyword : Keyword} {kind : KeywordKind} {draft : Draft}
    {value : Json} {loaded : KeywordValue} (noSchema : kind ≠ .schema) (noList : kind ≠ .schemaList)
    (noMap : kind ≠ .schemaMap) (noDependencies : kind ≠ .dependencies)
    (ok : digested keyword kind value draft = .ok loaded) :
    ReadsValue sub keyword kind draft value loaded := by
  unfold ReadsValue
  split
  · exact absurd rfl noSchema
  · exact absurd rfl noList
  · exact absurd rfl noMap
  · exact absurd rfl noDependencies
  · exact ok

/-- The value of a keyword of the drafts. -/
theorem works_loadValue {keyword : Keyword} {shape : Shape} (usual : keyword.IsUsual draft)
    (shaped : value.shape? = some shape) (expected : shape ∈ (keyword.variantFor draft).expects)
    (due : AreDue w location draft keyword.key
      ((keyword.variantFor draft).kind.parts value)) :
    Works (loadValue load keyword (keyword.variantFor draft).kind value location draft) w
      (fun loaded w' => IsClean w' →
        ReadsValue (fun way => Below w' location draft (keyword.key :: way)) keyword
          (keyword.variantFor draft).kind draft value loaded) := by
  have required : keyword = Builtin.required → (keyword.variantFor draft).kind ≠ .dependencies := by
    rintro rfl
    cases draft <;> decide
  have schemas := fun kind => usual.schemas kind shape expected
  generalize (keyword.variantFor draft).kind = kind at due required schemas ⊢
  unfold loadValue
  dsimp only
  split
  · refine after_bind (loads w value _ draft (due ([], value) List.mem_cons_self)) ?_
    exact fun schema w' _ given => after_pure (fun clean => ⟨schema, rfl, given clean⟩)
  · have listed : (∃ members, value = .object members) ∨ ∃ items, value = .array items := by
      cases value with
      | object members => exact .inl ⟨_, rfl⟩
      | array items => exact .inr ⟨_, rfl⟩
      | _ => cases shaped <;> rcases schemas rfl with same | same <;> cases same
    refine after_bind (works_loadList loads listed due) (fun each w' _ loaded => after_pure ?_)
    exact fun clean => ⟨each, rfl, loaded clean⟩
  · cases value with
    | object entries =>
      refine after_bind (works_loadMap loads due) (fun named w' _ loaded => after_pure ?_)
      exact fun clean => ⟨entries, named, rfl, rfl, loaded clean⟩
    | _ => exact works_throw _
  · exact works_check (fun loaded ok _ => ok)
  · next noSchema noList noMap noType =>
    split
    · next isRequired =>
      refine works_check (fun loaded ok _ => readsValue_plain noSchema noList noMap
        (required isRequired) ?_)
      rw [digested, if_neg noType, if_pos isRequired]
      exact ok
    · next notRequired =>
      split
      · refine works_check_bind (fun names ok => after_pure (fun _ => ?_))
        refine readsValue_plain noSchema noList noMap nofun ?_
        rw [digested, if_neg noType, if_neg notRequired, if_pos rfl, ok]
        rfl
      · cases value with
        | object entries => exact works_loadDependencies loads due
        | _ => exact works_throw _
      · next noSet noDependencies =>
        refine works_check (fun loaded ok _ => readsValue_plain noSchema noList noMap
          noDependencies ?_)
        rw [digested, if_neg noType, if_neg notRequired, if_neg noSet]
        exact ok

end Below

end Load

end JsonSchema
