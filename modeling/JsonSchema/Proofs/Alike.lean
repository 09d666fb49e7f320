import JsonSchema.Proofs.Meaning
import JsonSchema.Proofs.Run
import Mathlib.Data.List.Forall2

/-!
# Schemas that say the same

Two keyword values are alike under a relation of schemas if they hold related schemas at the same
positions or under the same names, and otherwise the same (`KeywordValue.Alike`). The order of named
schemas does not matter. Two schemas are alike if each keyword of one has an alike value in the other
(`Schema.Alike`); references are alike to nothing, because what they say depends on the graph.

A value that meets a schema meets every one that is alike, if the verdicts on related schemas carry
over (`Schema.Meets.alike`).
-/

namespace JsonSchema

theorem exists_getElem {α β : Type} {R : α → β → Prop} {xs : List α} {ys : List β}
    (all : List.Forall₂ R xs ys) {position : Nat} {x : α} (here : xs[position]? = some x) :
    ∃ y, ys[position]? = some y ∧ R x y := by
  induction all generalizing position with
  | nil => cases here
  | @cons first second _ _ related _ ih =>
    cases position with
    | zero =>
      cases here
      exact ⟨second, rfl, related⟩
    | succ position => exact ih here

/-! ## Keyword values -/

/-- A plain value in a keyword says the same as another one. -/
structure Json.IsLike (value value' : Json) : Prop where
  equals : ∀ v : Json, v.equals value = v.equals value'
  truthy : value.isTruthy = value'.isTruthy
  string : ∀ text, value = .string text ↔ value' = .string text
  number : ∀ n, value = .number n ↔ value' = .number n

theorem Json.IsLike.refl (value : Json) : value.IsLike value :=
  ⟨fun _ => rfl, rfl, fun _ => Iff.rfl, fun _ => Iff.rfl⟩

theorem Json.IsLike.symm {value value' : Json} (like : value.IsLike value') :
    value'.IsLike value where
  equals v := (like.equals v).symm
  truthy := like.truthy.symm
  string text := (like.string text).symm
  number n := (like.number n).symm

/-- Each entry has a related one under its name. -/
def HaveEntries (rel : Schema → Schema → Prop) (schemas schemas' : List (String × Schema)) : Prop :=
  ∀ name schema, (name, schema) ∈ schemas → ∃ schema', (name, schema') ∈ schemas' ∧ rel schema schema'

/-- Schemas under the same names are related. -/
def AreAlike (rel : Schema → Schema → Prop) (schemas schemas' : List (String × Schema)) : Prop :=
  HaveEntries rel schemas schemas' ∧ HaveEntries (flip rel) schemas' schemas

/-- Two descriptions of the items of an array are alike. -/
def ItemsForm.Alike (rel : Schema → Schema → Prop) : ItemsForm → ItemsForm → Prop
  | .absent, .absent => True
  | .every schema, .every schema' => rel schema schema'
  | .each schemas, .each schemas' => List.Forall₂ rel schemas schemas'
  | _, _ => False

/-- Two keyword values hold related schemas, and otherwise the same. -/
def KeywordValue.Alike (rel : Schema → Schema → Prop) : KeywordValue → KeywordValue → Prop
  | .literal kind value, .literal kind' value' => kind = kind' ∧ value.IsLike value'
  | .stringSet names, .stringSet names' => names = names'
  | .jsonArray values, .jsonArray values' => List.Forall₂ Json.IsLike values values'
  | .schema inner, .schema inner' => rel inner inner'
  | .schemaList schemas, .schemaList schemas' => List.Forall₂ rel schemas schemas'
  | .schemaMap schemas, .schemaMap schemas' => AreAlike rel schemas schemas'
  | .types listed, .types listed' => listed = listed'
  | .limit bounds, .limit bounds' => bounds = bounds'
  | .items form additional, .items form' additional' =>
    form.Alike rel form' ∧ Option.Rel rel additional additional'
  | .dependencies names schemas, .dependencies names' schemas' =>
    (∀ entry, entry ∈ names ↔ entry ∈ names') ∧ AreAlike rel schemas schemas'
  | _, _ => False

namespace Schema

/-- Two schemas have the same keywords with alike values. -/
structure Alike (rel : Schema → Schema → Prop) (schema schema' : Schema) : Prop where
  there : ∀ keyword value, (keyword, value) ∈ schema.keywords →
    ∃ value', (keyword, value') ∈ schema'.keywords ∧ value.Alike rel value'
  back : ∀ keyword value', (keyword, value') ∈ schema'.keywords →
    ∃ value, (keyword, value) ∈ schema.keywords ∧ value.Alike rel value'
  names : ∀ keyword name, name ∈ Compile.namesUnder schema keyword ↔
    name ∈ Compile.namesUnder schema' keyword

end Schema

section Flip

variable {rel : Schema → Schema → Prop}

theorem ItemsForm.Alike.flip {form form' : ItemsForm} (alike : form.Alike rel form') :
    form'.Alike (flip rel) form := by
  cases form <;> cases form' <;> first
    | exact alike
    | exact List.Forall₂.flip alike

theorem KeywordValue.Alike.flip {value value' : KeywordValue} (alike : value.Alike rel value') :
    value'.Alike (flip rel) value := by
  unfold KeywordValue.Alike at alike
  split at alike
  · exact ⟨alike.1.symm, alike.2.symm⟩
  · exact alike.symm
  · exact (alike.flip).imp (fun _ _ => Json.IsLike.symm)
  · exact alike
  · exact alike.flip
  · exact ⟨alike.2, alike.1⟩
  · exact alike.symm
  · exact alike.symm
  · refine ⟨alike.1.flip, ?_⟩
    rcases alike.2 with related | _
    · exact .some related
    · exact .none
  · exact ⟨fun entry => (alike.1 entry).symm, alike.2.2, alike.2.1⟩
  · exact alike.elim

theorem Schema.Alike.flip {schema schema' : Schema} (alike : schema.Alike rel schema') :
    schema'.Alike (flip rel) schema where
  there keyword value' mem := by
    obtain ⟨value, mem', same⟩ := alike.back keyword value' mem
    exact ⟨value, mem', same.flip⟩
  back keyword value mem := by
    obtain ⟨value', mem', same⟩ := alike.there keyword value mem
    exact ⟨value', mem', same.flip⟩
  names keyword name := (alike.names keyword name).symm

end Flip

/-! ## Demands -/

/-- Verdicts on related schemas carry over, as far as they are used. -/
structure Carries (rel : Schema → Schema → Prop) (uses uses' : Use → Schema → Prop)
    (accepts accepts' : Use → Schema → Json → Prop) (v : Json) : Prop where
  beside : ∀ schema schema', rel schema schema' → uses .beside schema → uses' .beside schema' →
    accepts .beside schema v → accepts' .beside schema' v
  judged : ∀ schema schema', rel schema schema' → uses .judged schema → uses' .judged schema' →
    (accepts .judged schema v ↔ accepts' .judged schema' v)
  inside : ∀ schema schema' inner, rel schema schema' → uses .inside schema →
    uses' .inside schema' → inner.IsProper → inner.depth < v.depth →
    accepts .inside schema inner → accepts' .inside schema' inner
  flags : ∀ schema schema', rel schema schema' → uses .inside schema → uses' .inside schema' →
    schema'.IsFlagged → schema.IsFlagged

namespace Meaning

section Alike

variable {compiler : Compiler} {graph graph' : SchemaGraph}
  {accepts accepts' : Use → Schema → Json → Prop} {rel : Schema → Schema → Prop}
  {owner owner' : Schema} {v : Json} {assertion : Assertion}

/-- Verdicts carry over from one value of a keyword to another one. -/
abbrev CarriesFrom (graph graph' : SchemaGraph) (rel : Schema → Schema → Prop)
    (assertion : Assertion) (value value' : KeywordValue)
    (accepts accepts' : Use → Schema → Json → Prop) (v : Json) : Prop :=
  Carries rel (fun use schema => (use, schema) ∈ uses graph assertion value)
    (fun use schema => (use, schema) ∈ uses graph' assertion value') accepts accepts' v

theorem holds_literal {kind : LiteralKind} {value value' : Json} (like : value.IsLike value')
    (h : Holds compiler graph accepts owner v assertion (.literal kind value)) :
    Holds compiler graph' accepts' owner' v assertion (.literal kind value') := by
  have counts : ∀ {demand : Int → Prop}, KeywordValue.Counts demand (.literal kind value) →
      KeywordValue.Counts demand (.literal kind value') := by
    intro demand counts
    unfold KeywordValue.Counts at counts ⊢
    split
    · next n same =>
      cases same
      have back := (like.number n).2 rfl
      subst back
      exact counts
    · trivial
  have texts : ∀ {text}, value' = .string text → value = .string text :=
    fun same => (like.string _).2 same
  have numbers : ∀ {n}, value' = .number n → value = .number n :=
    fun same => (like.number _).2 same
  cases assertion with
  | const => exact (like.equals v).symm.trans h
  | format | pattern =>
    cases value' with
    | string text =>
      cases texts rfl
      exact h
    | _ => trivial
  | multipleOf | divisibleBy =>
    cases value' with
    | number n =>
      cases numbers rfl
      exact h
    | _ => trivial
  | minLength | maxLength => exact fun text here => counts (h text here)
  | minItems | maxItems => exact fun items here => counts (h items here)
  | minProperties | maxProperties => exact fun members here => counts (h members here)
  | uniqueItems => exact fun truthy => h (like.truthy.trans truthy)
  | _ => trivial

theorem holds_schema {inner inner' : Schema} (related : rel inner inner') (proper : v.IsProper)
    (carries : CarriesFrom graph graph' rel assertion (.schema inner) (.schema inner') accepts
      accepts' v)
    (h : Holds compiler graph accepts owner v assertion (.schema inner))
    (names : ∀ keyword name, name ∈ Compile.namesUnder owner keyword ↔
      name ∈ Compile.namesUnder owner' keyword) :
    Holds compiler graph' accepts' owner' v assertion (.schema inner') := by
  have self : ∀ {use : Use} {schema : Schema}, (use, schema) ∈ [(use, schema)] :=
    List.mem_singleton_self _
  cases assertion with
  | not =>
    intro accepted
    exact h ((carries.judged inner inner' related self self).2 accepted)
  | contains =>
    intro items array
    obtain ⟨item, mem, accepted⟩ := h items array
    subst array
    exact ⟨item, mem, carries.inside inner inner' item related self self (proper.item mem)
      (Json.depth_item mem) accepted⟩
  | additionalProperties =>
    intro members object name value member undeclared unmatched
    have accepted := h members object name value member (mt (names _ _).1 undeclared)
      (fun pattern mem => unmatched pattern ((names _ _).1 mem))
    subst object
    exact carries.inside inner inner' value related self self (proper.member member)
      (Json.depth_member member) accepted
  | propertyNames =>
    intro members object name value member
    have accepted := h members object name value member
    subst object
    exact carries.inside inner inner' (.string name) related self self (Json.isProper_string name)
      (Json.depth_name member) accepted
  | minLength | maxLength | minItems | maxItems | minProperties | maxProperties =>
    exact fun _ _ => trivial
  | _ => trivial

theorem holds_schemaList {schemas schemas' : List Schema}
    (related : List.Forall₂ rel schemas schemas')
    (carries : CarriesFrom graph graph' rel assertion (.schemaList schemas) (.schemaList schemas')
      accepts accepts' v)
    (h : Holds compiler graph accepts owner v assertion (.schemaList schemas)) :
    Holds compiler graph' accepts' owner' v assertion (.schemaList schemas') := by
  have every : ∀ {use : Use} {inner inner' : Schema}, inner ∈ schemas → inner' ∈ schemas' →
      (use, inner) ∈ schemas.map (use, ·) ∧ (use, inner') ∈ schemas'.map (use, ·) :=
    fun mem mem' => ⟨List.mem_map_of_mem mem, List.mem_map_of_mem mem'⟩
  cases assertion with
  | allOf | extending =>
    intro inner' mem'
    obtain ⟨inner, mem, same⟩ := exists_of_forall₂ related.flip mem'
    obtain ⟨used, used'⟩ := every mem mem'
    exact carries.beside inner inner' same used used' (h inner mem)
  | anyOf =>
    obtain ⟨inner, mem, accepted⟩ := h
    obtain ⟨inner', mem', same⟩ := exists_of_forall₂ related mem
    obtain ⟨used, used'⟩ := every mem mem'
    exact ⟨inner', mem', carries.beside inner inner' same used used' accepted⟩
  | oneOf =>
    obtain ⟨position, inner, found, accepted, alone⟩ := h
    have verdict : ∀ {i : Nat} {inner inner' : Schema}, schemas[i]? = some inner →
        schemas'[i]? = some inner' → rel inner inner' →
        (accepts .judged inner v ↔ accepts' .judged inner' v) := by
      intro i inner inner' here here' same
      obtain ⟨used, used'⟩ := every (List.mem_of_getElem? here) (List.mem_of_getElem? here')
      exact carries.judged inner inner' same used used'
    obtain ⟨inner', found', same⟩ := exists_getElem related found
    refine ⟨position, inner', found', (verdict found found' same).1 accepted, ?_⟩
    intro other third' at_other' accepted'
    obtain ⟨third, at_other, same⟩ := exists_getElem related.flip at_other'
    exact alone other third at_other ((verdict at_other at_other' same).2 accepted')
  | minLength | maxLength | minItems | maxItems | minProperties | maxProperties =>
    exact fun _ _ => trivial
  | _ => trivial

theorem mem_entries {use : Use} {name : String} {schema : Schema} {schemas : List (String × Schema)}
    (mem : (name, schema) ∈ schemas) : (use, schema) ∈ schemas.map fun (_, schema) => (use, schema) :=
  List.mem_map.2 ⟨_, mem, rfl⟩

theorem holds_schemaMap {schemas schemas' : List (String × Schema)}
    (related : HaveEntries (flip rel) schemas' schemas) (proper : v.IsProper)
    (carries : CarriesFrom graph graph' rel assertion (.schemaMap schemas) (.schemaMap schemas')
      accepts accepts' v)
    (h : Holds compiler graph accepts owner v assertion (.schemaMap schemas)) :
    Holds compiler graph' accepts' owner' v assertion (.schemaMap schemas') := by
  cases assertion with
  | properties =>
    intro members object name inner' mem'
    obtain ⟨inner, mem, same⟩ := related name inner' mem'
    obtain ⟨present, flagged⟩ := h members object name inner mem
    refine ⟨fun value found => ?_, fun flag => flagged
      (carries.flags inner inner' same (mem_entries mem) (mem_entries mem') flag)⟩
    subst object
    have member := Members.mem_of_lookup found
    exact carries.inside inner inner' value same (mem_entries mem) (mem_entries mem')
      (proper.member member) (Json.depth_member member) (present value found)
  | patternProperties =>
    intro members object name value member pattern inner' mem' search compiled found
    obtain ⟨inner, mem, same⟩ := related pattern inner' mem'
    have accepted := h members object name value member pattern inner mem search compiled found
    subst object
    exact carries.inside inner inner' value same (mem_entries mem) (mem_entries mem')
      (proper.member member) (Json.depth_member member) accepted
  | minLength | maxLength | minItems | maxItems | minProperties | maxProperties =>
    exact fun _ _ => trivial
  | _ => trivial

theorem holds_items {form form' : ItemsForm} {additional additional' : Option Schema}
    (related : form.Alike rel form') (more : Option.Rel rel additional additional')
    (proper : v.IsProper)
    (carries : CarriesFrom graph graph' rel assertion (.items form additional)
      (.items form' additional') accepts accepts' v)
    (h : Holds compiler graph accepts owner v assertion (.items form additional)) :
    Holds compiler graph' accepts' owner' v assertion (.items form' additional') := by
  cases assertion with
  | items =>
    intro items array
    have holds := h items array
    subst array
    have carried : ∀ {inner inner' : Schema} {item : Json}, rel inner inner' →
        inner ∈ form.schemas ++ additional.toList → inner' ∈ form'.schemas ++ additional'.toList →
        item ∈ items → accepts .inside inner item → accepts' .inside inner' item :=
      fun same used used' mem => carries.inside _ _ _ same (List.mem_map_of_mem used)
        (List.mem_map_of_mem used') (proper.item mem) (Json.depth_item mem)
    cases form <;> cases form' <;> try exact related.elim
    case absent.absent => trivial
    case every.every inner inner' =>
      exact fun item mem => carried related (List.mem_append_left _ List.mem_cons_self)
        (List.mem_append_left _ List.mem_cons_self) mem (holds item mem)
    case each.each listed listed' =>
      refine ⟨fun position inner' item here' at_item => ?_, fun inner' found' item mem => ?_⟩
      · obtain ⟨inner, here, same⟩ := exists_getElem (List.Forall₂.flip related) here'
        exact carried same (List.mem_append_left _ (List.mem_of_getElem? here))
          (List.mem_append_left _ (List.mem_of_getElem? here')) (List.mem_of_getElem? at_item)
          (holds.1 position inner item here at_item)
      · cases more with
        | none => cases found'
        | @some inner _ same =>
          cases found'
          rw [← List.Forall₂.length_eq related] at mem
          exact carried same (List.mem_append_right _ List.mem_cons_self)
            (List.mem_append_right _ List.mem_cons_self) (List.mem_of_mem_drop mem)
            (holds.2 inner rfl item mem)
  | minLength | maxLength | minItems | maxItems | minProperties | maxProperties =>
    exact fun _ _ => trivial
  | _ => trivial

theorem holds_dependencies {names names' : List (String × List String)}
    {schemas schemas' : List (String × Schema)} (same : ∀ entry, entry ∈ names ↔ entry ∈ names')
    (related : HaveEntries (flip rel) schemas' schemas)
    (carries : CarriesFrom graph graph' rel assertion (.dependencies names schemas)
      (.dependencies names' schemas') accepts accepts' v)
    (h : Holds compiler graph accepts owner v assertion (.dependencies names schemas)) :
    Holds compiler graph' accepts' owner' v assertion (.dependencies names' schemas') := by
  cases assertion with
  | dependencies =>
    intro members object
    obtain ⟨needed, beside⟩ := h members object
    refine ⟨fun name others mem => needed name others ((same _).2 mem),
      fun name inner' mem' present => ?_⟩
    obtain ⟨inner, mem, same⟩ := related name inner' mem'
    exact carries.beside inner inner' same (mem_entries mem) (mem_entries mem')
      (beside name inner mem present)
  | minLength | maxLength | minItems | maxItems | minProperties | maxProperties =>
    exact fun _ _ => trivial
  | _ => trivial

theorem holds_jsonArray {values values' : List Json} (like : List.Forall₂ Json.IsLike values values')
    (h : Holds compiler graph accepts owner v assertion (.jsonArray values)) :
    Holds compiler graph' accepts' owner' v assertion (.jsonArray values') := by
  cases assertion with
  | enum =>
    obtain ⟨listed, mem, equal⟩ := h
    obtain ⟨listed', mem', same⟩ := exists_of_forall₂ like mem
    exact ⟨listed', mem', (same.equals v).symm.trans equal⟩
  | minLength | maxLength | minItems | maxItems | minProperties | maxProperties =>
    exact fun _ _ => trivial
  | _ => trivial

/-- The demand of a keyword carries over to an alike value. -/
theorem Holds.alike {value value' : KeywordValue} (proper : v.IsProper)
    (alike : value.Alike rel value')
    (names : ∀ keyword name, name ∈ Compile.namesUnder owner keyword ↔
      name ∈ Compile.namesUnder owner' keyword)
    (carries : CarriesFrom graph graph' rel assertion value value' accepts accepts' v)
    (h : Holds compiler graph accepts owner v assertion value) :
    Holds compiler graph' accepts' owner' v assertion value' := by
  unfold KeywordValue.Alike at alike
  split at alike
  · obtain ⟨rfl, like⟩ := alike
    exact holds_literal like h
  · subst alike
    cases assertion <;> exact h
  · exact holds_jsonArray alike h
  · exact holds_schema alike proper carries h names
  · exact holds_schemaList alike carries h
  · exact holds_schemaMap alike.2 proper carries h
  · subst alike
    cases assertion <;> exact h
  · subst alike
    cases assertion <;> exact h
  · exact holds_items alike.1 alike.2 proper carries h
  · exact holds_dependencies alike.1 alike.2.2 carries h
  · exact alike.elim

end Alike

end Meaning

/-- A value that meets a schema meets an alike one, if the verdicts on related schemas carry over. -/
theorem Schema.Meets.alike {compiler : Compiler} {graph graph' : SchemaGraph}
    {accepts accepts' : Use → Schema → Json → Prop} {rel : Schema → Schema → Prop}
    {schema schema' : Schema} {v : Json} (proper : v.IsProper) (alike : schema.Alike rel schema')
    (carries : Carries rel (schema.Uses graph) (schema'.Uses graph') accepts accepts' v)
    (h : schema.Meets compiler graph accepts v) : schema'.Meets compiler graph' accepts' v := by
  intro keyword assertion value' asserts type typed applies
  obtain ⟨value, mem, same⟩ := alike.back keyword value' asserts.1
  have asserts' : schema.Asserts keyword assertion value := ⟨mem, asserts.2⟩
  have used : ∀ {use inner}, (use, inner) ∈ Meaning.uses graph assertion value →
      schema.Uses graph use inner := fun listed => ⟨keyword, assertion, value, asserts', listed⟩
  have used' : ∀ {use inner}, (use, inner) ∈ Meaning.uses graph' assertion value' →
      schema'.Uses graph' use inner := fun listed => ⟨keyword, assertion, value', asserts, listed⟩
  refine (h keyword assertion value asserts' type typed applies).alike proper same alike.names ?_
  exact {
    beside := fun inner inner' rel here here' =>
      carries.beside inner inner' rel (used here) (used' here')
    judged := fun inner inner' rel here here' =>
      carries.judged inner inner' rel (used here) (used' here')
    inside := fun inner inner' v rel here here' =>
      carries.inside inner inner' v rel (used here) (used' here')
    flags := fun inner inner' rel here here' =>
      carries.flags inner inner' rel (used here) (used' here') }

end JsonSchema
