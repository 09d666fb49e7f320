import JsonSchema.Proofs.Parts
import JsonSchema.Proofs.Resolving

/-!
# Identifiers that an index meets

The walk for an index leaves out an identifier that it has met before. `Cache.metValue` lists all
that the walk meets; if no two are equal, the index has just these (`Cache.indexValue_eq`).

The walk has its own lists of the keywords that hold data and of those that hold maps of schemas. A
registry is indexed if they are right about its keywords (`Registry.IsIndexed`): the one of the
drafts is, and it stays so if keywords that hold no schemas are registered. Then all that the walk
meets in a part of an object it meets in the object (`Cache.subset_part`).
-/

namespace JsonSchema

/-! ## Registries -/

/-- Whether a value of the kind may hold schemas. -/
def KeywordKind.holdsSchemas : KeywordKind → Bool
  | .schema | .schemaList | .schemaMap | .items | .dependencies => true
  | _ => false

/-- Whether a value of the kind may hold a map of schemas. -/
def KeywordKind.holdsMap : KeywordKind → Bool
  | .schemaMap | .dependencies => true
  | _ => false

/-- The index walk is right about a keyword in a draft: it looks into the schemas that the value
holds, and takes a map of schemas for one. -/
def Keyword.IsIndexed (keyword : Keyword) (draft : Draft) : Prop :=
  (keyword.variantFor draft).kind.holdsSchemas = true →
    keyword.key ∉ Cache.dataKeys ∧
      ((keyword.variantFor draft).kind.holdsMap = true ↔ keyword.key ∈ Cache.schemaMapKeys)

instance (keyword : Keyword) (draft : Draft) : Decidable (keyword.IsIndexed draft) :=
  inferInstanceAs (Decidable (_ → _ ∧ (_ ↔ _)))

namespace Registry

/-- The index walk is right about all keywords of a registry. -/
def IsIndexed (registry : Registry) : Prop :=
  ∀ keyword ∈ registry.keywords, ∀ draft ∈ keyword.drafts, keyword.IsIndexed draft

instance (registry : Registry) : Decidable registry.IsIndexed :=
  inferInstanceAs (Decidable (∀ keyword ∈ registry.keywords, ∀ draft ∈ keyword.drafts, _))

theorem isIndexed_default : Registry.default.IsIndexed := by
  decide +kernel

/-- Keywords that hold no schemas may be registered. -/
theorem IsIndexed.register {registry further : Registry} {keyword : Keyword}
    (indexed : registry.IsIndexed)
    (plain : ∀ draft ∈ keyword.drafts, (keyword.variantFor draft).kind.holdsSchemas = false)
    (ok : registry.register keyword = .ok further) : further.IsIndexed := by
  unfold Registry.register at ok
  split at ok
  · cases ok
  · cases ok
    intro other mem draft known
    rcases List.mem_append.1 mem with old | new
    · exact indexed other old draft known
    · rw [List.mem_singleton.1 new] at known ⊢
      intro holds
      rw [plain draft known] at holds
      cases holds

/-- The values that the keywords of an object take for schemas, with the ways to them. -/
def parts (registry : Registry) (draft : Draft) (members : List (String × Json)) :
    List (Pointer × Json) :=
  members.flatMap fun (key, value) =>
    match registry.find? key (some draft) with
    | some keyword =>
      ((keyword.variantFor draft).kind.parts value).map fun (way, part) => (key :: way, part)
    | none => []

theorem parts_default : Registry.default.parts = Json.parts :=
  rfl

/-- A part is one of the value of a keyword about which the index walk is right. -/
theorem IsIndexed.parts_cases {registry : Registry} {draft : Draft}
    {members : List (String × Json)} {way : Pointer} {part : Json} (indexed : registry.IsIndexed)
    (mem : (way, part) ∈ registry.parts draft members) :
    ∃ key value kind rest, (key, value) ∈ members ∧ way = key :: rest ∧
      (rest, part) ∈ KeywordKind.parts kind value ∧
      (kind.holdsSchemas = true →
        key ∉ Cache.dataKeys ∧ (kind.holdsMap = true ↔ key ∈ Cache.schemaMapKeys)) := by
  obtain ⟨⟨key, value⟩, member, inside⟩ := List.mem_flatMap.1 mem
  dsimp only at inside
  split at inside
  · next keyword found =>
    obtain ⟨⟨rest, part⟩, listed, same⟩ := List.mem_map.1 inside
    cases same
    obtain ⟨known, applicable⟩ := Option.filter_eq_some_iff.1 found
    have named : keyword.key = key := by simpa using List.find?_some known
    have right := indexed keyword (List.mem_of_find?_eq_some known) draft
      (List.contains_iff_mem.1 applicable)
    unfold Keyword.IsIndexed at right
    rw [named] at right
    exact ⟨key, value, _, rest, member, rfl, listed, right⟩
  · exact absurd inside List.not_mem_nil

end Registry

/-! ## The walk -/

namespace Cache

mutual

/-- The identifiers that the index walk meets in a value, with the ways to their schemas. -/
def metValue (idKey : String) (isMap : Bool) (location : Location) :
    Json → List (String × Pointer)
  | .object members =>
    let (location, own) :=
      if isMap then (location, []) else indexIdentifier idKey members location []
    own ++ metMembers idKey isMap location members
  | .array items => metItems idKey location 0 items
  | _ => []

/-- The identifiers that the walk meets in members. -/
def metMembers (idKey : String) (isMap : Bool) (location : Location) :
    List (String × Json) → List (String × Pointer)
  | [] => []
  | (name, value) :: rest =>
    let met :=
      if !isMap && dataKeys.contains name then []
      else metValue idKey (!isMap && schemaMapKeys.contains name) (location.child [name]) value
    met ++ metMembers idKey isMap location rest

/-- The identifiers that the walk meets in items. -/
def metItems (idKey : String) (location : Location) (position : Nat) :
    List Json → List (String × Pointer)
  | [] => []
  | value :: rest =>
    metValue idKey false (location.child [toString position]) value
      ++ metItems idKey location (position + 1) rest

end

variable {idKey key : String} {location : Location} {members : List (String × Json)} {value : Json}

/-! ### The index is what the walk meets -/

theorem nodup_left {front back : List (String × Pointer)}
    (distinct : (Members.keys (front ++ back)).Nodup) : (Members.keys front).Nodup := by
  unfold Members.keys at distinct ⊢
  rw [List.map_append] at distinct
  exact (List.nodup_append.1 distinct).1

theorem putNew_eq {index : List (String × Pointer)} {pointer : Pointer}
    (distinct : (Members.keys (index ++ [(key, pointer)])).Nodup) :
    Members.putNew index key pointer = index ++ [(key, pointer)] := by
  unfold Members.putNew
  split
  · next old found =>
    unfold Members.keys at distinct
    rw [List.map_append, List.nodup_append] at distinct
    have mem := List.mem_map_of_mem (f := Prod.fst) (Members.mem_of_lookup found)
    exact absurd rfl (distinct.2.2 key mem key List.mem_cons_self)
  · rfl

theorem indexIdentifier_eq {index : List (String × Pointer)}
    (distinct :
      (Members.keys (index ++ (indexIdentifier idKey members location []).2)).Nodup) :
    indexIdentifier idKey members location index =
      ((indexIdentifier idKey members location []).1,
        index ++ (indexIdentifier idKey members location []).2) := by
  unfold indexIdentifier at distinct ⊢
  split
  · next identifier found plain =>
    rw [found, plain] at distinct
    dsimp only at distinct
    cases made : location.withId identifier with
    | error fault => rw [List.append_nil]
    | ok named =>
      rw [made] at distinct
      dsimp only at distinct ⊢
      cases declared : named.declaredId with
      | none => rw [List.append_nil]
      | some uri =>
        rw [declared] at distinct
        dsimp only
        rw [putNew_eq distinct]
        rfl
  · rw [List.append_nil]

mutual

/-- Where no two identifiers are equal, the walk adds all that it meets to the index. -/
theorem indexValue_eq (isMap : Bool) (location : Location) (index : List (String × Pointer)) :
    ∀ value : Json, (Members.keys (index ++ metValue idKey isMap location value)).Nodup →
      indexValue idKey isMap location index value = index ++ metValue idKey isMap location value
  | .object members, distinct => by
    rw [metValue] at distinct ⊢
    rw [indexValue]
    cases isMap with
    | true => exact indexMembers_eq true location index members distinct
    | false =>
      rw [if_neg Bool.false_ne_true] at distinct
      rw [if_neg Bool.false_ne_true, if_neg Bool.false_ne_true]
      dsimp only at distinct ⊢
      rw [← List.append_assoc] at distinct ⊢
      rw [indexIdentifier_eq (nodup_left distinct)]
      exact indexMembers_eq false _ _ members distinct
  | .array items, distinct => by
    rw [metValue] at distinct ⊢
    rw [indexValue]
    exact indexItems_eq location index 0 items distinct
  | .null, _ | .bool _, _ | .number _, _ | .string _, _ | .bytes _, _ =>
    (List.append_nil index).symm

theorem indexMembers_eq (isMap : Bool) (location : Location) (index : List (String × Pointer)) :
    ∀ members : List (String × Json),
      (Members.keys (index ++ metMembers idKey isMap location members)).Nodup →
      indexMembers idKey isMap location index members =
        index ++ metMembers idKey isMap location members
  | [], _ => (List.append_nil index).symm
  | (name, value) :: rest, distinct => by
    rw [metMembers] at distinct ⊢
    rw [indexMembers]
    dsimp only at distinct ⊢
    rw [← List.append_assoc] at distinct ⊢
    split at distinct
    · next data =>
      rw [List.append_nil] at distinct
      rw [if_pos data, if_pos data, List.append_nil]
      exact indexMembers_eq isMap location index rest distinct
    · next schemas =>
      rw [if_neg schemas, if_neg schemas, indexValue_eq _ _ index value (nodup_left distinct)]
      exact indexMembers_eq isMap location _ rest distinct

theorem indexItems_eq (location : Location) (index : List (String × Pointer)) (position : Nat) :
    ∀ items : List Json, (Members.keys (index ++ metItems idKey location position items)).Nodup →
      indexItems idKey location index position items =
        index ++ metItems idKey location position items
  | [], _ => (List.append_nil index).symm
  | value :: rest, distinct => by
    rw [metItems] at distinct ⊢
    rw [indexItems]
    rw [← List.append_assoc] at distinct ⊢
    rw [indexValue_eq _ _ index value (nodup_left distinct)]
    exact indexItems_eq location _ (position + 1) rest distinct

end

/-! ### Parts -/

theorem subset_members {isMap : Bool} {name : String} (mem : (name, value) ∈ members)
    (schemas : isMap = true ∨ name ∉ dataKeys) :
    metValue idKey (!isMap && schemaMapKeys.contains name) (location.child [name]) value ⊆
      metMembers idKey isMap location members := by
  have looked : ¬ (!isMap && dataKeys.contains name) = true := by
    rcases schemas with rfl | other
    · exact Bool.false_ne_true
    · rw [Bool.and_eq_true, List.contains_iff_mem]
      exact fun both => other both.2
  induction members with
  | nil => cases mem
  | cons first rest ih =>
    rw [metMembers]
    rcases List.mem_cons.1 mem with rfl | later
    · dsimp only
      rw [if_neg looked]
      exact List.subset_append_left _ _
    · exact List.Subset.trans (ih later) (List.subset_append_right _ _)

theorem subset_items {items : List Json} {start position : Nat}
    (mem : (value, position) ∈ items.zipIdx start) :
    metValue idKey false (location.child [toString position]) value ⊆
      metItems idKey location start items := by
  induction items generalizing start with
  | nil => cases mem
  | cons first rest ih =>
    rw [metItems]
    rcases List.mem_cons.1 mem with same | later
    · cases same
      exact List.subset_append_left _ _
    · exact List.Subset.trans (ih later) (List.subset_append_right _ _)

/-- What the walk meets in the schemas that the value of a keyword holds it meets in the value. -/
theorem subset_kind (idKey key : String) (location : Location) {kind : KeywordKind}
    {rest : Pointer} {part : Json} (mem : (rest, part) ∈ kind.parts value) :
    kind.holdsSchemas = true ∧
      metValue idKey false (location.child (key :: rest)) part ⊆
        metValue idKey kind.holdsMap (location.child [key]) value := by
  have itself : (rest, part) ∈ [(([] : Pointer), value)] →
      metValue idKey false (location.child (key :: rest)) part ⊆
        metValue idKey false (location.child [key]) value := by
    intro single
    cases List.mem_singleton.1 single
    exact List.Subset.refl _
  have item : ∀ items : List Json,
      (rest, part) ∈ items.zipIdx.map (fun entry => ([toString entry.2], entry.1)) →
      metValue idKey false (location.child (key :: rest)) part ⊆
        metItems idKey (location.child [key]) 0 items := by
    intro items listed
    obtain ⟨⟨item, position⟩, mem, same⟩ := List.mem_map.1 listed
    dsimp only at same
    cases same
    have inside : metValue idKey false ((location.child [key]).child [toString position]) part ⊆
        metItems idKey (location.child [key]) 0 items := subset_items mem
    rw [Location.child_child] at inside
    exact inside
  have entry : ∀ entries : List (String × Json), ∀ name, (name, part) ∈ entries →
      metValue idKey false (location.child [key, name]) part ⊆
        metMembers idKey true (location.child [key]) entries := by
    intro entries name mem
    have inside : metValue idKey false ((location.child [key]).child [name]) part ⊆
        metMembers idKey true (location.child [key]) entries := subset_members mem (.inl rfl)
    rw [Location.child_child] at inside
    exact inside
  unfold KeywordKind.parts at mem
  split at mem
  · next items => exact ⟨rfl, item items mem⟩
  · next items => exact ⟨rfl, item items mem⟩
  · next entries =>
    obtain ⟨⟨name, value⟩, listed, same⟩ := List.mem_map.1 mem
    cases same
    exact ⟨rfl, entry entries name listed⟩
  · next entries =>
    obtain ⟨⟨name, value⟩, listed, same⟩ := List.mem_filterMap.1 mem
    obtain ⟨rfl, rfl⟩ : rest = [name] ∧ part = value := by
      dsimp only at same
      split at same
      · cases same
        exact ⟨rfl, rfl⟩
      · cases same
        exact ⟨rfl, rfl⟩
      · cases same
    exact ⟨rfl, entry entries name listed⟩
  · exact ⟨rfl, itself mem⟩
  · exact ⟨rfl, itself mem⟩
  · exact ⟨rfl, itself mem⟩
  · exact absurd mem List.not_mem_nil

/-- An object that is no reference is walked under its identifier. -/
theorem indexIdentifier_plain (plain : members.lookup Builtin.ref.key = none)
    (fresh : location.declaredId = none) :
    indexIdentifier idKey members location [] =
      (location.named idKey members,
        ((location.named idKey members).declaredId.map (·, location.pointer)).toList) := by
  unfold indexIdentifier Location.named
  rw [plain]
  cases found : members.lookup idKey with
  | none =>
    rw [fresh]
    rfl
  | some identifier =>
    cases identifier with
    | string text =>
      dsimp only
      cases made : location.withId text with
      | error fault =>
        dsimp only
        rw [fresh]
        rfl
      | ok named =>
        dsimp only
        rw [← (Load.withId_place made).2]
        cases named.declaredId <;> rfl
    | _ =>
      dsimp only
      rw [fresh]
      rfl

theorem metValue_object (plain : members.lookup Builtin.ref.key = none)
    (fresh : location.declaredId = none) :
    metValue idKey false location (.object members) =
      ((location.named idKey members).declaredId.map (·, location.pointer)).toList
        ++ metMembers idKey false (location.named idKey members) members := by
  rw [metValue, if_neg Bool.false_ne_true, indexIdentifier_plain plain fresh]

/-- What the walk meets in a part of an object it meets in the object. -/
theorem subset_part {registry : Registry} {draft : Draft} {way : Pointer} {part : Json}
    (indexed : registry.IsIndexed) (plain : members.lookup Builtin.ref.key = none)
    (fresh : location.declaredId = none) (mem : (way, part) ∈ registry.parts draft members) :
    metValue draft.idKey false ((location.named draft.idKey members).child way) part ⊆
      metValue draft.idKey false location (.object members) := by
  obtain ⟨key, value, kind, rest, member, rfl, inside, right⟩ := indexed.parts_cases mem
  obtain ⟨holds, subset⟩ :=
    subset_kind draft.idKey key (location.named draft.idKey members) inside
  obtain ⟨looked, map⟩ := right holds
  have same : kind.holdsMap = (!false && schemaMapKeys.contains key) := by
    rw [Bool.eq_iff_iff, map, Bool.not_false, Bool.true_and, List.contains_iff_mem]
  rw [same] at subset
  rw [metValue_object plain fresh]
  exact List.Subset.trans (List.Subset.trans subset (subset_members member (.inr looked)))
    (List.subset_append_right _ _)

end Cache

end JsonSchema
