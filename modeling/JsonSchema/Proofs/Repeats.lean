import JsonSchema.Proofs.Following

/-!
# Complaints that are repeated

Loading a value adds no two issues that read the same, unless both are about a value that is no
schema and has a stand-in (`Load.load_repeats`). A stand-in is made where a reference leads to such
a value: it is looked at, and found wanting, on the way down from the object that holds it, and
again for each text that refers to it. Every other complaint is one of an object that is begun once.

The rules follow the loader function by function. Each says which spots of the object that is being
loaded a function may complain about; functions that run one after the other complain about disjoint
ones, members because their keys differ.
-/

namespace JsonSchema

theorem Location.place_child_nil (location : Location) :
    location.place = (location.child []).place :=
  Prod.ext rfl (List.append_nil location.pointer).symm

namespace Load

namespace Spot

/-- The values in a member that should be schemas. -/
def elements (key : String) : Set Spot :=
  {spot | ∃ segment, spot = .element key segment}

/-- The value of a member and the values in it. -/
def within (key : String) : Set Spot :=
  insert (.value key) (elements key)

theorem value_not_mem_elements (key key' : String) : .value key ∉ elements key' :=
  fun ⟨_, same⟩ => nomatch same

end Spot

variable {α β γ : Type} {loader : Loader} {load : NodeLoader} {floor : Nat} {location : Location}
  {spots spots' : Set Spot} {session later : Session} {key : String} {value : Json} {draft : Draft}
  {members : List (String × Json)}

section Below

variable (behaves : Behaves loader floor load)

/-! ## References -/

include behaves in
/-- An object that is a reference is complained about apart from its identifier. -/
theorem emits_loadReference
    (served : ∀ uri document, loader.client.fetch uri = .ok document → document.value.IsProper)
    (here : IsHere floor location session) (ref : Json) (builder : SchemaBuilder) :
    Emits floor location {spot | spot ≠ .identifier}
      (loadReference loader load members ref location builder) session fun _ => True := by
  unfold loadReference
  dsimp only
  split
  · next text =>
    have warned : Emits floor location {.siblings} (recordWarning loader .refSiblingsIgnored
        location (.siblingsIgnored (ignoredSiblings members))) session fun _ => True :=
      emits_issue here _ rfl location.place_child_nil
    have malformed : ∀ fault session, IsHere floor location session → Emits floor location
        {.reference} (recordError loader .uriMalformed (location.child [Builtin.ref.key])
          (.badReference text (.badUri fault)) >>= fun _ => pure builder) session fun _ => True :=
      fun fault session here => emits_bind_silent here
        (emits_issue here _ ⟨rfl, text, _, rfl⟩ rfl) fun _ _ _ _ _ => emits_pure trivial
    have resolved : ∀ uri session, IsHere floor location session → Emits floor location
        {.reference} (resolve loader load uri location >>= fun handle =>
          check (builder.put Builtin.ref (.reference text uri handle))) session fun _ => True :=
      fun uri session here => emits_silent_bind here (emits_resolve behaves served here _ _)
        fun _ _ _ _ _ => (emits_check _).mono le_rfl fun _ _ => trivial
    split
    · have both : ({.siblings} ∪ {.reference} : Set Spot) ⊆ {spot | spot ≠ .identifier} := by
        rintro _ (rfl | rfl) <;> exact nofun
      refine Emits.mono ?_ both fun _ => id
      refine emits_bind here warned (fun _ s _ here _ => ?_) (by simp)
      split
      · exact malformed _ s here
      · exact resolved _ s here
    · split
      · exact (malformed _ session here).mono (by simp) fun _ => id
      · exact (resolved _ session here).mono (by simp) fun _ => id
  · have misshapen : Emits floor location {.shape Builtin.ref.key} (recordError loader
        .keywordTypeMismatch (location.child [Builtin.ref.key])
        (.wrongShape Builtin.ref.key Shape.string.name ref.shapeName)) session fun _ => True :=
      emits_issue here _ rfl rfl
    exact (emits_bind_silent here misshapen fun _ _ _ _ _ => emits_pure trivial).mono (by simp)
      fun _ => id

/-! ## Keywords -/

/-- Values that are named differently are complained about apart. -/
theorem emits_elements {act : γ → Load α} {segment : γ → String} {xs : List γ}
    (each : ∀ x ∈ xs, ∀ session, IsHere floor location session →
      Emits floor location {.element key (segment x)} (act x) session fun _ => True)
    (distinct : (xs.map segment).Nodup) (here : IsHere floor location session) :
    Emits floor location (Spot.elements key) (xs.mapM act) session fun _ => True := by
  have apart : xs.Pairwise fun x y =>
      Disjoint ({.element key (segment x)} : Set Spot) {.element key (segment y)} := by
    refine (List.pairwise_map.1 distinct).imp fun other => ?_
    rw [Set.disjoint_singleton]
    exact fun same => other (Spot.element.inj same).2
  refine (emits_mapM each apart here).mono ?_ fun _ => id
  rintro _ ⟨x, _, rfl⟩
  exact ⟨_, rfl⟩

include behaves in
theorem emits_items {items : List Json} (here : IsHere floor location session)
    (proper : (Json.array items).IsProper) :
    Emits floor location (Spot.elements key) (items.zipIdx.mapM fun (item, position) =>
      load item ((location.child [key]).child [toString position]) draft) session
      fun _ => True := by
  have injective : Function.Injective (toString : Nat → String) := fun n n' same =>
    Option.some.inj (by rw [← Pointer.index_toString, same, Pointer.index_toString])
  refine emits_elements (fun entry mem session here =>
    behaves.element here (proper.item (List.fst_mem_of_mem_zipIdx mem)) draft (toString entry.2))
    ?_ here
  have positions : (items.zipIdx.map Prod.snd).Nodup := by
    rw [List.zipIdx_map_snd]
    exact List.nodup_range'
  have distinct : ((items.zipIdx.map Prod.snd).map toString).Nodup :=
    List.Pairwise.map toString (fun _ _ other same => other (injective same)) positions
  rwa [List.map_map] at distinct

include behaves in
theorem emits_loadList (here : IsHere floor location session) (proper : value.IsProper)
    (shaped : (∃ members, value = .object members) ∨ ∃ items, value = .array items) :
    Emits floor location (Spot.elements key) (loadList load key value (location.child [key]) draft)
      session fun _ => True := by
  rcases shaped with ⟨members, rfl⟩ | ⟨items, rfl⟩
  · refine Emits.mono ?_ (Set.empty_subset _) fun _ => id
    exact emits_silent_bind here
      (behaves.schema _ (location.child [key]) draft _ _ trivial proper here.clear here.ready)
      fun _ _ _ _ _ => emits_pure trivial
  · unfold loadList
    refine emits_silent_bind here (emits_check _) fun _ _ _ here _ => ?_
    refine emits_silent_bind here (emits_check _) fun listed _ _ here same => ?_
    cases same
    exact emits_items behaves here proper

include behaves in
theorem emits_loadMap (here : IsHere floor location session)
    (proper : (Json.object members).IsProper) :
    Emits floor location (Spot.elements key) (loadMap load members (location.child [key]) draft)
      session fun _ => True :=
  emits_elements (fun member mem _ here => emits_bind_silent here
    (behaves.element here (proper.member mem) draft member.1)
    fun _ _ _ _ _ => emits_pure trivial) proper.1 here

include behaves in
/-- Dependencies are schemas or names. -/
theorem emits_loadDependencies (here : IsHere floor location session)
    (proper : (Json.object members).IsProper) :
    Emits floor location ∅ (loadDependencies load key members (location.child [key]) draft)
      session fun _ => True := by
  unfold loadDependencies
  dsimp only
  refine emits_silent_bind here
    (emits_silent_foldlM (fun member mem found session here => ?_) here _)
    fun _ _ _ _ _ => (emits_check _).mono le_rfl fun _ _ => trivial
  have schema : IsSchemaLike member.2 → Emits floor location ∅ (load member.2
      ((location.child [key]).child [member.1]) draft >>= fun schema =>
        pure (found.1, found.2 ++ [(member.1, schema)])) session fun _ => True := fun like =>
    emits_silent_bind here
      (behaves.schema _ ((location.child [key]).child [member.1]) draft _ _ like
        (proper.member mem) here.clear here.ready)
      fun _ _ _ _ _ => emits_pure trivial
  split
  · next inner same => exact schema (same ▸ trivial)
  · next b same => exact schema (same ▸ trivial)
  · exact emits_silent_bind here (emits_check _) fun _ _ _ _ _ => emits_pure trivial

/-- What the drafts take for a schema can be one. -/
theorem isSchemaLike_of_schema {keyword : Keyword} {shape : Shape} (known : keyword ∈ Builtin.all)
    (kind : (keyword.variantFor draft).kind = .schema) (shaped : value.shape? = some shape)
    (expected : shape ∈ (keyword.variantFor draft).expects) : IsSchemaLike value := by
  have all : ∀ keyword ∈ Builtin.all, ∀ draft ∈ Draft.all,
      (keyword.variantFor draft).kind = .schema →
      ∀ shape ∈ (keyword.variantFor draft).expects, shape = .object ∨ shape = .boolean := by
    decide +kernel
  have mem : draft ∈ Draft.all := by cases draft <;> decide
  have shapes := all keyword known draft mem kind shape expected
  cases value with
  | object | bool => trivial
  | _ => cases shaped <;> rcases shapes with same | same <;> cases same

include behaves in
theorem emits_loadValue {keyword : Keyword} {shape : Shape} (known : keyword ∈ Builtin.all)
    (shaped : value.shape? = some shape) (expected : shape ∈ (keyword.variantFor draft).expects)
    (here : IsHere floor location session) (proper : value.IsProper) :
    Emits floor location (Spot.elements keyword.key)
      (loadValue load keyword (keyword.variantFor draft).kind value location draft) session
      fun _ => True := by
  have like := fun kind => isSchemaLike_of_schema known kind shaped expected
  have schemas := fun kind => (Keyword.isUsual_of_mem known draft).schemas kind shape expected
  have checked : ∀ x : Except Fault KeywordValue, Emits floor location (Spot.elements keyword.key)
      (check x) session fun _ => True := fun x => (emits_check x).mono le_rfl fun _ _ => trivial
  generalize (keyword.variantFor draft).kind = kind at like schemas ⊢
  unfold loadValue
  dsimp only
  split
  · have below := behaves.schema _ (location.child [keyword.key]) draft _ location (like rfl) proper
      here.clear here.ready
    exact emits_bind_silent here (below.mono (Set.empty_subset _) fun _ => id)
      fun _ _ _ _ _ => emits_pure trivial
  · have listed : (∃ members, value = .object members) ∨ ∃ items, value = .array items := by
      cases value with
      | object members => exact .inl ⟨_, rfl⟩
      | array items => exact .inr ⟨_, rfl⟩
      | _ => cases shaped <;> rcases schemas rfl with same | same <;> cases same
    exact emits_bind_silent here (emits_loadList behaves here proper listed)
      fun _ _ _ _ _ => emits_pure trivial
  · split
    · exact emits_bind_silent here (emits_loadMap behaves here proper)
        fun _ _ _ _ _ => emits_pure trivial
    · exact emits_throw _
  · exact checked _
  · split
    · exact checked _
    · split
      · exact emits_bind_silent here (emits_check _) fun _ _ _ _ _ => emits_pure trivial
      · split
        · exact (emits_loadDependencies behaves here proper).mono (Set.empty_subset _) fun _ => id
        · exact emits_throw _
      · exact checked _

variable (loader) in
theorem emits_addKeyword {act : Load KeywordValue} {key : String} (keyword : Keyword)
    (here : IsHere floor location session)
    (loaded : Emits floor location (Spot.elements key) act session fun _ => True)
    (builder : SchemaBuilder) :
    Emits floor location (Spot.within key)
      (addKeyword loader keyword (location.child [key]) act builder) session fun _ => True := by
  have put : Emits floor location (Spot.elements key) (do check (builder.put keyword (← act)))
      session fun _ => True := emits_bind_silent here loaded fun _ _ _ _ _ =>
    (emits_check _).mono le_rfl fun _ _ => trivial
  exact emits_recordingFaults_bind here put (fun _ _ _ _ => emits_pure trivial)
    (fun _ _ => emits_pure trivial) (Spot.value_not_mem_elements key key) (Set.disjoint_empty _)
    (Set.union_empty _).le

/-! ## Members -/

/-- What a member is complained about when its turn comes. -/
def Spot.ofMember (draft : Draft) (key : String) : Set Spot :=
  {spot | spot = .unknown key ∨ spot = .shape key ∨
    (plainKeyword? draft key).isSome ∧ spot ∈ within key}

theorem Spot.disjoint_ofMember {key key' : String} (other : key ≠ key') :
    Disjoint (ofMember draft key) (ofMember draft key') := by
  refine Set.disjoint_left.2 fun spot among among' => ?_
  rcases among with rfl | rfl | ⟨-, rfl | ⟨segment, rfl⟩⟩ <;>
    simp [ofMember, within, elements, other] at among'

theorem emits_recordUnknown (here : IsHere floor location session) (key : String) :
    Emits floor location {.unknown key} (recordUnknown loader key location) session
      fun _ => True := by
  unfold recordUnknown
  split
  · split
    · exact emits_issue here _ ⟨rfl, rfl⟩ location.place_child_nil
    · exact emits_issue here _ ⟨rfl, rfl⟩ location.place_child_nil
  · exact emits_pure trivial

include behaves in
/-- One member more. -/
theorem emits_loadMember (registry : loader.registry = .default)
    (here : IsHere floor location session) (mem : (key, value) ∈ members)
    (proper : value.IsProper) {accepted : List (String × Json)}
    (gathered : AreGathered draft members accepted) (builder : SchemaBuilder) :
    Emits floor location (Spot.ofMember draft key)
      (loadMember loader load location draft key value accepted builder) session
      fun found => AreGathered draft members found.1 := by
  unfold loadMember
  rw [registry]
  split
  · refine emits_bind_silent here ((emits_recordUnknown here key).mono ?_ fun _ => id)
      fun _ _ _ _ _ => emits_pure gathered
    exact Set.singleton_subset_iff.2 (.inl rfl)
  · next keyword found =>
    obtain ⟨known, rfl⟩ := find_default found
    dsimp only
    split
    · exact emits_throw _
    · next shape shaped =>
      split
      · have misshapen : Emits floor location {.shape keyword.key} (recordError loader
            .keywordTypeMismatch (location.child [keyword.key]) (.wrongShape keyword.key
              (Json.quotedNames (Shape.sortedNames (keyword.variantFor draft).expects)) shape.name))
            session fun _ => True := emits_issue here _ rfl rfl
        refine emits_bind_silent here (misshapen.mono ?_ fun _ => id)
          fun _ _ _ _ _ => emits_pure gathered
        exact Set.singleton_subset_iff.2 (.inr (.inl rfl))
      · next expected =>
        have expected : shape ∈ (keyword.variantFor draft).expects := by
          simpa using expected
        have more : AreGathered draft members (accepted ++ [(keyword.key, value)]) := by
          intro member among
          rcases List.mem_append.1 among with old | new
          · exact gathered member old
          · rw [List.mem_singleton.1 new]
            exact ⟨mem, keyword, shape, found, shaped, expected⟩
        split
        · exact emits_pure more
        · next single =>
          have plain : (plainKeyword? draft keyword.key).isSome := by
            rw [plainKeyword?, found, Option.filter_some, if_pos]
            · rfl
            · rw [Bool.eq_false_of_not_eq_true single]
              rfl
          have added := emits_addKeyword loader keyword here
            (emits_loadValue behaves known shaped expected here proper) builder
          exact emits_bind_silent here
            (added.mono (fun spot among => .inr (.inr ⟨plain, among⟩)) fun _ => id)
            fun _ _ _ _ _ => emits_pure more

include behaves in
theorem emits_loadMembers (registry : loader.registry = .default)
    (here : IsHere floor location session) (proper : (Json.object members).IsProper)
    (builder : SchemaBuilder) :
    Emits floor location {spot | ∃ member ∈ members, spot ∈ Spot.ofMember draft member.1}
      (members.foldlM (fun (accepted, builder) (key, value) =>
        loadMember loader load location draft key value accepted builder) ([], builder)) session
      fun found => AreGathered draft members found.1 := by
  have start : AreGathered draft members [] := nofun
  refine emits_foldlM (fun member mem found session here gathered =>
    emits_loadMember behaves registry here mem (proper.member mem) gathered found.2) ?_ here start
  exact (List.pairwise_map.1 proper.1).imp Spot.disjoint_ofMember

/-! ## Limits and items -/

theorem emits_loadLimit (here : IsHere floor location session) (accepted : List (String × Json))
    (bound exclusive : Keyword) (builder : SchemaBuilder) :
    Emits floor location {.value bound.key, .value exclusive.key}
      (loadLimit loader location draft accepted bound exclusive builder) session fun _ => True := by
  unfold loadLimit
  dsimp only
  refine emits_recordingFaults_bind (Q := fun _ => True) here
    (emits_silent_bind here (emits_check _) fun limit _ _ here _ => ?_)
    (fun _ _ _ _ => emits_pure trivial) (fun _ _ => emits_pure trivial) (Set.notMem_empty _)
    (Set.disjoint_empty _) ?_
  · split
    · exact (emits_check _).mono le_rfl fun _ _ => trivial
    · exact emits_pure trivial
  · rw [Set.union_empty]
    refine Set.insert_subset ?_ (Set.empty_subset _)
    split
    · exact .inl rfl
    · exact .inr rfl

/-- Keywords that are looked at later do not stand for themselves. -/
theorem plainKeyword_late : ∀ keyword ∈ lateKeywords, plainKeyword? draft keyword.key = none := by
  cases draft <;> decide

theorem isSchemaLike_items (accepted : IsAccepted draft (Builtin.items.key, value)) :
    IsSchemaLike value ∨ ∃ items, value = .array items := by
  obtain ⟨keyword, shape, found, shaped, expected⟩ := accepted
  rw [(find_late Builtin.items (by decide)).1] at found
  cases found
  have shapes : ∀ shape ∈ (Builtin.items.variantFor draft).expects,
      shape = .object ∨ shape = .array ∨ shape = .boolean := by
    cases draft <;> decide
  cases value with
  | object | bool => exact .inl trivial
  | array items => exact .inr ⟨items, rfl⟩
  | _ => cases shaped <;> rcases shapes _ expected with same | same | same <;> cases same

theorem isSchemaLike_additionalItems
    (accepted : IsAccepted draft (Builtin.additionalItems.key, value)) : IsSchemaLike value := by
  obtain ⟨keyword, shape, found, shaped, expected⟩ := accepted
  rw [(find_late Builtin.additionalItems (by decide)).1] at found
  cases found
  refine isSchemaLike_of_schema (by decide) ?_ shaped expected
  cases draft <;> rfl

theorem lookup_of_present {accepted : List (String × Json)}
    (found : Digest.present (accepted.lookup key) = some value) : (key, value) ∈ accepted :=
  Members.mem_of_lookup (Option.filter_eq_some_iff.1 found).1

include behaves in
/-- What is said about items is complained about at one member. -/
theorem emits_loadItems (here : IsHere floor location session)
    (proper : (Json.object members).IsProper) {accepted : List (String × Json)}
    (gathered : AreGathered draft members accepted) (builder : SchemaBuilder) :
    Emits floor location (Spot.within Builtin.items.key)
      (loadItems loader load location draft accepted builder) session fun _ => True := by
  have child : ∀ {key value}, Digest.present (accepted.lookup key) = some value →
      value.IsProper := fun found => proper.member (gathered _ (lookup_of_present found)).1
  have checked : ∀ {x : Except Fault SchemaBuilder} {spots : Set Spot} {session : Session},
      Emits floor location spots (check x) session fun _ => True :=
    (emits_check _).mono le_rfl fun _ _ => trivial
  have apart := Spot.value_not_mem_elements Builtin.items.key Builtin.items.key
  unfold loadItems
  dsimp only
  refine emits_recordingFaults_bind (Q := fun _ => True) here ?_ (fun builder later here _ => ?_)
    (fun _ _ => emits_pure trivial) apart (Set.disjoint_singleton_right.2 apart)
    (Set.union_subset le_rfl (Set.singleton_subset_iff.2 (.inl rfl)))
  · split
    · next items found =>
      exact emits_bind_silent here (emits_items behaves here (child found)) fun _ _ _ _ _ => checked
    · next value other found =>
      have like : IsSchemaLike value :=
        (isSchemaLike_items (gathered _ (lookup_of_present found)).2).resolve_right
          fun ⟨items, same⟩ => other items same
      have below := behaves.schema _ (location.child [Builtin.items.key]) draft _ location like
        (child found) here.clear here.ready
      exact emits_bind_silent here (below.mono (Set.empty_subset _) fun _ => id)
        fun _ _ _ _ _ => checked
    · exact emits_pure trivial
  -- A fault about additional items is recorded at `items` as well, but only if there was none yet.
  · refine emits_recordingFaults_bind (Q := fun _ => True) here ?_
      (fun _ _ _ _ => emits_pure trivial) (fun _ _ => emits_pure trivial) (Set.notMem_empty _)
      (Set.disjoint_empty _) (by simp)
    split
    · next value found =>
      have like := isSchemaLike_additionalItems (gathered _ (lookup_of_present found)).2
      exact emits_silent_bind here (behaves.schema _ (location.child [Builtin.additionalItems.key])
        draft _ location like (child found) here.clear here.ready) fun _ _ _ _ _ => checked
    · exact emits_pure trivial

/-- What is complained about a keyword that is looked at later is not complained about earlier. -/
theorem Spot.not_mem_ofMember {keyword : Keyword} (late : keyword ∈ lateKeywords) {key : String}
    {spot : Spot} (among : spot ∈ within keyword.key) : spot ∉ ofMember draft key := by
  rcases among with rfl | ⟨segment, rfl⟩
  all_goals
    rintro (same | same | ⟨plain, same | ⟨_, same⟩⟩) <;> cases same
    rw [plainKeyword_late keyword late] at plain
    exact absurd plain (by decide)

include behaves in
/-- The keywords of an object are complained about apart from its identifier. -/
theorem emits_loadKeywords (registry : loader.registry = .default)
    (here : IsHere floor location session) (proper : (Json.object members).IsProper)
    (builder : SchemaBuilder) :
    Emits floor location {spot | spot ≠ .identifier}
      (loadKeywords loader load members location draft builder) session fun _ => True := by
  let early : Set Spot := {spot | ∃ member ∈ members, spot ∈ Spot.ofMember draft member.1}
  let lower : Set Spot := {.value Builtin.minimum.key, .value Builtin.exclusiveMinimum.key}
  let upper : Set Spot := {.value Builtin.maximum.key, .value Builtin.exclusiveMaximum.key}
  let items : Set Spot := Spot.within Builtin.items.key
  have late : ∀ spot ∈ lower ∪ (upper ∪ items),
      ∃ keyword ∈ lateKeywords, spot ∈ Spot.within keyword.key := by
    rintro spot ((rfl | rfl) | (rfl | rfl) | among)
    · exact ⟨Builtin.minimum, by decide, .inl rfl⟩
    · exact ⟨Builtin.exclusiveMinimum, by decide, .inl rfl⟩
    · exact ⟨Builtin.maximum, by decide, .inl rfl⟩
    · exact ⟨Builtin.exclusiveMaximum, by decide, .inl rfl⟩
    · exact ⟨Builtin.items, by decide, among⟩
  have apart : Disjoint early (lower ∪ (upper ∪ items)) := by
    refine Set.disjoint_right.2 fun spot among => ?_
    obtain ⟨keyword, late, within⟩ := late spot among
    rintro ⟨member, _, among⟩
    exact Spot.not_mem_ofMember late within among
  have apart' : Disjoint lower (upper ∪ items) := by
    refine Set.disjoint_left.2 ?_
    rintro _ (rfl | rfl) ((same | same) | same | ⟨_, same⟩) <;>
      first | exact absurd same (by decide) | cases same
  have apart'' : Disjoint upper items := by
    refine Set.disjoint_left.2 ?_
    rintro _ (rfl | rfl) (same | ⟨_, same⟩) <;>
      first | exact absurd same (by decide) | cases same
  have total : early ∪ (lower ∪ (upper ∪ items)) ⊆ {spot | spot ≠ .identifier} := by
    rintro _ (⟨_, _, among⟩ | among) rfl
    · rcases among with same | same | ⟨-, same | ⟨_, same⟩⟩ <;> cases same
    · obtain ⟨_, _, same | ⟨_, same⟩⟩ := late _ among <;> cases same
  unfold loadKeywords
  dsimp only
  refine Emits.mono ?_ total fun _ => id
  refine emits_bind here (emits_loadMembers behaves registry here proper _)
    (fun found s₁ _ here gathered => ?_) apart
  refine emits_bind here (emits_loadLimit here _ _ _ _) (fun builder₁ s₂ _ here _ => ?_) apart'
  refine emits_bind here (emits_loadLimit here _ _ _ _) (fun builder₂ s₃ _ here _ => ?_) apart''
  split
  · exact emits_loadItems behaves here proper gathered _
  · exact emits_pure trivial

/-! ## Objects -/

include behaves in
theorem emits_loadStarted (registry : loader.registry = .default)
    (served : ∀ uri document, loader.client.fetch uri = .ok document → document.value.IsProper)
    (here : IsHere floor location session) (proper : (Json.object members).IsProper)
    (handle : HandleId) :
    Emits floor location {spot | spot ≠ .identifier}
      (loadStarted loader load members draft location handle) session fun _ => True := by
  rw [loadStarted_eq]
  have content : Emits floor location {spot | spot ≠ .identifier}
      (loadContent loader load members draft location) session fun _ => True := by
    unfold loadContent
    dsimp only
    split
    · exact emits_loadReference behaves served here _ _
    · exact emits_loadKeywords behaves registry here proper _
  refine emits_bind_silent here content fun builder s₁ _ here _ => ?_
  refine emits_silent_bind here (emits_addNode _ _ _) fun schema s₂ _ here _ => ?_
  exact emits_silent_bind here (emits_bindHandle _ _) fun _ _ _ _ _ => emits_pure trivial

end Below

theorem Knows.congr {location' : Location} (knows : Knows session location)
    (same : location.place = location'.place) : Knows session location' := by
  obtain ⟨uri, place, found⟩ := knows
  exact ⟨uri, (Location.absoluteUri_place same).symm.trans place, found⟩

/-- An object that is not met was not begun. -/
theorem not_knows_of_unmet (unmet : session.cache.lookupLocation location = .ok none) :
    ¬ Knows session location := by
  rintro ⟨uri, place, found⟩
  obtain ⟨keys, listed, none⟩ := except_bind_ok unmet
  obtain ⟨uri', place', mem⟩ := Location.absoluteUri_mem listed
  rw [place] at place'
  cases place'
  have missing := List.findSome?_eq_none_iff.1 (Except.ok.inj none) uri mem
  rw [missing] at found
  cases found

/-- An object that is started was begun. -/
theorem knows_of_start {handle : HandleId} {cache : Cache} {graph : SchemaGraph}
    (started : session.cache.start session.graph location = .ok (handle, cache, graph)) :
    Knows { session with cache, graph } location := by
  obtain ⟨keys, listed, rfl, rfl, rfl⟩ := Session.start_eq started
  obtain ⟨uri, place, mem⟩ := Location.absoluteUri_mem listed
  refine ⟨uri, place, ?_⟩
  dsimp only
  rw [Cache.lookup_enter, if_pos mem, Option.isSome_or, Option.isSome_some, Bool.or_true]

/-- What is said about a new object when it was begun, after what was said about its identifier, is
said about no other one. -/
theorem Complains.of_new {last : Session} {old : Option Issue} (here : IsHere floor location later)
    (unknown : ¬ Knows session location) (keeps : session.Keeps later)
    (added : later.report.issues = session.report.issues ++ old.toList)
    (identifier : ∀ issue ∈ old, Spot.identifier.Of location issue)
    (rest : Complains floor location {spot | spot ≠ .identifier} later last) (other : Location) :
    Complains floor other ∅ session last := by
  obtain ⟨new, added', alike, about⟩ := rest.issues
  refine ⟨keeps.trans rest.keeps, fun _ => rest.ready here.ready, old.toList ++ new, ?_, ?_, ?_⟩
  · rw [added', added, List.append_assoc]
  · refine List.pairwise_append.2 ⟨?_, alike, fun a mem b mem' same => ?_⟩
    · cases old with
      | none => exact List.Pairwise.nil
      | some issue => exact List.pairwise_singleton _ _
    · have of := identifier a (Option.mem_toList.1 mem)
      rcases about b mem' with stands | ⟨spot, among, of'⟩ | fresh
      · exact stands.congr same.symm
      · obtain ⟨-, rfl⟩ := of.unique of' same here.clear here.clear
        exact absurd rfl among
      · exact (fresh.not_of_known here.clear here.knows of same.symm).elim
  · have mine : ∀ {issue} (spot : Spot), spot.Of location issue → IsOfNew session last issue :=
      fun spot of => ⟨location, here.clear, unknown, here.knows.keep rest.keeps, spot, of⟩
    intro issue mem
    rcases List.mem_append.1 mem with mem | mem
    · exact .inr (.inr (mine _ (identifier issue (Option.mem_toList.1 mem))))
    · rcases about issue mem with stands | ⟨spot, _, of⟩ | ⟨owner, clear, fresh, known, of⟩
      · exact .inl stands
      · exact .inr (.inr (mine spot of))
      · exact .inr (.inr ⟨owner, clear, fun knows => fresh (knows.keep keeps), known, of⟩)

/-- An identifier gives a name, or is complained about, or ends the session. -/
theorem applyIdentifier_cases (loader : Loader) (identifier : Json) (location : Location)
    (session : Session) :
    (∃ named, (applyIdentifier loader identifier location).run.run session = (.ok named, session) ∧
      named.place = location.place) ∨
    (∃ issue, (applyIdentifier loader identifier location).run.run session =
      (.ok location, { session with report := session.report.add issue }) ∧
      Spot.identifier.Of location issue) ∨
    ∃ stop later, (applyIdentifier loader identifier location).run.run session =
      (.error stop, later) ∧ ((∃ report, stop = .rejected report) ∨ later = session) := by
  unfold applyIdentifier
  split
  · next text =>
    split
    · next named ok => exact .inl ⟨named, rfl, Prod.ext (withId_place ok).1 (withId_place ok).2⟩
    · next fault _ =>
      rcases recordError_cases loader .uriMalformed location
        (.badIdentifier text (.badUri fault)) session with
        ⟨uri, place, recorded⟩ | ⟨stop, later, ended, why⟩
      · rw [Location.absoluteUri_place location.place_child_nil] at place
        exact .inr (.inl ⟨_, run_bind_ok recorded, ⟨rfl, text, _, rfl⟩, place⟩)
      · exact .inr (.inr ⟨stop, later, run_bind_error ended, why⟩)
  · exact .inl ⟨location, rfl, rfl⟩

section Object

variable (behaves : Behaves loader floor load) (registry : loader.registry = .default)
  (served : ∀ uri document, loader.client.fetch uri = .ok document → document.value.IsProper)

include behaves registry served

/-- Beginning an object and loading what it holds is no complaint about another one. -/
theorem complains_begun {noted : Session} {old : Option Issue} (clear : location.IsClear)
    (unknown : ¬ Knows session location) (keeps : session.Keeps noted) (ready : IsReady floor noted)
    (added : noted.report.issues = session.report.issues ++ old.toList)
    (identifier : ∀ issue ∈ old, Spot.identifier.Of location issue)
    (keyed : old.isSome → ∃ keys, location.cacheKeys = .ok keys)
    (proper : (Json.object members).IsProper) {result : Except Stop Schema} {last : Session}
    (run : (start location >>= loadStarted loader load members draft location).run.run noted =
      (result, last)) (going : ∀ report, result ≠ .error (.rejected report)) (other : Location) :
    Complains floor other ∅ session last := by
  have starts := run_start noted location
  cases started : noted.cache.start noted.graph location with
  | error fault =>
    rw [started] at starts
    dsimp only at starts
    rw [run_bind_error starts] at run
    cases run
    cases old with
    | none =>
      exact ⟨keeps, fun _ => ready, [], added, List.Pairwise.nil,
        fun _ mem => absurd mem List.not_mem_nil⟩
    | some issue =>
      -- An issue would be left about an object that is not begun, if starting could fail here.
      obtain ⟨keys, listed⟩ := keyed rfl
      unfold Cache.start at started
      rw [listed] at started
      cases started
  | ok begun =>
    obtain ⟨handle, cache, graph⟩ := begun
    rw [started] at starts
    dsimp only at starts
    have kept := keeps_start location noted
    rw [starts] at kept
    rw [run_bind_ok starts] at run
    have here : IsHere floor location { noted with cache, graph } := by
      refine ⟨clear, knows_of_start started, ready.handles.trans kept.handles.size_le, ?_⟩
      obtain ⟨keys, _, _, rfl, _⟩ := Session.start_eq started
      exact ready.proper
    exact Complains.of_new here unknown (keeps.trans kept) added identifier
      ((emits_loadStarted behaves registry served here proper handle).complains _ _ run going) other

/-- An object that was not met is complained about apart from every other one. -/
theorem emits_loadObject (ready : IsReady floor session) (clear : location.IsClear)
    (unmet : session.cache.lookupLocation location = .ok none)
    (proper : (Json.object members).IsProper) (other : Location) :
    Emits floor other ∅ (loadObject loader load members location draft) session fun _ => True := by
  refine ⟨fun result last run going => ?_, fun _ _ _ => trivial⟩
  have unknown := not_knows_of_unmet unmet
  obtain ⟨keys, listed, -⟩ := except_bind_ok unmet
  have named : ∀ named : Location, named.place = location.place →
      (start named >>= loadStarted loader load members draft named).run.run session =
        (result, last) → Complains floor other ∅ session last := by
    intro named same run
    have clear' : named.IsClear := clear.congr (congrArg Prod.fst same).symm
    have added : session.report.issues = session.report.issues ++ (none : Option Issue).toList :=
      (List.append_nil _).symm
    exact complains_begun behaves registry served clear' (fun knows => unknown (knows.congr same))
      (Session.keeps_of_ledger rfl) ready added (fun _ mem => absurd mem (Option.not_mem_none _))
      (fun given => absurd given Bool.false_ne_true) proper run going other
  rw [loadObject_eq] at run
  split at run
  · next identifier _ _ =>
    rcases applyIdentifier_cases loader identifier location session with
      ⟨here, applied, same⟩ | ⟨issue, applied, of⟩ | ⟨stop, later, applied, why⟩
    · rw [run_bind_ok applied] at run
      exact named here same run
    · rw [run_bind_ok applied] at run
      have said : ∀ other ∈ some issue, Spot.identifier.Of location other := by
        rintro _ ⟨⟩
        exact of
      have keeps : session.Keeps { session with report := session.report.add issue } :=
        Session.keeps_of_ledger rfl
      exact complains_begun behaves registry served clear unknown keeps
        ⟨ready.handles, ready.proper⟩ rfl said (fun _ => ⟨keys, listed⟩) proper run going other
    · rw [run_bind_error applied] at run
      cases run
      rcases why with ⟨report, rfl⟩ | rfl
      · exact absurd rfl (going report)
      · exact complains_refl _
  · rw [pure_bind] at run
    exact named location rfl run

/-- An object is complained about once, however often it is come to. -/
theorem emits_nodeWith (value : Json) (draft : Draft) (other : Location) (like : IsSchemaLike value)
    (proper : value.IsProper) (clear : location.IsClear) (ready : IsReady floor session) :
    Emits floor other ∅ (nodeWith loader load value location draft) session fun _ => True := by
  cases value with
  | bool b => exact emits_pure trivial
  | object members =>
    unfold nodeWith
    dsimp only
    cases met : session.cache.lookupLocation location with
    | error fault =>
      have looked : (lookupLocation location).run.run session =
          (.error (.fault (.badUri fault)), session) := by
        change (checkUri (session.cache.lookupLocation location)).run.run session = _
        rw [met]
        rfl
      exact emits_of_error (run_bind_error looked) fun _ => complains_refl session
    | ok found =>
      refine Emits.congr ?_ (run_bind_ok (run_lookupLocation_eq met))
      cases found with
      | none => exact emits_loadObject behaves registry served ready clear met proper other
      | some handle =>
        have got : (get : Load Session).run.run session = (.ok session, session) := rfl
        refine Emits.congr ?_ (run_bind_ok got)
        split
        · exact emits_pure trivial
        · exact emits_step (.referTo _ _ _)
  | _ => exact like.elim

end Object

theorem behaves_loadNode (registry : loader.registry = .default)
    (served : ∀ uri document, loader.client.fetch uri = .ok document → document.value.IsProper)
    (floor depth : Nat) : Behaves loader floor (loadNode loader depth) := by
  induction depth with
  | zero =>
    exact ⟨fun _ _ _ _ _ _ _ _ _ => emits_throw _, fun _ _ _ _ => .inl rfl⟩
  | succ depth ih =>
    refine ⟨fun value target draft session other like proper clear ready =>
      emits_nodeWith ih registry served value draft other like proper clear ready,
      fun value target draft unlike => .inr ?_⟩
    cases value with
    | object | bool => exact absurd trivial unlike
    | _ => rfl

/-! ## Loads -/

theorem isClear_of_isBuilt (built : location.IsBuilt) : location.IsClear := by
  induction built with
  | root ok => exact isClear_root ok
  | child _ segments clear => exact clear
  | withId _ ok clear => exact clear.congr (withId_place ok).1.symm

/-- Loading a value adds issues that read differently, apart from those about stand-ins. -/
theorem loadNode_issues (registry : loader.registry = .default)
    (served : ∀ uri document, loader.client.fetch uri = .ok document → document.value.IsProper)
    (proper : value.IsProper) (clear : location.IsClear) (ready : IsReady floor session)
    {depth : Nat} {schema : Schema}
    (run : (loadNode loader depth value location draft).run.run session = (.ok schema, later)) :
    ∃ new, later.report.issues = session.report.issues ++ new ∧
      new.Pairwise fun a b => a.key = b.key → IsStandIn floor later a := by
  have behaves := behaves_loadNode registry served floor depth
  by_cases like : IsSchemaLike value
  · have emits := behaves.schema value location draft session location like proper clear ready
    obtain ⟨new, added, alike, _⟩ := (emits.complains _ _ run nofun).issues
    exact ⟨new, added, alike⟩
  · rcases behaves.misfit value location draft like with same | same
    · rw [same] at run
      cases run
    · rw [same] at run
      obtain ⟨_, s₁, recorded, run⟩ := run_bind_eq_ok run
      cases run
      rcases recordError_cases loader .schemaTypeMismatch location
        (.notASchema value.shapeName) session with ⟨uri, _, noted⟩ | ⟨stop, last, ended, _⟩
      · rw [noted] at recorded
        cases recorded
        exact ⟨[_], rfl, List.pairwise_singleton _ _⟩
      · rw [ended] at recorded
        cases recorded

/-- Of the issues that one load adds, two of the same code, location and message are about a value
that is no schema, and that a reference led to: a handle of this load stands at its place, bound to
the schema that accepts everything. -/
theorem load_repeats (ready : loader.IsReady) {document : Document}
    (proper : document.value.IsProper) (built : location.IsBuilt)
    (stored : ∀ entry ∈ session.documents, entry.2.document.value.IsProper) {schema : Schema}
    (run : (Load.load loader document location).run.run session = (.ok schema, later)) :
    ∃ new, later.report.issues = session.report.issues ++ new ∧
      new.Pairwise fun a b => a.key = b.key →
        IsStandIn session.graph.handles.size later a := by
  have fresh : IsReady session.graph.handles.size session := ⟨le_rfl, stored⟩
  have walked : ∀ {s₁ : Session} {draft : Draft}, s₁.report = session.report →
      IsReady session.graph.handles.size s₁ → (do
        let depth := depthBound loader (← get).cache document.value
        loadNode loader depth document.value location draft : Load Schema).run.run s₁ =
          (.ok schema, later) →
      ∃ new, later.report.issues = session.report.issues ++ new ∧
        new.Pairwise fun a b => a.key = b.key → IsStandIn session.graph.handles.size later a := by
    intro s₁ draft report known run
    obtain ⟨_, _, got, run⟩ := run_bind_eq_ok run
    cases got
    rw [← report]
    exact loadNode_issues ready.registry ready.served proper (isClear_of_isBuilt built) known run
  unfold Load.load at run
  obtain ⟨found, s₁, looked, run⟩ := run_bind_eq_ok run
  obtain ⟨_, same⟩ := run_document looked
  rw [same] at run
  cases found with
  | some stored => exact walked rfl fresh run
  | none =>
    dsimp only at run
    split at run
    · obtain ⟨_, s₂, added, run⟩ := run_bind_eq_ok run
      have quiet := isQuiet_addDocument location.documentUri document
        (draftOf loader document.value) session
      have emits : Emits session.graph.handles.size location ∅ (addDocument location.documentUri
          document (draftOf loader document.value)) session fun _ => True :=
        emits_addDocument _ proper _
      rw [added] at quiet
      exact walked quiet ((emits.complains _ _ added nofun).ready fresh) run
    · exact walked rfl fresh run

/-! ## A number that is referred to -/

namespace Misfit

/-- A document with a number in the place of a schema, and a reference to it. -/
def document : Document where
  id := ⟨0⟩
  value := .object [("properties", .object [("a", .number (.int 5)),
    ("b", .object [("$ref", .string "#/properties/a")])])]

theorem isProper : document.value.IsProper :=
  ⟨by decide, ⟨⟨by decide, ⟨trivial, ⟨by decide, ⟨trivial, trivial⟩⟩, trivial⟩⟩, trivial⟩⟩

/-- Loading the document at its root. -/
@[irreducible]
def loading : Except Stop Schema × Session :=
  (Load.load Linked.loader document Linked.root).run.run .empty

/-- The number is complained about twice. -/
theorem keys_loading : loading.1.toOption.isSome = true ∧
    loading.2.report.issues.map Issue.key = List.replicate 2 (.schemaTypeMismatch,
      "http://e.com/list.json#/properties/a",
      "Expected a schema (object or boolean) but got number") := by
  decide +kernel

end Misfit

/-- The two issues about the number read the same, and it has a stand-in. -/
theorem load_repeats_misfit : ∃ schema session issue again,
    (Load.load Linked.loader Misfit.document Linked.root).run.run .empty = (.ok schema, session) ∧
      session.report.issues = [issue, again] ∧ issue.key = again.key ∧
      IsStandIn 0 session issue := by
  have ⟨ends, keys⟩ := Misfit.keys_loading
  unfold Misfit.loading at ends keys
  cases run : (Load.load Linked.loader Misfit.document Linked.root).run.run .empty with
  | mk result session =>
    rw [run] at ends keys
    cases result with
    | error stop => cases ends
    | ok schema =>
      have built : Linked.root.IsBuilt :=
        .root (toOption_ok (by decide +kernel : (Location.root "http://e.com/list.json").toOption =
          some Linked.root))
      obtain ⟨new, added, alike⟩ := load_repeats Linked.isReady Misfit.isProper built
        (fun _ mem => absurd mem List.not_mem_nil) run
      rw [show session.report.issues = new from added] at keys
      obtain ⟨issue, rest, rfl, first, keys⟩ := List.map_eq_cons_iff.1 keys
      obtain ⟨again, rest, rfl, second, keys⟩ := List.map_eq_cons_iff.1 keys
      obtain rfl := List.map_eq_nil_iff.1 keys
      have same : issue.key = again.key := first.trans second.symm
      exact ⟨schema, session, issue, again, rfl, added, same,
        List.rel_of_pairwise_cons alike List.mem_cons_self same⟩

end Load

end JsonSchema
