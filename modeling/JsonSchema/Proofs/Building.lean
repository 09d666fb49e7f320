import JsonSchema.Proofs.Values

/-!
# Building schemas of objects

The members of an object become keywords in three goes: those that stand for themselves in order,
the limits, and what is said about items. The loop over the members keeps that the keywords so far
say what the members so far say (`works_loadMembers`), so the finished list says what the object says
(`works_loadKeywords`).
-/

namespace JsonSchema

/-! ## Putting keywords -/

namespace SchemaBuilder

variable {builder builder' : SchemaBuilder} {keyword : Keyword} {value : KeywordValue}

theorem put_keywords (ok : builder.put keyword value = .ok builder') :
    builder'.keywords = Members.put builder.keywords keyword value := by
  obtain ⟨_, _, same⟩ := except_bind_ok ok
  cases same
  rfl

theorem put_check (ok : builder.put keyword value = .ok builder') :
    check keyword value = .ok () := by
  obtain ⟨_, fits, _⟩ := except_bind_ok ok
  exact fits

theorem put_absent (ok : builder.put keyword value = .ok builder')
    (absent : keyword ∉ Members.keys builder.keywords) :
    builder'.keywords = builder.keywords ++ [(keyword, value)] := by
  rw [put_keywords ok, Members.put_new value absent]

theorem items_absent {every : Option Schema} {each : Option (List Schema)}
    (ok : builder.items every each = .ok builder')
    (absent : Builtin.items ∉ Members.keys builder.keywords) :
    ∃ loaded, KeywordValue.makeItems every each none = .ok loaded ∧
      builder'.keywords = builder.keywords ++ [(Builtin.items, loaded)] := by
  unfold items get? at ok
  rw [Members.lookup_eq_none.2 absent] at ok
  change builder.putItems every each none = _ at ok
  unfold putItems at ok
  split at ok
  · next loaded made => exact ⟨loaded, made, put_absent ok absent⟩
  · cases ok

/-- What is said about additional items comes to what is said about items. -/
theorem additionalItems_last {front : List (Keyword × KeywordValue)} {form : ItemsForm}
    {schema : Schema} (ok : builder.additionalItems schema = .ok builder')
    (absent : Builtin.items ∉ Members.keys front)
    (before : builder.keywords = front ∧ form = .absent ∨
      builder.keywords = front ++ [(Builtin.items, .items form none)]) :
    builder'.keywords = front ++ [(Builtin.items, .items form (some schema))] := by
  have put := put_keywords ok
  unfold get? at put
  rcases before with ⟨same, rfl⟩ | same
  · rw [same, Members.lookup_eq_none.2 absent] at put
    rw [put, Members.put_new _ absent]
  · have found : (front ++ [(Builtin.items, KeywordValue.items form none)]).lookup Builtin.items =
        some (KeywordValue.items form none) := by
      rw [List.lookup_append, Members.lookup_eq_none.2 absent]
      rfl
    rw [same, found] at put
    rw [put, Members.put_last _ _ absent]

end SchemaBuilder

theorem Members.lookup_filter {α : Type} {accepts : String → Bool} {members : List (String × α)}
    {key : String} (accepted : accepts key = true) :
    (members.filter fun member => accepts member.1).lookup key = members.lookup key := by
  induction members with
  | nil => rfl
  | cons first rest ih =>
    obtain ⟨other, value⟩ := first
    by_cases same : key = other
    · subst same
      rw [List.filter_cons, if_pos accepted, List.lookup_cons_self, List.lookup_cons_self]
    · have different : (key == other) = false := beq_eq_false_iff_ne.2 same
      rw [List.lookup_cons, different, ← ih]
      by_cases kept : accepts other = true
      · rw [List.filter_cons, if_pos kept, List.lookup_cons, different]
      · rw [List.filter_cons, if_neg kept]

namespace Load

open Setting

variable {Ω : Type} [Preorder Ω] [Setting Ω] {w : Ω} {loader : Loader} {load : NodeLoader}
  {location : Location} {draft : Draft} {key : String} {value : Json} {builder : SchemaBuilder}

/-- A keyword is added with the value that was loaded for it. -/
theorem works_addKeyword {keyword : Keyword} {act : Load KeywordValue}
    {Q : KeywordValue → Ω → Prop} {location : Location}
    (here : Admits w location.place)
    (absent : IsClean w → keyword ∉ Members.keys builder.keywords) (body : Works act w Q) :
    Works (addKeyword loader keyword location act builder) w (fun builder' w' => IsClean w' →
      ∃ loaded, builder'.keywords = builder.keywords ++ [(keyword, loaded)] ∧
        SchemaBuilder.check keyword loaded = .ok () ∧ Q loaded w') := by
  have put : Works (do check (builder.put keyword (← act))) w (fun builder' w' =>
      ∃ loaded, builder.put keyword loaded = .ok builder' ∧ Q loaded w') :=
    after_bind body (fun loaded w' _ holds => works_check (fun _ ok => ⟨loaded, ok, holds⟩))
  refine after_bind (works_recordingFaults here put) (fun result w' up added => after_pure ?_)
  intro clean
  obtain ⟨builder', rfl, loaded, ok, holds⟩ := added clean
  exact ⟨loaded, SchemaBuilder.put_absent ok (absent (clean.anti up)),
    SchemaBuilder.put_check ok, holds⟩

/-! ## Members -/

/-- The members that were gathered are some of those so far. -/
def AreGathered (draft : Draft) (members accepted : List (String × Json)) : Prop :=
  ∀ member ∈ accepted, member ∈ members ∧ IsAccepted draft member

/-- What the members so far have given. -/
structure HasMembers (w : Ω) (location : Location) (draft : Draft)
    (members accepted : List (String × Json)) (builder : SchemaBuilder) : Prop where
  kept : accepted = members.filter fun member => isKeyword draft member.1
  reads : List.Forall₂ (ReadsMember (Below w location draft) draft)
    (plainMembers draft members) builder.keywords

theorem HasMembers.mono {members accepted : List (String × Json)}
    (up : w ≤ w') (has : HasMembers w location draft members accepted builder) :
    HasMembers w' location draft members accepted builder where
  kept := has.kept
  reads := has.reads.imp fun _ _ read =>
    ⟨read.1, read.2.1, read.2.2.mono fun _ _ _ => Below.mono up⟩

theorem keys_of_reads {sub : Sub} {members : List (Keyword × Json)}
    {keywords : List (Keyword × KeywordValue)}
    (reads : List.Forall₂ (ReadsMember sub draft) members keywords) :
    Members.keys keywords = members.map Prod.fst := by
  induction reads with
  | nil => rfl
  | cons first _ ih =>
    rw [List.map_cons, ← ih, ← first.1]
    rfl

theorem plainKeyword_key {keyword : Keyword} (found : plainKeyword? draft key = some keyword) :
    keyword.key = key :=
  (find_default (Option.filter_eq_some_iff.1 found).1).2

theorem mem_plainMembers {members : List (String × Json)} {member : Keyword × Json}
    (mem : member ∈ plainMembers draft members) :
    (member.1.key, member.2) ∈ members ∧ plainKeyword? draft member.1.key = some member.1 := by
  obtain ⟨⟨key, value⟩, found, same⟩ := List.mem_filterMap.1 mem
  obtain ⟨keyword, plain, rfl⟩ := Option.map_eq_some_iff.1 same
  obtain rfl := plainKeyword_key plain
  exact ⟨found, plain⟩

/-- The keywords of distinct keys are distinct. -/
theorem not_mem_plainMembers {members : List (String × Json)} {keyword : Keyword}
    (new : keyword.key ∉ Members.keys members) :
    keyword ∉ (plainMembers draft members).map Prod.fst := by
  intro mem
  obtain ⟨member, listed, rfl⟩ := List.mem_map.1 mem
  exact new (List.mem_map.2 ⟨_, (mem_plainMembers listed).1, rfl⟩)

theorem plainMembers_append (members : List (String × Json)) (key : String) (value : Json) :
    plainMembers draft (members ++ [(key, value)]) = plainMembers draft members ++
      ((plainKeyword? draft key).map fun keyword => (keyword, value)).toList := by
  unfold plainMembers
  rw [List.filterMap_append]
  cases found : plainKeyword? draft key with
  | none => simp [found]
  | some keyword => simp [found]

section Members

variable {members accepted : List (String × Json)}

/-- A member that is no keyword changes nothing. -/
theorem HasMembers.unknown (has : HasMembers w location draft members accepted builder)
    (value : Json) (none : Registry.default.find? key (some draft) = none) :
    HasMembers w location draft (members ++ [(key, value)]) accepted builder where
  kept := by
    rw [List.filter_append, ← has.kept, List.filter_singleton, isKeyword, none, Option.isSome_none,
      cond_false, List.append_nil]
  reads := by
    rw [plainMembers_append, plainKeyword?, none]
    exact (List.append_nil (plainMembers draft members)).symm ▸ has.reads

theorem AreGathered.later (gathered : AreGathered draft members accepted)
    (key : String) (value : Json) : AreGathered draft (members ++ [(key, value)]) accepted :=
  fun member mem => ⟨List.mem_append_left _ (gathered member mem).1, (gathered member mem).2⟩

theorem AreGathered.accept (gathered : AreGathered draft members accepted)
    (shaped : IsAccepted draft (key, value)) :
    AreGathered draft (members ++ [(key, value)]) (accepted ++ [(key, value)]) := by
  intro member mem
  rcases List.mem_append.1 mem with old | new
  · exact gathered.later key value member old
  · rw [List.mem_singleton.1 new]
    exact ⟨List.mem_append_right _ List.mem_cons_self, shaped⟩

theorem HasMembers.accept (has : HasMembers w location draft members accepted builder)
    (shaped : IsAccepted draft (key, value)) :
    accepted ++ [(key, value)] =
      (members ++ [(key, value)]).filter (fun member => isKeyword draft member.1) := by
  obtain ⟨keyword, _, found, _⟩ := shaped
  rw [List.filter_append, ← has.kept, List.filter_singleton, isKeyword, found, Option.isSome_some,
    cond_true]

/-- A member that is looked at later is gathered. -/
theorem HasMembers.later (has : HasMembers w location draft members accepted builder)
    (shaped : IsAccepted draft (key, value)) (none : plainKeyword? draft key = none) :
    HasMembers w location draft (members ++ [(key, value)]) (accepted ++ [(key, value)])
      builder where
  kept := has.accept shaped
  reads := by
    rw [plainMembers_append, none]
    exact (List.append_nil (plainMembers draft members)).symm ▸ has.reads

/-- A member becomes a keyword. -/
theorem HasMembers.plain {keyword : Keyword} {loaded : KeywordValue} {builder' : SchemaBuilder}
    (has : HasMembers w location draft members accepted builder)
    (shaped : IsAccepted draft (key, value)) (found : plainKeyword? draft key = some keyword)
    (added : builder'.keywords = builder.keywords ++ [(keyword, loaded)])
    (reads : ReadsMember (Below w location draft) draft (keyword, value)
      (keyword, loaded)) :
    HasMembers w location draft (members ++ [(key, value)]) (accepted ++ [(key, value)])
      builder' where
  kept := has.accept shaped
  reads := by
    rw [plainMembers_append, found, added]
    exact List.rel_append has.reads (.cons reads .nil)

end Members

variable (loads : LoadsIn Ω load) (registry : loader.registry = .default)

include loads registry in
/-- One member more. -/
theorem works_loadMember {members accepted : List (String × Json)}
    (new : key ∉ Members.keys members) (here : Admits w location.place)
    (member : Admits w (location.child [key]).place)
    (due : ∀ keyword, Registry.default.find? key (some draft) = some keyword →
      AreDue w location draft key ((keyword.variantFor draft).kind.parts value))
    (gathered : AreGathered draft members accepted)
    (has : IsClean w → HasMembers w location draft members accepted builder) :
    Works (loadMember loader load location draft key value accepted builder) w
      (fun found w' => AreGathered draft (members ++ [(key, value)]) found.1 ∧
        (IsClean w' →
          HasMembers w' location draft (members ++ [(key, value)]) found.1 found.2)) := by
  have before : ∀ {w' : Ω}, w ≤ w' → IsClean w' →
      HasMembers w' location draft members accepted builder :=
    fun up clean => (has (clean.anti up)).mono up
  unfold loadMember
  rw [registry]
  split
  · next none =>
    refine after_bind (works_recordUnknown key here) (fun _ w' up _ => after_pure ?_)
    exact ⟨gathered.later key value, fun clean => (before up clean).unknown value none⟩
  · next keyword found =>
    obtain ⟨known, same⟩ := find_default found
    dsimp only
    split
    · exact works_throw _
    · next shape shaped =>
      split
      · refine after_bind (works_recordError _ _ member) (fun _ w' up unclean => after_pure ?_)
        exact ⟨gathered.later key value, fun clean => absurd clean unclean⟩
      · next expected =>
        have expected : shape ∈ (keyword.variantFor draft).expects := by
          simpa using expected
        have accepted' : IsAccepted draft (key, value) := ⟨keyword, shape, found, shaped, expected⟩
        split
        · next merged =>
          refine after_pure ⟨gathered.accept accepted', fun clean =>
            (before le_rfl clean).later accepted' ?_⟩
          rw [plainKeyword?, found, Option.filter_some, if_neg]
          rw [merged]
          decide
        · next single =>
          have plain : plainKeyword? draft key = some keyword := by
            rw [plainKeyword?, found, Option.filter_some, if_pos]
            rw [Bool.eq_false_of_not_eq_true single]
            rfl
          subst same
          refine after_bind (works_addKeyword member ?_
            (works_loadValue loads (Keyword.isUsual_of_mem known draft) shaped expected
              (due keyword found))) (fun builder' w' up added =>
                after_pure ⟨gathered.accept accepted', fun clean => ?_⟩)
          · intro clean
            rw [keys_of_reads (has clean).reads]
            exact not_mem_plainMembers new
          · obtain ⟨loaded, same, fits, reads⟩ := added clean
            exact (before up clean).plain accepted' plain same ⟨rfl, fits, reads clean⟩

/-! ## Limits -/

omit loads registry in
/-- Keywords that are looked at later do not stand for themselves. -/
theorem not_mem_plain {members : List (String × Json)} {keyword : Keyword}
    (kind : (keyword.variantFor draft).kind = .limit ∨ (keyword.variantFor draft).kind = .items) :
    keyword ∉ (plainMembers draft members).map Prod.fst := by
  intro mem
  obtain ⟨member, listed, rfl⟩ := List.mem_map.1 mem
  have single := (Option.filter_eq_some_iff.1 (mem_plainMembers listed).2).2
  rcases kind with kind | kind
  · simp [kind] at single
  · simp [kind] at single

theorem mem_keys_limitEntries {members : List (String × Json)} {bound exclusive keyword : Keyword}
    (mem : keyword ∈ Members.keys (limitEntries draft members bound exclusive)) :
    keyword = bound := by
  unfold limitEntries at mem
  split at mem
  · exact List.mem_singleton.1 mem
  · exact absurd mem List.not_mem_nil

omit loads registry in
/-- Where the keywords of an object come from. -/
theorem Reads.cases {sub : Sub} {members : List (String × Json)}
    {keywords : List (Keyword × KeywordValue)} {keyword : Keyword} {value : KeywordValue}
    (reads : Reads sub draft members keywords) (mem : (keyword, value) ∈ keywords) :
    (∃ json, (keyword.key, json) ∈ members ∧ plainKeyword? draft keyword.key = some keyword ∧
      ReadsMember sub draft (keyword, json) (keyword, value)) ∨
    (keyword, value) ∈ limitEntries draft members Builtin.minimum Builtin.exclusiveMinimum ∨
    (keyword, value) ∈ limitEntries draft members Builtin.maximum Builtin.exclusiveMaximum ∨
    ∃ items, ReadsItems sub members items ∧ (keyword, value) ∈ items := by
  obtain ⟨_, plain, items, each, rest, rfl⟩ := reads
  rcases List.mem_append.1 mem with mem | mem
  · rcases List.mem_append.1 mem with mem | mem
    · rcases List.mem_append.1 mem with mem | mem
      · obtain ⟨⟨keyword', json⟩, listed, read⟩ := exists_of_forall₂ each.flip mem
        obtain rfl : keyword = keyword' := read.1
        obtain ⟨member, plain⟩ := mem_plainMembers listed
        exact .inl ⟨json, member, plain, read⟩
      · exact .inr (.inl mem)
    · exact .inr (.inr (.inl mem))
  · exact .inr (.inr (.inr ⟨items, rest, mem⟩))

theorem not_mem_limit {members : List (String × Json)} {bound exclusive keyword : Keyword}
    {keywords : List (Keyword × KeywordValue)} (absent : keyword ∉ Members.keys keywords)
    (other : keyword ≠ bound) :
    keyword ∉ Members.keys (keywords ++ limitEntries draft members bound exclusive) := by
  rw [Members.keys, List.map_append, List.mem_append, not_or]
  exact ⟨absent, fun mem => other (mem_keys_limitEntries mem)⟩

/-- The members that were gathered are addressed. -/
def AreAddressed (w : Ω) (location : Location) (accepted : List (String × Json)) :
    Prop :=
  ∀ key value, accepted.lookup key = some value →
    Admits w (location.child [key]).place

theorem make_ok {bound exclusive : Option Json} {flag : Bool} {limit : Limit}
    (ok : Limit.make bound flag exclusive = .ok limit) :
    limit = { bound, exclusive := flag, exclusiveBound := exclusive } := by
  unfold Limit.make at ok
  split at ok
  · cases ok
  · split at ok
    · cases ok
    · cases ok
      rfl

/-- A bound and its exclusive companion make a limit, if one of them is there. -/
def AreBounds (draft : Draft) (members : List (String × Json)) (bound exclusive : Keyword) : Prop :=
  ∃ limit, Digest.limit bound.key exclusive.key (members.lookup bound.key)
    (members.lookup exclusive.key) draft = .ok limit

theorem works_loadLimit {accepted : List (String × Json)} {bound : Keyword} (exclusive : Keyword)
    (addressed : AreAddressed w location accepted)
    (absent : IsClean w → bound ∉ Members.keys builder.keywords) :
    Works (loadLimit loader location draft accepted bound exclusive builder) w
      (fun builder' w' => IsClean w' → AreBounds draft accepted bound exclusive ∧
        builder'.keywords = builder.keywords ++ limitEntries draft accepted bound exclusive) := by
  unfold loadLimit
  dsimp only
  refine after_bind (Q := fun result w' => IsClean w' → ∃ builder', result = some builder' ∧
      (IsClean w → AreBounds draft accepted bound exclusive ∧ builder'.keywords =
        builder.keywords ++ limitEntries draft accepted bound exclusive)) ?_
    (fun result w' up added => after_pure ?_)
  · by_cases some : (accepted.lookup bound.key).isSome ∨ (accepted.lookup exclusive.key).isSome
    · have here : Admits w (location.child
          [if (accepted.lookup bound.key).isSome then bound.key else exclusive.key]).place := by
        split
        · next first =>
          obtain ⟨value, found⟩ := Option.isSome_iff_exists.1 first
          exact addressed _ value found
        · next missing =>
          obtain ⟨value, found⟩ := Option.isSome_iff_exists.1 (some.resolve_left missing)
          exact addressed _ value found
      refine works_recordingFaults here (works_check_bind (fun limit found => ?_))
      cases limit with
      | none =>
        refine after_pure (fun _ => ⟨⟨_, found⟩, ?_⟩)
        rw [limitEntries, found, List.append_nil]
      | some limit =>
        refine works_check (fun builder' ok clean => ⟨⟨_, found⟩, ?_⟩)
        rw [limitEntries, found]
        exact SchemaBuilder.put_absent ok (absent clean)
    · -- without bounds nothing goes wrong, so no address is needed
      rw [not_or, Option.not_isSome_iff_eq_none, Option.not_isSome_iff_eq_none] at some
      have found : Digest.limit bound.key exclusive.key (accepted.lookup bound.key)
          (accepted.lookup exclusive.key) draft = .ok none := by
        rw [some.1, some.2]
        cases draft <;> rfl
      rw [found]
      refine works_recordingFaults_pure (a := builder) (fun _ => ⟨⟨_, found⟩, ?_⟩)
      rw [limitEntries, found, List.append_nil]
  · intro clean
    obtain ⟨builder', rfl, same⟩ := added clean
    exact same (clean.anti up)

/-! ## Items -/

theorem isNone_and_isNone {α β : Type} (a : Option α) (b : Option β) :
    (a.isNone && b.isNone) = !(a.isSome || b.isSome) := by
  cases a <;> cases b <;> rfl

/-- A builder got what is said about the items of an array, if something is. -/
def HasForm (w : Ω) (location : Location) (draft : Draft) (value : Option Json)
    (front : List (Keyword × KeywordValue)) (builder : SchemaBuilder) : Prop :=
  ∃ form, ReadsForm (fun way => Below w location draft (Builtin.items.key :: way)) value
      form ∧
    (value = none ∧ builder.keywords = front ∨
      value ≠ none ∧ builder.keywords = front ++ [(Builtin.items, .items form none)])

theorem HasForm.mono {value : Option Json}
    {front : List (Keyword × KeywordValue)} (up : w ≤ w')
    (has : HasForm w location draft value front builder) :
    HasForm w' location draft value front builder := by
  obtain ⟨form, reads, entries⟩ := has
  exact ⟨form, reads.mono (fun _ _ _ => Below.mono up), entries⟩

include loads in
theorem works_loadForm {value : Option Json}
    (absent : IsClean w → Builtin.items ∉ Members.keys builder.keywords)
    (due : ∀ found, value = some found → AreDue w location draft Builtin.items.key
      (KeywordKind.items.parts found)) :
    Works (match value with
      | some (.array items) => do
        let schemas ← items.zipIdx.mapM fun (item, position) =>
          load item ((location.child [Builtin.items.key]).child [toString position]) draft
        check (builder.items none (some schemas))
      | some value => do
        let schema ← load value (location.child [Builtin.items.key]) draft
        check (builder.items (some schema) none)
      | none => return builder) w
      (fun builder' w' => IsClean w' →
        HasForm w' location draft value builder.keywords builder') := by
  split
  · next items =>
    refine after_bind (works_items loads (due _ rfl)) (fun schemas w₁ up all => ?_)
    refine works_check (fun builder' ok clean => ?_)
    obtain ⟨loaded, made, same⟩ :=
      SchemaBuilder.items_absent ok (absent (clean.anti up))
    cases made
    exact ⟨.each schemas, ⟨schemas, rfl, all clean⟩, .inr ⟨nofun, same⟩⟩
  · next single noArray =>
    have itself : ([], single) ∈ KeywordKind.items.parts single := by
      cases single with
      | array items => exact (noArray items rfl).elim
      | _ => exact List.mem_cons_self
    refine after_bind (loads w single _ draft (due single rfl _ itself))
      (fun schema w₁ up given => ?_)
    refine works_check (fun builder' ok clean => ?_)
    obtain ⟨value, made, same⟩ :=
      SchemaBuilder.items_absent ok (absent (clean.anti up))
    cases made
    refine ⟨.every schema, ?_, .inr ⟨nofun, same⟩⟩
    cases single with
    | array items => exact (noArray items rfl).elim
    | _ => exact ⟨schema, rfl, given clean⟩
  · exact after_pure (fun _ => ⟨.absent, rfl, .inl ⟨rfl, rfl⟩⟩)

include loads in
/-- What is said about additional items comes to the form of the items. -/
theorem works_loadAdditional {accepted : List (String × Json)}
    {front : List (Keyword × KeywordValue)}
    (absent : IsClean w → Builtin.items ∉ Members.keys front)
    (something : ((accepted.lookup Builtin.items.key).isNone &&
      (accepted.lookup Builtin.additionalItems.key).isNone) = false)
    (additional : ∀ value, accepted.lookup Builtin.additionalItems.key = some value →
      Setting.IsDue w (location.child [Builtin.additionalItems.key]) value draft)
    (has : IsClean w →
      HasForm w location draft (accepted.lookup Builtin.items.key) front builder) :
    Works (match accepted.lookup Builtin.additionalItems.key with
      | some value => do
        let schema ← load value (location.child [Builtin.additionalItems.key]) draft
        check (builder.additionalItems schema)
      | none => return builder) w
      (fun builder' w' => IsClean w' → ∃ entries, builder'.keywords = front ++ entries ∧
        ReadsItems (Below w' location draft) accepted entries) := by
  split
  · next value found =>
    refine after_bind (loads w value _ draft (additional value found))
      (fun schema w' up given => works_check (fun builder' ok clean => ?_))
    obtain ⟨form, reads, before⟩ := (has (clean.anti up)).mono up
    refine ⟨_, SchemaBuilder.additionalItems_last ok (absent (clean.anti up)) ?_,
      readsItems_form something reads ?_⟩
    · refine before.imp (fun without => ⟨without.2, ?_⟩) And.right
      rw [without.1] at reads
      exact reads
    · rw [found]
      exact ⟨schema, rfl, given clean⟩
  · next nothing =>
    refine after_pure (fun clean => ?_)
    obtain ⟨form, reads, ⟨noItems, _⟩ | ⟨_, same⟩⟩ := has clean
    · rw [noItems, nothing] at something
      cases something
    · refine ⟨_, same, readsItems_form something reads ?_⟩
      rw [nothing]
      rfl

include loads in
theorem works_loadItems {accepted : List (String × Json)}
    (absent : IsClean w → Builtin.items ∉ Members.keys builder.keywords)
    (something : ((accepted.lookup Builtin.items.key).isNone &&
      (accepted.lookup Builtin.additionalItems.key).isNone) = false)
    (present : Digest.present (accepted.lookup Builtin.items.key) =
      accepted.lookup Builtin.items.key)
    (present' : Digest.present (accepted.lookup Builtin.additionalItems.key) =
      accepted.lookup Builtin.additionalItems.key)
    (items : ∀ value, accepted.lookup Builtin.items.key = some value →
      AreDue w location draft Builtin.items.key (KeywordKind.items.parts value))
    (additional : ∀ value, accepted.lookup Builtin.additionalItems.key = some value →
      Setting.IsDue w (location.child [Builtin.additionalItems.key]) value draft)
    (here : (accepted.lookup Builtin.items.key).isSome ∨
        (accepted.lookup Builtin.additionalItems.key).isSome →
      Admits w (location.child [Builtin.items.key]).place) :
    Works (loadItems loader load location draft accepted builder) w
      (fun builder' w' => IsClean w' → ∃ entries,
        builder'.keywords = builder.keywords ++ entries ∧
        ReadsItems (Below w' location draft) accepted entries) := by
  unfold loadItems
  dsimp only
  rw [present, present']
  have address : Admits w (location.child [Builtin.items.key]).place := by
    refine here ?_
    rw [isNone_and_isNone, Bool.not_eq_false'] at something
    exact Bool.or_eq_true_iff.1 something
  refine after_bind (works_recordingFaults address (works_loadForm loads absent items))
    (fun result w₁ up withForm => ?_)
  cases result with
  | none =>
    refine after_pure (fun clean => ?_)
    obtain ⟨_, same, _⟩ := withForm clean
    cases same
  | some builder₁ =>
    have has : IsClean w₁ → HasForm w₁ location draft (accepted.lookup Builtin.items.key)
        builder.keywords builder₁ := by
      intro clean
      obtain ⟨_, same, has⟩ := withForm clean
      cases same
      exact has clean
    refine after_bind (works_recordingFaults (Setting.admits up address)
      (works_loadAdditional loads (fun clean => absent (clean.anti up)) something
        (fun value found => Setting.due up (additional value found)) has))
      (fun result w₂ _ added => after_pure (fun clean => ?_))
    obtain ⟨builder₂, rfl, holds⟩ := added clean
    exact holds clean

/-! ## Keywords -/

section Gathered

variable {members accepted : List (String × Json)}

/-- The keywords that are looked at after all members. -/
def lateKeywords : List Keyword :=
  [Builtin.minimum, Builtin.exclusiveMinimum, Builtin.maximum, Builtin.exclusiveMaximum,
    Builtin.items, Builtin.additionalItems]

theorem find_late : ∀ keyword ∈ lateKeywords,
    Registry.default.find? keyword.key (some draft) = some keyword ∧
      Shape.null ∉ (keyword.variantFor draft).expects := by
  cases draft <;> decide

theorem isKeyword_late {keyword : Keyword} (late : keyword ∈ lateKeywords) :
    isKeyword draft keyword.key = true := by
  unfold isKeyword
  rw [(find_late keyword late).1]
  rfl

/-- What a keyword that is looked at later says is never null. -/
theorem present_late {keyword : Keyword} (late : keyword ∈ lateKeywords)
    (shaped : ∀ value, members.lookup keyword.key = some value →
      IsAccepted draft (keyword.key, value)) :
    Digest.present (members.lookup keyword.key) = members.lookup keyword.key := by
  cases found : members.lookup keyword.key with
  | none => rfl
  | some value =>
    obtain ⟨other, shape, known, shaped, expected⟩ := shaped value found
    obtain ⟨here, noNull⟩ := @find_late draft keyword late
    rw [here] at known
    cases known
    cases value with
    | null =>
      cases shaped
      exact absurd expected noNull
    | _ => rfl

theorem HasMembers.lookup {keyword : Keyword}
    (has : HasMembers w location draft members accepted builder) (late : keyword ∈ lateKeywords) :
    accepted.lookup keyword.key = members.lookup keyword.key := by
  rw [has.kept]
  exact Members.lookup_filter (isKeyword_late late)

theorem HasMembers.bounds {bound exclusive : Keyword}
    (has : HasMembers w location draft members accepted builder) (late : bound ∈ lateKeywords)
    (late' : exclusive ∈ lateKeywords) (bounds : AreBounds draft accepted bound exclusive) :
    AreBounds draft members bound exclusive := by
  unfold AreBounds at bounds ⊢
  rw [has.lookup late, has.lookup late'] at bounds
  exact bounds

/-- The members, the limits and the items make all keywords. -/
theorem HasMembers.reads_all {builder' : SchemaBuilder}
    {entries : List (Keyword × KeywordValue)}
    (has : HasMembers w location draft members accepted builder)
    (gathered : AreGathered draft members accepted)
    (items : ReadsItems (Below w location draft) accepted entries)
    (same : builder'.keywords = builder.keywords
      ++ limitEntries draft accepted Builtin.minimum Builtin.exclusiveMinimum
      ++ limitEntries draft accepted Builtin.maximum Builtin.exclusiveMaximum ++ entries) :
    Reads (Below w location draft) draft members builder'.keywords := by
  have looked : ∀ keyword ∈ lateKeywords, accepted.lookup keyword.key = members.lookup keyword.key :=
    fun keyword => has.lookup
  simp only [lateKeywords, List.forall_mem_cons] at looked
  obtain ⟨minimum, exclusiveMinimum, maximum, exclusiveMaximum, each, rest, _⟩ := looked
  refine ⟨fun member mem known => ?_, builder.keywords, entries, has.reads, ?_, ?_⟩
  · refine (gathered member ?_).2
    rw [has.kept]
    exact List.mem_filter.2 ⟨mem, known⟩
  · unfold ReadsItems at items ⊢
    rw [each, rest] at items
    exact items
  · rw [same]
    unfold limitEntries
    rw [minimum, exclusiveMinimum, maximum, exclusiveMaximum]

omit loads registry in
/-- Keywords that are looked at later are not among those of the members. -/
theorem HasMembers.absent {keyword : Keyword}
    (has : HasMembers w location draft members accepted builder)
    (kind : (keyword.variantFor draft).kind = .limit ∨ (keyword.variantFor draft).kind = .items) :
    keyword ∉ Members.keys builder.keywords := by
  rw [keys_of_reads has.reads]
  exact not_mem_plain kind

end Gathered

section Object

variable {members accepted : List (String × Json)}
  (due : ∀ key value keyword, (key, value) ∈ members →
    Registry.default.find? key (some draft) = some keyword →
    AreDue w location draft key ((keyword.variantFor draft).kind.parts value))

include loads due

include registry in
/-- The loop over the members, with what they say so far as its invariant. -/
theorem works_loadMembers (distinct : (Members.keys members).Nodup)
    (here : Admits w location.place)
    (inside : ∀ member ∈ members, Admits w (location.child [member.1]).place) :
    Works (members.foldlM (fun (accepted, builder) (key, value) =>
        loadMember loader load location draft key value accepted builder)
        ([], .empty (some location) draft)) w
      (fun found w' => AreGathered draft members found.1 ∧
        (IsClean w' → HasMembers w' location draft members found.1 found.2)) := by
  refine after_foldlM_done (I := fun done (found : List (String × Json) × SchemaBuilder) w' =>
    AreGathered draft done found.1 ∧
      (IsClean w' → HasMembers w' location draft done found.1 found.2)) members
    ([], .empty (some location) draft) ⟨nofun, fun _ => ⟨rfl, .nil⟩⟩ ?_
  rintro done ⟨key, value⟩ rest split ⟨accepted, builder⟩ w₁ up ⟨gathered, has⟩
  have mem : (key, value) ∈ members := by
    rw [split]
    exact List.mem_append_right _ List.mem_cons_self
  refine works_loadMember loads registry ?_ (Setting.admits up here)
    (Setting.admits up (inside _ mem))
    (fun keyword found part listed => Setting.due up (due key value keyword mem found part listed))
    gathered has
  rw [split, Members.keys, List.map_append, List.map_cons, List.nodup_append] at distinct
  exact fun early => distinct.2.2 key early key List.mem_cons_self rfl

/-- What is said about items is loaded after the limits, if something is. -/
theorem works_loadLateItems (gathered : AreGathered draft members accepted)
    (absent : IsClean w → Builtin.items ∉ Members.keys builder.keywords)
    (here : (accepted.lookup Builtin.items.key).isSome ∨
        (accepted.lookup Builtin.additionalItems.key).isSome →
      Admits w (location.child [Builtin.items.key]).place) :
    Works (if (accepted.lookup Builtin.items.key).isSome ||
          (accepted.lookup Builtin.additionalItems.key).isSome then
        loadItems loader load location draft accepted builder else return builder) w
      (fun builder' w' => IsClean w' → ∃ entries,
        builder'.keywords = builder.keywords ++ entries ∧
        ReadsItems (Below w' location draft) accepted entries) := by
  split
  · next something =>
    have found : Registry.default.find? Builtin.items.key (some draft) = some Builtin.items ∧
        Registry.default.find? Builtin.additionalItems.key (some draft) =
          some Builtin.additionalItems ∧
        (Builtin.items.variantFor draft).kind = .items ∧
        (Builtin.additionalItems.variantFor draft).kind = .schema := by
      cases draft <;> decide
    obtain ⟨foundItems, foundAdditional, items, schema⟩ := found
    have present : ∀ {keyword : Keyword}, keyword ∈ lateKeywords →
        Digest.present (accepted.lookup keyword.key) = accepted.lookup keyword.key :=
      fun late => present_late late (fun _ found => (gathered _ (Members.mem_of_lookup found)).2)
    have within : ∀ {keyword : Keyword} {value : Json}, accepted.lookup keyword.key = some value →
        Registry.default.find? keyword.key (some draft) = some keyword →
        AreDue w location draft keyword.key ((keyword.variantFor draft).kind.parts value) :=
      fun looked => due _ _ _ (gathered _ (Members.mem_of_lookup looked)).1
    refine works_loadItems loads absent ?_ (present (by decide)) (present (by decide))
      (fun value looked => ?_) (fun value looked => ?_) here
    · rw [isNone_and_isNone, something]
      rfl
    · have inside := within looked foundItems
      rw [items] at inside
      exact inside
    · have inside := within looked foundAdditional
      rw [schema] at inside
      exact inside ([], value) List.mem_cons_self
  · next nothing =>
    refine after_pure (fun _ => ⟨[], (List.append_nil _).symm, ?_⟩)
    unfold ReadsItems
    dsimp only
    rw [isNone_and_isNone, Bool.eq_false_of_not_eq_true nothing]
    rfl

end Object

include loads registry in
/-- The keywords of an object say what its members say, and its bounds make limits. -/
theorem works_loadKeywords {members : List (String × Json)} (distinct : (Members.keys members).Nodup)
    (here : Admits w location.place)
    (inside : ∀ member ∈ members, Admits w (location.child [member.1]).place)
    (extra : (members.lookup Builtin.items.key).isSome ∨
        (members.lookup Builtin.additionalItems.key).isSome →
      Admits w (location.child [Builtin.items.key]).place)
    (due : ∀ part ∈ Json.parts draft members, Setting.IsDue w (location.child part.1) part.2 draft) :
    Works (loadKeywords loader load members location draft (.empty (some location) draft)) w
      (fun builder w' => IsClean w' →
        Reads (Below w' location draft) draft members builder.keywords ∧
          AreBounds draft members Builtin.minimum Builtin.exclusiveMinimum ∧
          AreBounds draft members Builtin.maximum Builtin.exclusiveMaximum) := by
  have within : ∀ {w' : Ω}, w ≤ w' → ∀ key value keyword, (key, value) ∈ members →
      Registry.default.find? key (some draft) = some keyword →
      AreDue w' location draft key ((keyword.variantFor draft).kind.parts value) :=
    fun up _ _ _ mem found part listed => Setting.due up (due _ (Json.mem_parts mem found listed))
  have kinds : (Builtin.minimum.variantFor draft).kind = .limit ∧
      (Builtin.maximum.variantFor draft).kind = .limit ∧
      (Builtin.items.variantFor draft).kind = .items := by
    cases draft <;> decide
  obtain ⟨minimum, maximum, items⟩ := kinds
  unfold loadKeywords
  dsimp only
  refine after_bind (works_loadMembers loads registry (within le_rfl) distinct here inside) ?_
  rintro ⟨accepted, builder₁⟩ w₁ up₁ ⟨gathered, has⟩
  have looked : ∀ {key value}, accepted.lookup key = some value →
      members.lookup key = some value := fun found =>
    Members.lookup_of_mem distinct (gathered _ (Members.mem_of_lookup found)).1
  have addressed : ∀ {w' : Ω}, w ≤ w' → AreAddressed w' location accepted :=
    fun up key value found => Setting.admits up (inside _ (Members.mem_of_lookup (looked found)))
  refine after_bind (works_loadLimit Builtin.exclusiveMinimum (addressed up₁)
    (fun clean => (has clean).absent (.inl minimum))) (fun builder₂ w₂ up₂ lower => ?_)
  refine after_bind (works_loadLimit Builtin.exclusiveMaximum (addressed (le_trans up₁ up₂))
    (fun clean => ?_)) (fun builder₃ w₃ up₃ upper => ?_)
  · rw [(lower clean).2]
    exact not_mem_limit ((has (clean.anti up₂)).absent (.inl maximum)) (by decide)
  have up : w ≤ w₃ := le_trans up₁ (le_trans up₂ up₃)
  refine after_mono (works_loadLateItems loads (within up) gathered (fun clean => ?_)
    (fun something => ?_)) (fun builder₄ w₄ up₄ read clean => ?_)
  · rw [(upper clean).2, (lower (clean.anti up₃)).2]
    refine not_mem_limit (not_mem_limit ?_ (by decide)) (by decide)
    exact (has (clean.anti (le_trans up₂ up₃))).absent (.inr items)
  · have present : ∀ {key : String}, (accepted.lookup key).isSome →
        (members.lookup key).isSome := by
      intro key isSome
      obtain ⟨value, found⟩ := Option.isSome_iff_exists.1 isSome
      exact Option.isSome_iff_exists.2 ⟨value, looked found⟩
    exact Setting.admits up (extra (something.imp present present))
  · obtain ⟨entries, same, reads⟩ := read clean
    obtain ⟨above, upper⟩ := upper (clean.anti up₄)
    obtain ⟨below, lower⟩ := lower (clean.anti (le_trans up₃ up₄))
    have all := le_trans up₂ (le_trans up₃ up₄)
    have has := has (clean.anti all)
    rw [upper, lower] at same
    exact ⟨(has.mono all).reads_all gathered reads same, has.bounds (by decide) (by decide) below,
      has.bounds (by decide) (by decide) above⟩

/-! ## Identifiers -/

/-- An identifier makes the location that it names; one that makes no URI is an error. -/
theorem works_applyIdentifier {identifier : Json} {members : List (String × Json)}
    (here : Admits w location.place) (found : members.lookup draft.idKey = some identifier) :
    Works (applyIdentifier loader identifier location) w (fun here w' =>
      here = location.named draft.idKey members ∧
        (IsClean w' → location.Names draft.idKey members)) := by
  unfold applyIdentifier
  split
  · next text =>
    split
    · next named ok =>
      have same : location.named draft.idKey members = named := by
        rw [Location.named, found]
        dsimp only
        rw [ok]
      refine after_pure ⟨same.symm, fun _ other declared => ?_⟩
      rw [found] at declared
      cases declared
      rw [ok, same]
    · next fault fails =>
      refine after_bind (works_recordError _ _ here) (fun _ w' _ unclean => after_pure ⟨?_, ?_⟩)
      · rw [Location.named, found]
        dsimp only
        rw [fails]
      · exact fun clean => absurd clean unclean
  · next noText =>
    refine after_pure ⟨?_, fun _ text declared => ?_⟩
    · unfold Location.named
      split
      · next text declared =>
        rw [found] at declared
        exact absurd (Option.some.inj declared) (noText text)
      · rfl
    · rw [found] at declared
      exact absurd (Option.some.inj declared) (noText text)

end Load

end JsonSchema
