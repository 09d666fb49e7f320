import JsonSchema.Proofs.Alike
import JsonSchema.Proofs.Building

/-!
# Objects with matching members

The values of two members match if a keyword takes parts of the same names and positions from them,
and say the same where it takes no parts (`Load.Matches`). What is loaded for objects whose
members match is alike, if the schemas that were loaded for parts of the same way are related
(`Reads.alike`).
-/

namespace JsonSchema

namespace Load

/-- Two maps have dependencies on schemas under the same names, and otherwise the same ones. -/
structure MatchDependencies (entries entries' : List (String × Json)) : Prop where
  schemas : ∀ name, (∃ value, (name, value) ∈ entries ∧ isSchemaEntry (name, value) = true) ↔
    ∃ value', (name, value') ∈ entries' ∧ isSchemaEntry (name, value') = true
  names : ∀ entry, isSchemaEntry entry = false → (entry ∈ entries ↔ entry ∈ entries')

/-- A keyword of a kind takes parts of the same ways from two values, and otherwise what says the
same. -/
def Matches (kind : KeywordKind) (value value' : Json) : Prop :=
  match kind with
  | .schema => True
  | .schemaList | .items =>
    (∃ items items', value = .array items ∧ value' = .array items' ∧
      items.length = items'.length) ∨
    (∀ items, value ≠ .array items) ∧ ∀ items, value' ≠ .array items
  | .schemaMap => ∀ entries entries', value = .object entries → value' = .object entries' →
    ∀ name, name ∈ Members.keys entries ↔ name ∈ Members.keys entries'
  | .dependencies => ∀ entries entries', value = .object entries → value' = .object entries' →
    MatchDependencies entries entries'
  | .jsonValue => value.IsLike value'
  | .jsonArray => value = value' ∨ ∃ items items', value = .array items ∧ value' = .array items' ∧
    List.Forall₂ Json.IsLike items items'
  | _ => value = value'

/-- Two objects have members of the same keywords with values that match. -/
def MatchMembers (draft : Draft) (members members' : List (String × Json)) : Prop :=
  ∀ key keyword, Registry.default.find? key (some draft) = some keyword →
    Option.Rel (Matches (keyword.variantFor draft).kind) (members.lookup key) (members'.lookup key)

section Symmetry

variable {kind : KeywordKind} {value value' : Json} {draft : Draft}
  {members members' : List (String × Json)}

theorem MatchDependencies.symm {entries entries' : List (String × Json)}
    (same : MatchDependencies entries entries') : MatchDependencies entries' entries where
  schemas name := (same.schemas name).symm
  names entry plain := (same.names entry plain).symm

theorem Matches.refl (kind : KeywordKind) (value : Json) : Matches kind value value := by
  cases kind with
  | schema => trivial
  | schemaList | items =>
    cases value with
    | array items => exact .inl ⟨items, items, rfl, rfl, rfl⟩
    | _ => exact .inr ⟨by simp, by simp⟩
  | schemaMap =>
    rintro entries entries' rfl same
    cases same
    exact fun name => Iff.rfl
  | dependencies =>
    rintro entries entries' rfl same
    cases same
    exact ⟨fun name => Iff.rfl, fun entry _ => Iff.rfl⟩
  | jsonValue => exact Json.IsLike.refl value
  | jsonArray => exact .inl rfl
  | _ => exact rfl

theorem Matches.symm (same : Matches kind value value') : Matches kind value' value := by
  unfold Matches at same ⊢
  split at same
  · trivial
  · exact same.imp (fun ⟨items, items', first, second, length⟩ =>
      ⟨items', items, second, first, length.symm⟩) And.symm
  · exact same.imp (fun ⟨items, items', first, second, length⟩ =>
      ⟨items', items, second, first, length.symm⟩) And.symm
  · exact fun entries' entries first second name => (same entries entries' second first name).symm
  · exact fun entries' entries first second => (same entries entries' second first).symm
  · exact same.symm
  · exact same.imp Eq.symm fun ⟨items, items', first, second, like⟩ =>
      ⟨items', items, second, first, like.flip.imp fun _ _ => Json.IsLike.symm⟩
  · exact same.symm

theorem MatchMembers.refl (draft : Draft) (members : List (String × Json)) :
    MatchMembers draft members members := by
  intro key keyword _
  cases members.lookup key with
  | none => exact .none
  | some value => exact .some (.refl _ value)

theorem MatchMembers.symm (same : MatchMembers draft members members') :
    MatchMembers draft members' members := by
  intro key keyword found
  have related := same key keyword found
  generalize members.lookup key = value, members'.lookup key = value' at related ⊢
  cases related with
  | some matching => exact .some matching.symm
  | none => exact .none

end Symmetry

/-! ## Values -/

section Values

variable {rel : Schema → Schema → Prop} {sub sub' : Sub}

/-- Schemas that were loaded for parts of the same ways are related. -/
def Relates (rel : Schema → Schema → Prop) (sub sub' : Sub) : Prop :=
  ∀ way part part' schema schema', sub way part schema → sub' way part' schema' → rel schema schema'

theorem Relates.flip (relates : Relates rel sub sub') : Relates (flip rel) sub' sub :=
  fun way part' part schema' schema loaded' loaded =>
    relates way part part' schema schema' loaded loaded'

theorem Relates.list (relates : Relates rel sub sub') {parts parts' : List (Pointer × Json)}
    {schemas schemas' : List Schema}
    (loaded : List.Forall₂ (fun part schema => sub part.1 part.2 schema) parts schemas)
    (loaded' : List.Forall₂ (fun part schema => sub' part.1 part.2 schema) parts' schemas')
    (ways : parts.map Prod.fst = parts'.map Prod.fst) : List.Forall₂ rel schemas schemas' := by
  induction loaded generalizing parts' schemas' with
  | nil =>
    rw [List.map_nil] at ways
    rw [List.map_eq_nil_iff.1 ways.symm] at loaded'
    cases loaded'
    exact .nil
  | @cons part schema parts schemas first rest ih =>
    cases loaded' with
    | nil => cases ways
    | @cons part' schema' parts' schemas' first' rest' =>
      obtain ⟨way, ways⟩ := List.cons.inj ways
      rw [← way] at first'
      exact .cons (relates _ _ _ _ _ first first') (ih rest' ways)

theorem ways_array {items items' : List Json} (same : items.length = items'.length) :
    (items.zipIdx.map fun (item, position) => ([toString position], item)).map Prod.fst =
      (items'.zipIdx.map fun (item, position) => ([toString position], item)).map Prod.fst := by
  have positions : ∀ items : List Json,
      (items.zipIdx.map fun (item, position) => ([toString position], item)).map Prod.fst =
        (List.range' 0 items.length).map fun position => [toString position] := by
    intro items
    rw [← List.zipIdx_map_snd, List.map_map, List.map_map]
    rfl
  rw [positions, positions, same]

/-- Each named schema has a related one under its name, if each entry has one of its name. -/
theorem Relates.entries (relates : Relates rel sub sub') {entries entries' : List (String × Json)}
    {schemas schemas' : List (String × Schema)}
    (loaded : List.Forall₂ (ReadsEntry sub) entries schemas)
    (loaded' : List.Forall₂ (ReadsEntry sub') entries' schemas')
    (names : ∀ entry ∈ entries, ∃ value', (entry.1, value') ∈ entries') :
    HaveEntries rel schemas schemas' := by
  intro name schema mem
  obtain ⟨entry, listed, same, below⟩ := exists_of_forall₂ loaded.flip mem
  obtain ⟨value', listed'⟩ := names entry listed
  obtain ⟨⟨name', schema'⟩, mem', same', below'⟩ := exists_of_forall₂ loaded' listed'
  dsimp only at same same' below below'
  subst same same'
  exact ⟨schema', mem', relates _ _ _ _ _ below below'⟩

/-- What holds no schemas is alike to itself. -/
theorem alike_digested {keyword : Keyword} {kind : KeywordKind} {value : Json} {draft : Draft}
    {loaded : KeywordValue} (ok : digested keyword kind value draft = .ok loaded) :
    loaded.Alike rel loaded := by
  unfold digested at ok
  split at ok
  · obtain ⟨types, rfl⟩ := types_ok ok
    exact rfl
  · split at ok
    · unfold Digest.required at ok
      split at ok
      · cases ok
        exact ⟨rfl, .refl _⟩
      · obtain ⟨names, _, ok⟩ := except_bind_ok ok
        cases ok
        exact rfl
    · split at ok
      · obtain ⟨names, _, ok⟩ := except_bind_ok ok
        cases ok
        exact rfl
      · unfold Digest.leaf at ok
        split at ok
        case h_5 =>
          obtain ⟨values, _, ok⟩ := except_bind_ok ok
          cases ok
          exact List.forall₂_same.2 (fun value _ => Json.IsLike.refl value)
        all_goals
          cases ok
          try exact ⟨rfl, .refl _⟩

/-- A keyword whose value is kept as it is, not read as flags or names. -/
def KeepsValues (keyword : Keyword) (kind : KeywordKind) : Prop :=
  kind = .jsonValue ∨ kind = .jsonArray → keyword ≠ Builtin.required

/-- What was made of values that say the same is alike. -/
theorem alike_matching {keyword : Keyword} {kind : KeywordKind} {value value' : Json}
    {draft : Draft} {loaded loaded' : KeywordValue} (keeps : KeepsValues keyword kind)
    (plain : kind ∉ [KeywordKind.schema, .schemaList, .schemaMap, .items, .dependencies])
    (matching : Matches kind value value')
    (ok : digested keyword kind value draft = .ok loaded)
    (ok' : digested keyword kind value' draft = .ok loaded') : loaded.Alike rel loaded' := by
  have equal : value = value' → loaded.Alike rel loaded' := by
    rintro rfl
    rw [ok] at ok'
    cases ok'
    exact alike_digested ok
  cases kind with
  | schema | schemaList | items | schemaMap | dependencies => exact absurd (by decide) plain
  | jsonValue =>
    unfold digested at ok ok'
    rw [if_neg (by decide), if_neg (keeps (.inl rfl)), if_neg (by decide)] at ok ok'
    cases ok
    cases ok'
    exact ⟨rfl, matching⟩
  | jsonArray =>
    rcases matching with same | ⟨items, items', rfl, rfl, like⟩
    · exact equal same
    · unfold digested at ok ok'
      rw [if_neg (by decide), if_neg (keeps (.inr rfl)), if_neg (by decide)] at ok ok'
      cases ok
      cases ok'
      exact like
  | _ => exact equal matching

theorem ways_single {kind : KeywordKind} {value : Json}
    (known : kind = .schemaList ∨ kind = .items) (single : ∀ items, value ≠ .array items) :
    (kind.parts value).map Prod.fst = [[]] := by
  rcases known with rfl | rfl <;> cases value <;> first
    | exact absurd rfl (single _)
    | rfl

theorem ways_matching {kind : KeywordKind} {value value' : Json}
    (known : kind = .schemaList ∨ kind = .items) (matching : Matches kind value value') :
    (kind.parts value).map Prod.fst = (kind.parts value').map Prod.fst := by
  have lists : (∃ items items', value = .array items ∧ value' = .array items' ∧
      items.length = items'.length) ∨
      (∀ items, value ≠ .array items) ∧ ∀ items, value' ≠ .array items := by
    rcases known with rfl | rfl <;> exact matching
  rcases lists with ⟨items, items', rfl, rfl, length⟩ | ⟨single, single'⟩
  · rcases known with rfl | rfl <;> exact ways_array length
  · rw [ways_single known single, ways_single known single']

theorem exists_entry {entries entries' : List (String × Json)}
    (names : ∀ name, name ∈ Members.keys entries ↔ name ∈ Members.keys entries') :
    ∀ entry ∈ entries, ∃ value', (entry.1, value') ∈ entries' := by
  intro entry mem
  obtain ⟨⟨name, value'⟩, listed, same⟩ :=
    List.mem_map.1 ((names entry.1).1 (List.mem_map_of_mem mem))
  dsimp only at same
  subst same
  exact ⟨value', listed⟩

theorem MatchDependencies.exists_entry {entries entries' : List (String × Json)}
    (matching : MatchDependencies entries entries') :
    ∀ entry ∈ entries.filter isSchemaEntry,
      ∃ value', (entry.1, value') ∈ entries'.filter isSchemaEntry := by
  intro entry mem
  obtain ⟨listed, schema⟩ := List.mem_filter.1 mem
  obtain ⟨value', listed', schema'⟩ := (matching.schemas entry.1).1 ⟨entry.2, listed, schema⟩
  exact ⟨value', List.mem_filter.2 ⟨listed', schema'⟩⟩

/-- Dependencies on names were read from the same entries. -/
theorem mem_names {key : String} {draft : Draft} {entries entries' : List (String × Json)}
    {names names' : List (String × List String)}
    (matching : ∀ entry, isSchemaEntry entry = false → entry ∈ entries → entry ∈ entries')
    (read : List.Forall₂ (fun entry needed => needed.1 = entry.1 ∧
      Digest.dependency key entry.1 entry.2 draft = .ok needed.2)
      (entries.filter (!isSchemaEntry ·)) names)
    (read' : List.Forall₂ (fun entry needed => needed.1 = entry.1 ∧
      Digest.dependency key entry.1 entry.2 draft = .ok needed.2)
      (entries'.filter (!isSchemaEntry ·)) names') {entry : String × List String}
    (mem : entry ∈ names) : entry ∈ names' := by
  obtain ⟨source, listed, name, needed⟩ := exists_of_forall₂ read.flip mem
  obtain ⟨inside, plain⟩ := List.mem_filter.1 listed
  have inside' := matching source (by simpa using plain) inside
  obtain ⟨entry', mem', name', needed'⟩ :=
    exists_of_forall₂ read' (List.mem_filter.2 ⟨inside', plain⟩)
  rw [needed] at needed'
  have same : entry = entry' := Prod.ext (name.trans name'.symm) (Except.ok.inj needed')
  rw [same]
  exact mem'

/-- What was read from values that match is alike. -/
theorem ReadsValue.alike {keyword : Keyword} {kind : KeywordKind} {draft : Draft}
    {value value' : Json} {loaded loaded' : KeywordValue} (relates : Relates rel sub sub')
    (matching : Matches kind value value') (other : kind ≠ .items) (keeps : KeepsValues keyword kind)
    (reads : ReadsValue sub keyword kind draft value loaded)
    (reads' : ReadsValue sub' keyword kind draft value' loaded') : loaded.Alike rel loaded' := by
  unfold ReadsValue at reads reads'
  split at reads
  · obtain ⟨schema, rfl, below⟩ := reads
    obtain ⟨schema', rfl, below'⟩ := reads'
    exact relates _ _ _ _ _ below below'
  · obtain ⟨schemas, rfl, below⟩ := reads
    obtain ⟨schemas', rfl, below'⟩ := reads'
    exact relates.list below below' (ways_matching (.inl rfl) matching)
  · obtain ⟨entries, schemas, rfl, rfl, below⟩ := reads
    obtain ⟨entries', schemas', rfl, rfl, below'⟩ := reads'
    have names := matching entries entries' rfl rfl
    exact ⟨relates.entries below below' (exists_entry names),
      relates.flip.entries below' below (exists_entry fun name => (names name).symm)⟩
  · obtain ⟨entries, names, schemas, rfl, rfl, needed, below⟩ := reads
    obtain ⟨entries', names', schemas', rfl, rfl, needed', below'⟩ := reads'
    have same := matching entries entries' rfl rfl
    refine ⟨fun entry => ⟨mem_names (fun entry plain => (same.names entry plain).1) needed needed',
      mem_names (fun entry plain => (same.names entry plain).2) needed' needed⟩, ?_, ?_⟩
    · exact relates.entries below below' same.exists_entry
    · exact relates.flip.entries below' below same.symm.exists_entry
  · next _ schema list map dependencies =>
    split at reads'
    all_goals first
      | contradiction
      | skip
    refine alike_matching keeps ?_ matching reads reads'
    simp only [List.mem_cons, List.not_mem_nil, or_false, not_or]
    exact ⟨schema, list, map, other, dependencies⟩

end Values

/-! ## Objects -/

section Objects

variable {rel : Schema → Schema → Prop} {sub sub' : Sub} {draft : Draft}
  {members members' : List (String × Json)} {keywords keywords' : List (Keyword × KeywordValue)}

/-- A keyword that takes no parts has the same value in both objects. -/
theorem MatchMembers.lookup_eq (same : MatchMembers draft members members') {keyword : Keyword}
    (known : Registry.default.find? keyword.key (some draft) = some keyword)
    (plain : (keyword.variantFor draft).kind ∈ [KeywordKind.limit, .boolean, .number]) :
    members.lookup keyword.key = members'.lookup keyword.key := by
  have equal : ∀ {value value' : Json}, Matches (keyword.variantFor draft).kind value value' →
      value = value' := by
    intro value value' matching
    generalize (keyword.variantFor draft).kind = kind at plain matching
    simp only [List.mem_cons, List.not_mem_nil, or_false] at plain
    rcases plain with rfl | rfl | rfl <;> exact matching
  have related := same keyword.key keyword known
  generalize members.lookup keyword.key = value, members'.lookup keyword.key = value'
    at related ⊢
  cases related with
  | some matching => rw [equal matching]
  | none => rfl

theorem limitEntries_eq (same : MatchMembers draft members members') {bound exclusive : Keyword}
    (known : (bound, exclusive) = (Builtin.minimum, Builtin.exclusiveMinimum) ∨
      (bound, exclusive) = (Builtin.maximum, Builtin.exclusiveMaximum)) :
    limitEntries draft members bound exclusive = limitEntries draft members' bound exclusive := by
  have listed : ∀ keyword ∈ [Builtin.minimum, Builtin.exclusiveMinimum, Builtin.maximum,
      Builtin.exclusiveMaximum],
      Registry.default.find? keyword.key (some draft) = some keyword ∧
        (keyword.variantFor draft).kind ∈ [KeywordKind.limit, .boolean, .number] := by
    cases draft <;> decide +kernel
  have equal : ∀ keyword ∈ [Builtin.minimum, Builtin.exclusiveMinimum, Builtin.maximum,
      Builtin.exclusiveMaximum], members.lookup keyword.key = members'.lookup keyword.key :=
    fun keyword mem => same.lookup_eq (listed keyword mem).1 (listed keyword mem).2
  unfold limitEntries
  rcases known with pair | pair <;> cases pair
  · rw [equal Builtin.minimum (by simp), equal Builtin.exclusiveMinimum (by simp)]
  · rw [equal Builtin.maximum (by simp), equal Builtin.exclusiveMaximum (by simp)]

theorem alike_limitEntries {bound exclusive keyword : Keyword} {value : KeywordValue}
    (mem : (keyword, value) ∈ limitEntries draft members bound exclusive) :
    value.Alike rel value := by
  unfold limitEntries at mem
  split at mem
  · cases List.mem_singleton.1 mem
    exact rfl
  · cases mem

theorem Reads.exists_plain (reads : Reads sub draft members keywords) {keyword : Keyword}
    {json : Json} (mem : (keyword.key, json) ∈ members)
    (plain : plainKeyword? draft keyword.key = some keyword) :
    ∃ value, (keyword, value) ∈ keywords ∧
      ReadsMember sub draft (keyword, json) (keyword, value) := by
  obtain ⟨_, listed, items, each, _, rfl⟩ := reads
  have member : (keyword, json) ∈ plainMembers draft members :=
    List.mem_filterMap.2 ⟨_, mem, Option.map_eq_some_iff.2 ⟨keyword, plain, rfl⟩⟩
  obtain ⟨⟨keyword', value⟩, mem', read⟩ := exists_of_forall₂ each member
  obtain rfl : keyword' = keyword := read.1
  exact ⟨value, by simp [mem'], read⟩

theorem ReadsForm.single {value : Json} {form : ItemsForm} (single : ∀ items, value ≠ .array items)
    (reads : ReadsForm sub (some value) form) :
    ∃ schema, form = .every schema ∧ sub [] value schema := by
  cases value with
  | array items => exact absurd rfl (single items)
  | _ => exact reads

theorem ReadsForm.alike {value value' : Option Json} {form form' : ItemsForm}
    (relates : Relates rel sub sub') (matching : Option.Rel (Matches .items) value value')
    (reads : ReadsForm sub value form) (reads' : ReadsForm sub' value' form') :
    form.Alike rel form' := by
  cases matching with
  | none =>
    obtain rfl : form = .absent := reads
    obtain rfl : form' = .absent := reads'
    trivial
  | some matching =>
    rcases matching with ⟨items, items', rfl, rfl, length⟩ | ⟨single, single'⟩
    · obtain ⟨schemas, rfl, below⟩ := reads
      obtain ⟨schemas', rfl, below'⟩ := reads'
      exact relates.list below below' (ways_array length)
    · obtain ⟨schema, rfl, below⟩ := reads.single single
      obtain ⟨schema', rfl, below'⟩ := reads'.single single'
      exact relates _ _ _ _ _ below below'

theorem ReadsAdditional.alike {kind : KeywordKind} {value value' : Option Json}
    {additional additional' : Option Schema} (relates : Relates rel sub sub')
    (matching : Option.Rel (Matches kind) value value')
    (reads : ReadsAdditional sub value additional)
    (reads' : ReadsAdditional sub' value' additional') : Option.Rel rel additional additional' := by
  cases matching with
  | none =>
    obtain rfl : additional = none := reads
    obtain rfl : additional' = none := reads'
    exact .none
  | some _ =>
    obtain ⟨schema, rfl, below⟩ := reads
    obtain ⟨schema', rfl, below'⟩ := reads'
    exact .some (relates _ _ _ _ _ below below')

theorem ReadsItems.alike {items items' : List (Keyword × KeywordValue)} {keyword : Keyword}
    {value : KeywordValue} (relates : Relates rel sub sub')
    (same : MatchMembers draft members members') (reads : ReadsItems sub members items)
    (reads' : ReadsItems sub' members' items') (mem : (keyword, value) ∈ items) :
    ∃ value', (keyword, value') ∈ items' ∧ value.Alike rel value' := by
  have listed : Registry.default.find? Builtin.items.key (some draft) = some Builtin.items ∧
      Registry.default.find? Builtin.additionalItems.key (some draft) =
        some Builtin.additionalItems ∧ (Builtin.items.variantFor draft).kind = .items := by
    cases draft <;> decide +kernel
  have each := same _ _ listed.1
  have rest := same _ _ listed.2.1
  rw [listed.2.2] at each
  unfold ReadsItems at reads reads'
  dsimp only at reads reads'
  generalize members.lookup Builtin.items.key = value, members'.lookup Builtin.items.key = value'
    at each reads reads'
  generalize members.lookup Builtin.additionalItems.key = more,
    members'.lookup Builtin.additionalItems.key = more' at rest reads reads'
  have absent : (value.isNone && more.isNone) = (value'.isNone && more'.isNone) := by
    cases each <;> cases rest <;> rfl
  rw [← absent] at reads'
  split at reads
  · rw [reads] at mem
    cases mem
  · next something =>
    rw [if_neg something] at reads'
    obtain ⟨form, additional, rfl, form_reads, more_reads⟩ := reads
    obtain ⟨form', additional', rfl, form_reads', more_reads'⟩ := reads'
    cases List.mem_singleton.1 mem
    refine ⟨_, List.mem_singleton_self _, ?_, ?_⟩
    · exact form_reads.alike (fun way => relates _) each form_reads'
    · exact more_reads.alike (fun way => relates _) rest more_reads'

/-- Each keyword has an alike value in the other schema. -/
theorem Reads.exists_alike (relates : Relates rel sub sub')
    (same : MatchMembers draft members members') (distinct : (Members.keys members).Nodup)
    (reads : Reads sub draft members keywords) (reads' : Reads sub' draft members' keywords')
    {keyword : Keyword} {value : KeywordValue} (mem : (keyword, value) ∈ keywords) :
    ∃ value', (keyword, value') ∈ keywords' ∧ value.Alike rel value' := by
  have limit : ∀ {bound exclusive : Keyword},
      (bound, exclusive) = (Builtin.minimum, Builtin.exclusiveMinimum) ∨
        (bound, exclusive) = (Builtin.maximum, Builtin.exclusiveMaximum) →
      (keyword, value) ∈ limitEntries draft members bound exclusive →
      (keyword, value) ∈ limitEntries draft members' bound exclusive ∧ value.Alike rel value := by
    intro bound exclusive known mem
    exact ⟨limitEntries_eq same known ▸ mem, alike_limitEntries mem⟩
  rcases reads.cases mem with ⟨json, member, plain, read⟩ | mem | mem | ⟨items, rest, mem⟩
  · have kind := Option.filter_eq_some_iff.1 plain
    have related := same keyword.key keyword kind.1
    rw [Members.lookup_of_mem distinct member] at related
    generalize found : members'.lookup keyword.key = other at related
    cases related with
    | @some _ json' matching =>
      obtain ⟨value', mem', read'⟩ := reads'.exists_plain (Members.mem_of_lookup found) plain
      refine ⟨value', mem', ReadsValue.alike ?_ matching ?_ ?_ read.2.2 read'.2.2⟩
      · exact fun way => relates _
      · intro items
        simp [items] at kind
      · rintro kept rfl
        revert kept
        cases draft <;> decide
  · obtain ⟨mem', alike⟩ := limit (.inl rfl) mem
    obtain ⟨_, _, _, _, _, rfl⟩ := reads'
    exact ⟨value, by simp [mem'], alike⟩
  · obtain ⟨mem', alike⟩ := limit (.inr rfl) mem
    obtain ⟨_, _, _, _, _, rfl⟩ := reads'
    exact ⟨value, by simp [mem'], alike⟩
  · obtain ⟨_, _, items', _, rest', rfl⟩ := reads'
    obtain ⟨value', mem', alike⟩ := rest.alike relates same rest' mem
    exact ⟨value', List.mem_append_right _ mem', alike⟩

theorem nodup_plainMembers (distinct : (Members.keys members).Nodup) :
    ((plainMembers draft members).map Prod.fst).Nodup := by
  induction members with
  | nil => exact .nil
  | cons first rest ih =>
    obtain ⟨key, value⟩ := first
    obtain ⟨outside, others⟩ := List.nodup_cons.1 distinct
    unfold plainMembers
    rw [List.filterMap_cons]
    dsimp only
    cases found : plainKeyword? draft key with
    | none => exact ih others
    | some keyword =>
      have same := plainKeyword_key found
      subst same
      exact List.nodup_cons.2 ⟨not_mem_plainMembers outside, ih others⟩

theorem nodup_concat {keyword : Keyword} {value : KeywordValue}
    (distinct : (Members.keys keywords).Nodup) (absent : keyword ∉ Members.keys keywords) :
    (Members.keys (keywords ++ [(keyword, value)])).Nodup := by
  rw [Members.keys, List.map_append]
  refine List.nodup_append.2 ⟨distinct, List.pairwise_singleton _ _, fun other mem last single => ?_⟩
  cases List.mem_singleton.1 single
  rintro rfl
  exact absent mem

theorem nodup_limit {bound exclusive : Keyword} (distinct : (Members.keys keywords).Nodup)
    (absent : bound ∉ Members.keys keywords) :
    (Members.keys (keywords ++ limitEntries draft members bound exclusive)).Nodup := by
  unfold limitEntries
  split
  · exact nodup_concat distinct absent
  · rwa [List.append_nil]

/-- An object has each keyword once. -/
theorem Reads.nodup (distinct : (Members.keys members).Nodup)
    (reads : Reads sub draft members keywords) : (Members.keys keywords).Nodup := by
  obtain ⟨_, plain, items, each, rest, rfl⟩ := reads
  have keys := keys_of_reads each
  have absent : ∀ keyword ∈ [Builtin.minimum, Builtin.maximum, Builtin.items],
      keyword ∉ Members.keys plain := by
    intro keyword mem
    rw [keys]
    refine not_mem_plain ?_
    revert keyword
    cases draft <;> decide
  have limits : (Members.keys (plain
      ++ limitEntries draft members Builtin.minimum Builtin.exclusiveMinimum
      ++ limitEntries draft members Builtin.maximum Builtin.exclusiveMaximum)).Nodup := by
    refine nodup_limit (nodup_limit ?_ (absent _ (by decide))) ?_
    · rw [keys]
      exact nodup_plainMembers distinct
    · exact not_mem_limit (absent _ (by decide)) (by decide)
  unfold ReadsItems at rest
  dsimp only at rest
  split at rest
  · rwa [rest, List.append_nil]
  · obtain ⟨form, additional, rfl, _⟩ := rest
    refine nodup_concat limits (not_mem_limit (not_mem_limit ?_ (by decide)) (by decide))
    exact absent _ (by decide)

/-- Names under a keyword are the same if there is an alike value. -/
theorem names_of_alike {schema schema' : Schema} {keyword : Keyword} {name : String}
    (there : ∀ value, (keyword, value) ∈ schema.keywords →
      ∃ value', (keyword, value') ∈ schema'.keywords ∧ value.Alike rel value')
    (distinct' : (Members.keys schema'.keywords).Nodup)
    (mem : name ∈ Compile.namesUnder schema keyword) :
    name ∈ Compile.namesUnder schema' keyword := by
  unfold Compile.namesUnder at mem ⊢
  split at mem
  · next schemas found =>
    obtain ⟨value', mem', alike⟩ := there _ (Members.mem_of_lookup found)
    have found' : schema'.get? keyword = some value' := Members.lookup_of_mem distinct' mem'
    rw [found']
    cases value' with
    | schemaMap schemas' =>
      obtain ⟨⟨name', inner⟩, listed, rfl⟩ := List.mem_map.1 mem
      obtain ⟨inner', listed', _⟩ := alike.1 name' inner listed
      exact List.mem_map.2 ⟨_, listed', rfl⟩
    | _ => exact alike.elim
  · cases mem

/-- What was loaded for objects with matching members is alike. -/
theorem Reads.alike {schema schema' : Schema} (relates : Relates rel sub sub')
    (same : MatchMembers draft members members') (distinct : (Members.keys members).Nodup)
    (distinct' : (Members.keys members').Nodup) (reads : Reads sub draft members schema.keywords)
    (reads' : Reads sub' draft members' schema'.keywords) : schema.Alike rel schema' := by
  have there : ∀ keyword value, (keyword, value) ∈ schema.keywords →
      ∃ value', (keyword, value') ∈ schema'.keywords ∧ value.Alike rel value' :=
    fun keyword value mem => reads.exists_alike relates same distinct reads' mem
  have back : ∀ keyword value', (keyword, value') ∈ schema'.keywords →
      ∃ value, (keyword, value) ∈ schema.keywords ∧ value'.Alike (flip rel) value :=
    fun keyword value' mem => reads'.exists_alike relates.flip same.symm distinct' reads mem
  refine ⟨there, fun keyword value' mem => ?_, fun keyword name => ⟨?_, ?_⟩⟩
  · obtain ⟨value, mem', alike⟩ := back keyword value' mem
    exact ⟨value, mem', alike.flip⟩
  · exact names_of_alike (there keyword) (reads'.nodup distinct')
  · exact names_of_alike (back keyword) (reads.nodup distinct)

end Objects

end Load

end JsonSchema
