import JsonSchema.Proofs.Arrangement
import JsonSchema.Proofs.Matching
import JsonSchema.Proofs.Retaining

/-!
# Reading reordered objects

An object that was read matches the same object with its members in another order
(`Load.Reads.matches_reordered`). Plain values say the same in any order (`Json.Reordered.isLike`),
and what is digested has no other order: types and names are lists of texts
(`Digest.types_reordered`, `Digest.names_reordered`), and the keywords for single values take no
arrays and no objects (`Load.shape_of_kind`).
-/

namespace JsonSchema

/-! ## Plain values -/

/-- Related lists are related, where an element is replaced by one that has the same relations. -/
theorem forall₂_middle {α β : Type} {R : α → β → Prop} {x y : β} (same : ∀ a, R a x ↔ R a y)
    (front back : List β) {others : List α} :
    List.Forall₂ R others (front ++ x :: back) ↔ List.Forall₂ R others (front ++ y :: back) := by
  induction front generalizing others with
  | nil => simp [List.forall₂_cons_right_iff, same]
  | cons first front ih => simp [List.forall₂_cons_right_iff, ih]

namespace Json

variable {v w other : Json}

theorem equals_array_right {ys : List Json} : other.equals (.array ys) = true ↔
    ∃ xs, other = .array xs ∧ List.Forall₂ (fun x y => x.equals y = true) xs ys := by
  cases other <;> simp [equals, equalItems_iff]

theorem equals_object_right {ys : List (String × Json)} : other.equals (.object ys) = true ↔
    ∃ xs, other = .object xs ∧ xs.length = ys.length ∧
      ∀ name x, (name, x) ∈ xs → ∃ y, ys.lookup name = some y ∧ x.equals y = true := by
  cases other <;> simp [equals, membersIn_iff]

namespace Reordered

/-- The same values are equal to reordered ones. -/
theorem equals_right (reordered : v.Reordered w) (proper : v.IsProper) (other : Json) :
    other.equals v = other.equals w := by
  induction reordered generalizing other with
  | refl => rfl
  | trans first _ ih ih' => exact (ih proper other).trans (ih' (first.isProper proper) other)
  | number same => rw [same]
  | reorder perm =>
    rw [Bool.eq_iff_iff, equals_object_right, equals_object_right]
    simp only [perm.length_eq, Members.lookup_perm proper.1 perm]
  | item front back _ ih =>
    have inner := fun a => Bool.eq_iff_iff.1 (ih (proper.item (mem_middle.2 (.inl rfl))) a)
    rw [Bool.eq_iff_iff, equals_array_right, equals_array_right]
    exact exists_congr fun xs => and_congr_right fun _ => forall₂_middle inner front back
  | @member x y front name back _ ih =>
    have inside : (name, x) ∈ front ++ (name, x) :: back := mem_middle.2 (.inl rfl)
    have inner := ih (proper.member inside)
    -- both values of the member are found under the same names
    have found : ∀ key (a : Json),
        (∃ z, (front ++ (name, x) :: back).lookup key = some z ∧ a.equals z = true) ↔
          ∃ z, (front ++ (name, y) :: back).lookup key = some z ∧ a.equals z = true := by
      intro key a
      rw [List.lookup_append, List.lookup_append, List.lookup_cons, List.lookup_cons]
      cases front.lookup key with
      | some z => exact Iff.rfl
      | none =>
        cases key == name with
        | true => simp [inner a]
        | false => exact Iff.rfl
    rw [Bool.eq_iff_iff, equals_object_right, equals_object_right]
    have lengths : (front ++ (name, x) :: back).length = (front ++ (name, y) :: back).length := by
      simp
    simp only [lengths, found]

/-- A reordered value says the same in a keyword. -/
theorem isLike (reordered : v.Reordered w) (proper : v.IsProper) : v.IsLike w where
  equals other := reordered.equals_right proper other
  truthy := by
    rcases reordered.cases with ⟨_, _, rfl, rfl, each⟩ | ⟨_, _, rfl, rfl, matched⟩ | rfl
    · exact congrArg (!·) (Matched.of_forall₂ each).isEmpty_eq
    · exact congrArg (!·) matched.isEmpty_eq
    · rfl
  string text := by
    constructor
    · rintro rfl
      exact reordered.eq_string
    · rintro rfl
      exact reordered.symm.eq_string
  number n := by
    constructor
    · rintro rfl
      exact (reordered.eq_of_scalar (by simp) (by simp)).symm
    · rintro rfl
      exact (reordered.symm.eq_of_scalar (by simp) (by simp)).symm

/-- A list of texts has one order. -/
theorem eq_of_texts {items : List Json} (reordered : (Json.array items).Reordered w)
    (texts : ∀ item ∈ items, ∃ text, item = .string text) : w = .array items := by
  obtain ⟨items', rfl, each⟩ := reordered.array
  have known : List.Forall₂ (fun x y => x ∈ items ∧ x.Reordered y) items items' :=
    (List.forall₂_and_left _ _).2 ⟨fun _ mem => mem, each⟩
  have same : List.Forall₂ (· = ·) items items' := known.imp fun x y related => by
    obtain ⟨text, rfl⟩ := texts x related.1
    exact related.2.eq_string.symm
  rw [List.forall₂_eq_eq_eq] at same
  rw [same]

theorem isSchemaEntry_eq (reordered : v.Reordered w) (name : String) :
    Load.isSchemaEntry (name, v) = Load.isSchemaEntry (name, w) := by
  rcases reordered.cases with ⟨_, _, rfl, rfl, _⟩ | ⟨_, _, rfl, rfl, _⟩ | rfl <;> rfl

end Reordered

end Json

namespace Digest

variable {key name : String} {draft : Draft} {v w : Json}

theorem texts_of_addTypes {named : List Json} {types types' : List InstanceType}
    (ok : named.foldlM (addType key draft) types = .ok types') :
    ∀ value ∈ named, ∃ text, value = .string text := by
  induction named generalizing types with
  | nil => simp
  | cons first rest ih =>
    rw [List.foldlM_cons] at ok
    obtain ⟨next, added, ok⟩ := except_bind_ok ok
    intro value mem
    rcases List.mem_cons.1 mem with rfl | later
    · cases value with
      | string text => exact ⟨text, rfl⟩
      | _ => cases added
    · exact ih ok value later

/-- Types have one order. -/
theorem types_reordered {loaded : KeywordValue} (reordered : v.Reordered w)
    (shaped : v.shape? = some .array ∨ v.shape? = some .string)
    (ok : types key v draft = .ok loaded) : w = v := by
  cases v with
  | string text => exact reordered.eq_string
  | array items =>
    unfold types at ok
    change (if items.isEmpty && draft ≠ .draft3 then _ else _) = _ at ok
    split at ok
    · cases ok
    · obtain ⟨_, added, _⟩ := except_bind_ok ok
      exact reordered.eq_of_texts (texts_of_addTypes added)
  | _ => rcases shaped with same | same <;> cases same

/-- A list of names has one order. -/
theorem names_reordered {allowEmpty : Bool} {texts : List String} (reordered : v.Reordered w)
    (ok : names key v allowEmpty = .ok texts) : w = v := by
  obtain rfl := names_eq ok
  refine reordered.eq_of_texts fun item mem => ?_
  obtain ⟨text, _, rfl⟩ := List.mem_map.1 mem
  exact ⟨text, rfl⟩

theorem required_reordered {loaded : KeywordValue} (reordered : v.Reordered w)
    (ok : required key v draft = .ok loaded) : w = v := by
  unfold required at ok
  split at ok
  · exact (reordered.eq_of_scalar (by simp) (by simp)).symm
  · obtain ⟨names, listed, _⟩ := except_bind_ok ok
    exact names_reordered reordered listed

theorem dependency_reordered {texts : List String} (reordered : v.Reordered w)
    (ok : dependency key name v draft = .ok texts) : w = v := by
  unfold dependency at ok
  split at ok
  · exact reordered.eq_string
  · exact names_reordered reordered ok

end Digest

namespace Load

section Matching

variable {draft : Draft} {value value' : Json} {keyword : Keyword}

/-- Reordered values of one kind match, if those that take no parts are equal. -/
theorem Matches.of_reordered {kind : KeywordKind} (inner : value.Reordered value')
    (proper : value.IsProper)
    (equal : kind ∈ [KeywordKind.string, .number, .boolean, .stringSet, .type, .limit, .reference] →
      value' = value)
    (listed : kind = .jsonArray → ∃ items, value = .array items)
    (depends : kind = .dependencies → ∀ entries entries', value = .object entries →
      value' = .object entries' → MatchDependencies entries entries') :
    Matches kind value value' := by
  have lists : (∃ items items', value = .array items ∧ value' = .array items' ∧
      items.length = items'.length) ∨
      (∀ items, value ≠ .array items) ∧ ∀ items, value' ≠ .array items := by
    rcases inner.cases with ⟨xs, ys, rfl, rfl, each⟩ | ⟨_, _, rfl, rfl, _⟩ | rfl
    · exact .inl ⟨xs, ys, rfl, rfl, each.length_eq⟩
    · exact .inr ⟨by simp, by simp⟩
    · exact Matches.refl .items value
  cases kind with
  | schema => trivial
  | schemaList | items => exact lists
  | schemaMap =>
    rintro entries entries' rfl rfl name
    obtain ⟨_, same, matched⟩ := inner.object
    cases same
    exact (matched.perm_map fun _ _ paired => paired.1).mem_iff
  | dependencies => exact depends rfl
  | jsonValue => exact inner.isLike proper
  | jsonArray =>
    obtain ⟨items, rfl⟩ := listed rfl
    obtain ⟨items', rfl, each⟩ := inner.array
    refine .inr ⟨items, items', rfl, rfl, ?_⟩
    have known : List.Forall₂ (fun x y => x ∈ items ∧ x.Reordered y) items items' :=
      (List.forall₂_and_left _ _).2 ⟨fun _ mem => mem, each⟩
    exact known.imp fun x y related => related.2.isLike (proper.item related.1)
  | _ => exact (equal (by decide)).symm

/-- Dependencies that were read are reordered into matching ones. -/
theorem MatchDependencies.of_reordered {key : String} {entries entries' : List (String × Json)}
    (reordered : (Json.object entries).Reordered (.object entries'))
    (read : ∀ name value, (name, value) ∈ entries → isSchemaEntry (name, value) = false →
      ∃ texts, Digest.dependency key name value draft = .ok texts) :
    MatchDependencies entries entries' := by
  obtain ⟨_, same, matched⟩ := reordered.object
  cases same
  obtain ⟨_, same, back⟩ := reordered.symm.object
  cases same
  refine ⟨fun name => ⟨?_, ?_⟩, fun entry plain => ⟨fun mem => ?_, fun mem' => ?_⟩⟩
  · rintro ⟨value, mem, schema⟩
    obtain ⟨⟨_, value'⟩, mem', rfl, inner⟩ := matched.exists_right mem
    exact ⟨value', mem', by rw [← inner.isSchemaEntry_eq]; exact schema⟩
  · rintro ⟨value', mem', schema⟩
    obtain ⟨⟨_, value⟩, mem, rfl, inner⟩ := back.exists_right mem'
    exact ⟨value, mem, by rw [← inner.isSchemaEntry_eq]; exact schema⟩
  · obtain ⟨name, value⟩ := entry
    obtain ⟨⟨_, value'⟩, mem', rfl, inner⟩ := matched.exists_right mem
    obtain ⟨texts, ok⟩ := read _ _ mem plain
    obtain rfl : value' = value := Digest.dependency_reordered inner ok
    exact mem'
  · obtain ⟨name, value'⟩ := entry
    obtain ⟨⟨_, value⟩, mem, rfl, inner⟩ := back.exists_right mem'
    rw [inner.isSchemaEntry_eq] at plain
    obtain ⟨texts, ok⟩ := read _ _ mem plain
    obtain rfl : value' = value := Digest.dependency_reordered inner.symm ok
    exact mem

/-- What the keywords of a kind take: scalars take no array and no object, and lists no object. -/
theorem shape_of_kind (known : keyword ∈ Builtin.all) {shape : Shape}
    (shaped : value.shape? = some shape) (expected : shape ∈ (keyword.variantFor draft).expects)
    (kind : (keyword.variantFor draft).kind ∈
      [KeywordKind.string, .number, .boolean, .limit, .reference]) :
    (∀ items, value ≠ .array items) ∧ ∀ members, value ≠ .object members := by
  have all : ∀ keyword ∈ Builtin.all, ∀ draft ∈ Draft.all,
      (keyword.variantFor draft).kind ∈ [KeywordKind.string, .number, .boolean, .limit, .reference] →
        ∀ shape ∈ (keyword.variantFor draft).expects, shape ≠ .array ∧ shape ≠ .object := by
    decide +kernel
  have mem : draft ∈ Draft.all := by cases draft <;> decide
  obtain ⟨noArray, noObject⟩ := all keyword known draft mem kind shape expected
  constructor
  · rintro items rfl
    cases shaped
    exact noArray rfl
  · rintro members rfl
    cases shaped
    exact noObject rfl

/-- What a keyword says that reads no schemas has one order. -/
theorem digested_reordered (known : keyword ∈ Builtin.all) {shape : Shape}
    (shaped : value.shape? = some shape) (expected : shape ∈ (keyword.variantFor draft).expects)
    (inner : value.Reordered value') {loaded : KeywordValue}
    (kind : (keyword.variantFor draft).kind = .stringSet ∨ (keyword.variantFor draft).kind = .type)
    (ok : digested keyword (keyword.variantFor draft).kind value draft = .ok loaded) :
    value' = value := by
  have types := (Keyword.isUsual_of_mem known draft).types
  generalize (keyword.variantFor draft).kind = kind at ok types kind
  unfold digested at ok
  split at ok
  · next named =>
    refine Digest.types_reordered inner ?_ ok
    rw [shaped]
    exact (types named shape expected).imp (congrArg some) (congrArg some)
  · next other =>
    split at ok
    · exact Digest.required_reordered inner ok
    · rw [if_pos (kind.resolve_right other)] at ok
      obtain ⟨names, listed, _⟩ := except_bind_ok ok
      exact Digest.names_reordered inner listed

/-- An object that was read matches one with its members in another order. -/
theorem Reads.matches_reordered {sub : Sub} {members members' : List (String × Json)}
    {keywords : List (Keyword × KeywordValue)}
    (reads : Reads sub draft members keywords)
    (reordered : (Json.object members).Reordered (.object members'))
    (proper : (Json.object members).IsProper) : MatchMembers draft members members' := by
  intro key keyword found
  have related := reordered.lookup proper.1 key
  cases here : members.lookup key with
  | none =>
    rw [none_of_rel related here]
    exact .none
  | some value =>
    obtain ⟨value', there, inner⟩ := exists_of_rel related here
    rw [there]
    have mem := Members.mem_of_lookup here
    have isKeyword : isKeyword draft key = true := Option.isSome_of_eq_some found
    obtain ⟨keyword', shape, found', shaped, expected⟩ := reads.1 _ mem isKeyword
    rw [found] at found'
    cases found'
    obtain ⟨known, rfl⟩ := find_default found
    -- a keyword of its own was read from its value
    have read : (keyword.variantFor draft).kind ∈ [KeywordKind.stringSet, .type, .dependencies] →
        ∃ loaded, ReadsMember sub draft (keyword, value) (keyword, loaded) := by
      intro kind
      have alone : ∀ keyword ∈ Builtin.all, ∀ draft ∈ Draft.all,
          (keyword.variantFor draft).kind ∈ [KeywordKind.stringSet, .type, .dependencies] →
            (!(keyword.mergedInto.isSome || (keyword.variantFor draft).kind = .limit ||
              (keyword.variantFor draft).kind = .items)) = true := by
        decide +kernel
      have plain : plainKeyword? draft keyword.key = some keyword :=
        Option.filter_eq_some_iff.2
          ⟨found, alone keyword known draft (by cases draft <;> decide) kind⟩
      obtain ⟨loaded, _, read⟩ := reads.exists_plain mem plain
      exact ⟨loaded, read⟩
    refine .some (Matches.of_reordered inner (proper.member mem) ?_ ?_ ?_)
    · intro kind
      by_cases listed : (keyword.variantFor draft).kind = .stringSet ∨
          (keyword.variantFor draft).kind = .type
      · obtain ⟨loaded, _, _, digests⟩ := read (by rcases listed with same | same <;> simp [same])
        have ok : digested keyword (keyword.variantFor draft).kind value draft = .ok loaded := by
          rcases listed with same | same <;> (rw [same] at digests ⊢; exact digests)
        exact digested_reordered known shaped expected inner listed ok
      · refine (inner.eq_of_scalar ?_ ?_).symm
        all_goals
          have scalar : (keyword.variantFor draft).kind ∈
              [KeywordKind.string, .number, .boolean, .limit, .reference] := by
            revert kind listed
            generalize (keyword.variantFor draft).kind = kind
            cases kind <;> decide
          have shapes := shape_of_kind known shaped expected scalar
        · exact shapes.1
        · exact shapes.2
    · intro kind
      have array := (Keyword.isUsual_of_mem known draft).values kind shape expected
      subst array
      cases value with
      | array items => exact ⟨items, rfl⟩
      | _ => cases shaped
    · rintro kind entries entries' rfl rfl
      obtain ⟨loaded, _, _, reads⟩ := read (by simp [kind])
      rw [kind] at reads
      obtain ⟨_, names, _, same, _, needed, _⟩ := reads
      cases same
      refine @MatchDependencies.of_reordered draft keyword.key _ _ inner fun name value mem plain => ?_
      obtain ⟨texts, _, _, ok⟩ :=
        exists_of_forall₂ needed (List.mem_filter.2 ⟨mem, by simpa using plain⟩)
      exact ⟨texts.2, ok⟩

end Matching

end Load

end JsonSchema
