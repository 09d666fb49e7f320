import JsonSchema.Proofs.Matching

/-!
# A copy in the place of a reference

`Json.setAt` puts a value into the place that a pointer leads to. Everything at places that are not
above is as before (`Pointer.resolve_setAt_apart`), and behind the place are the parts of the new
value (`Pointer.resolve_setAt_behind`).

A reference by fragment is inlined if a copy of the value that it leads to is put into its place
(`Inlines`). Loading then comes to the same values at the same places, to the parts of the copy at
places behind the reference (`Pairs`), and above the reference to values with a copy in them
(`Inlines.values`). The members of the latter match if the place of the reference is one of a schema
wherever loading comes to an object above it (`Inlines.exists_matching`).
-/

namespace JsonSchema

namespace Members

variable {α : Type} {members : List (String × α)} {key other : String} {f : α → α}

/-- Members with the values under a key changed. -/
def adjust (members : List (String × α)) (key : String) (f : α → α) : List (String × α) :=
  members.map fun member => (member.1, if member.1 = key then f member.2 else member.2)

theorem keys_adjust : keys (adjust members key f) = keys members := by
  unfold keys adjust
  rw [List.map_map]
  rfl

theorem lookup_adjust : (adjust members key f).lookup other =
    (members.lookup other).map fun value => if other = key then f value else value := by
  induction members with
  | nil => rfl
  | cons first rest ih =>
    obtain ⟨name, value⟩ := first
    unfold adjust at ih ⊢
    rw [List.map_cons, List.lookup_cons, List.lookup_cons]
    dsimp only
    cases same : other == name with
    | true =>
      rw [beq_iff_eq] at same
      rw [same]
      rfl
    | false => exact ih

theorem mem_adjust {name : String} {value : α} : (name, value) ∈ adjust members key f ↔
    ∃ old, (name, old) ∈ members ∧ value = if name = key then f old else old := by
  constructor
  · intro mem
    obtain ⟨⟨name, old⟩, inside, same⟩ := List.mem_map.1 mem
    cases same
    exact ⟨old, inside, rfl⟩
  · rintro ⟨old, inside, rfl⟩
    exact List.mem_map.2 ⟨_, inside, rfl⟩

end Members

namespace Json

/-- A value with another one in the place that a pointer leads to. A pointer that leads nowhere
changes nothing. -/
def setAt (inner value : Json) (pointer : Pointer) : Json :=
  match pointer with
  | [] => inner
  | segment :: rest =>
    match value with
    | .object members =>
      .object (Members.adjust members segment fun child => setAt inner child rest)
    | .array items =>
      match Pointer.index? segment with
      | some position => .array (items.modify position fun item => setAt inner item rest)
      | none => value
    | _ => value

/-- A part of an object is a part of the value of one of its keywords. -/
theorem exists_part {draft : Draft} {members : List (String × Json)} {way : Pointer} {part : Json}
    (mem : (way, part) ∈ parts draft members) : ∃ key value keyword rest, (key, value) ∈ members ∧
      Registry.default.find? key (some draft) = some keyword ∧
      (rest, part) ∈ (keyword.variantFor draft).kind.parts value ∧ way = key :: rest := by
  obtain ⟨⟨key, value⟩, member, inside⟩ := List.mem_flatMap.1 mem
  dsimp only at inside
  split at inside
  · next keyword found =>
    obtain ⟨⟨rest, part⟩, listed, same⟩ := List.mem_map.1 inside
    cases same
    exact ⟨key, value, keyword, rest, member, found, listed, rfl⟩
  · cases inside

end Json

/-! ## Pointers -/

namespace Pointer

variable {inner value child old : Json} {segment other : String} {pointer front rest : Pointer}

theorem lookup_of_step {members : List (String × Json)}
    (ok : step (.object members) segment = .ok child) : members.lookup segment = some child := by
  unfold step at ok
  dsimp only at ok
  split at ok
  · next found =>
    cases ok
    exact found
  · cases ok

theorem step_setAt (ok : step value segment = .ok child) :
    step (inner.setAt value (segment :: rest)) segment = .ok (inner.setAt child rest) := by
  rcases step_cases ok with ⟨members, rfl, _⟩ | ⟨items, position, rfl, rfl, mem⟩
  · refine step_member ?_
    rw [Members.lookup_adjust, lookup_of_step ok, Option.map_some, if_pos rfl]
  · rw [Json.setAt, index_toString]
    refine step_item (List.mem_zipIdx_iff_getElem?.2 ?_)
    rw [List.getElem?_modify_eq, List.mem_zipIdx_iff_getElem?.1 mem]
    rfl

theorem step_setAt_other (ok : step value segment = .ok child) (different : segment ≠ other) :
    step (inner.setAt value (other :: rest)) segment = .ok child := by
  rcases step_cases ok with ⟨members, rfl, _⟩ | ⟨items, position, rfl, rfl, mem⟩
  · refine step_member ?_
    rw [Members.lookup_adjust, lookup_of_step ok, Option.map_some, if_neg different]
  · rw [Json.setAt]
    split
    · next index known =>
      refine step_item (List.mem_zipIdx_iff_getElem?.2 ?_)
      have apart : index ≠ position := by
        rintro rfl
        exact different (index_eq known).symm
      rw [List.getElem?_modify_ne _ _ apart]
      exact List.mem_zipIdx_iff_getElem?.1 mem
    · exact ok

/-- What is behind a place is found from the value at this place. -/
theorem resolveFrom_behind {whole whole' : Pointer}
    (first : resolveFrom whole value front = .ok old)
    (ok : resolveFrom whole' value (front ++ rest) = .ok child) :
    resolveFrom whole' old rest = .ok child := by
  induction front generalizing value with
  | nil =>
    cases first
    exact ok
  | cons segment front ih =>
    rw [resolveFrom] at first
    rw [List.cons_append, resolveFrom] at ok
    split at first
    · next next stepped =>
      rw [stepped] at ok
      exact ih first ok
    · cases first

/-- Above the place the new value is put into what was there. -/
theorem resolve_setAt_above {whole : Pointer} (ok : resolveFrom whole value front = .ok child) :
    resolveFrom whole (inner.setAt value (front ++ rest)) front = .ok (inner.setAt child rest) := by
  induction front generalizing value with
  | nil =>
    cases ok
    rfl
  | cons segment front ih =>
    rw [resolveFrom] at ok ⊢
    split at ok
    · next next stepped =>
      rw [List.cons_append, step_setAt stepped]
      exact ih ok
    · cases ok

/-- At places that are neither above nor behind nothing changes. -/
theorem resolve_setAt_apart {whole : Pointer} (ok : resolveFrom whole value pointer = .ok child)
    (above : ¬ pointer <+: front) (behind : ¬ front <+: pointer) :
    resolveFrom whole (inner.setAt value front) pointer = .ok child := by
  induction pointer generalizing value front with
  | nil => exact absurd List.nil_prefix above
  | cons segment pointer ih =>
    cases front with
    | nil => exact absurd List.nil_prefix behind
    | cons other front =>
      rw [resolveFrom] at ok ⊢
      split at ok
      · next next stepped =>
        by_cases same : segment = other
        · subst same
          rw [step_setAt stepped]
          exact ih ok (fun less => above (List.cons_prefix_cons.2 ⟨rfl, less⟩))
            (fun more => behind (List.cons_prefix_cons.2 ⟨rfl, more⟩))
        · rw [step_setAt_other stepped same]
          exact ok
      · cases ok

/-- Behind the place are the parts of the new value. -/
theorem resolve_setAt_behind {whole : Pointer} (ok : resolve value front = .ok old)
    (inside : resolveFrom whole inner rest = .ok child) :
    resolve (inner.setAt value front) (front ++ rest) = .ok child := by
  have here : resolveFrom front (inner.setAt value (front ++ [])) front = .ok inner :=
    resolve_setAt_above ok
  rw [List.append_nil] at here
  exact resolveFrom_append here inside _

end Pointer

namespace Load

/-! ## Where loading comes to in a document -/

/-- Loading comes to a value of a document: its root, a part of an object that is no reference, or
the value that a reference by fragment leads to. -/
inductive Visits (draft : Draft) (document : Json) : Pointer → Json → Prop
  | root : Visits draft document [] document
  | part {pointer way : Pointer} {members : List (String × Json)} {part : Json}
    (above : Visits draft document pointer (.object members))
    (plain : members.lookup Builtin.ref.key = none) (mem : (way, part) ∈ Json.parts draft members) :
    Visits draft document (pointer ++ way) part
  | referred {pointer target : Pointer} {members : List (String × Json)} {fragment : String}
    {value : Json} (above : Visits draft document pointer (.object members))
    (ref : members.lookup Builtin.ref.key = some (.string ("#" ++ fragment)))
    (parsed : Pointer.parseFragment fragment = .ok target)
    (found : Pointer.resolve document target = .ok value) : Visits draft document target value

variable {draft : Draft} {document copied value value' : Json} {pointer pointer' : Pointer}
  {spot target : Pointer} {members members' : List (String × Json)} {inner : Json}

theorem Visits.resolve (proper : document.IsProper) (visits : Visits draft document pointer value) :
    Pointer.resolve document pointer = .ok value := by
  induction visits with
  | root => rfl
  | part _ _ mem ih =>
    exact Pointer.resolve_append ih (Json.resolve_part (Pointer.isProper_resolve ih proper) mem)
  | referred _ _ _ found _ => exact found

/-- A place of the document, and a place with the same value after the copying. -/
inductive Pairs (spot target : Pointer) : Pointer → Pointer → Prop
  | same (pointer : Pointer) : Pairs spot target pointer pointer
  | copied (rest : Pointer) : Pairs spot target (target ++ rest) (spot ++ rest)

theorem Pairs.append (pairs : Pairs spot target pointer pointer') (way : Pointer) :
    Pairs spot target (pointer ++ way) (pointer' ++ way) := by
  cases pairs with
  | same pointer => exact .same _
  | copied rest =>
    rw [List.append_assoc, List.append_assoc]
    exact .copied _

/-- A value that schemas stand for. -/
def IsSchema : Json → Prop
  | .bool _ | .object _ => True
  | _ => False

theorem isSchemaEntry_iff {name : String} :
    isSchemaEntry (name, value) = true ↔ IsSchema value := by
  cases value <;> simp [isSchemaEntry, IsSchema]

/-- A schema with another one in it is a schema. -/
theorem IsSchema.setAt {inner : Json} (schema : IsSchema value) (new : IsSchema inner)
    (pointer : Pointer) : IsSchema (inner.setAt value pointer) := by
  cases pointer with
  | nil => exact new
  | cons segment rest =>
    cases value with
    | bool b => trivial
    | object members => trivial
    | _ => exact schema.elim

/-- Nothing behind a text is a schema, and nothing in an object that holds only a text. -/
theorem not_schema_behind {whole : Pointer} {key text : String} {rest : Pointer}
    (ok : Pointer.resolveFrom whole (.object [(key, .string text)]) rest = .ok value)
    (behind : rest ≠ []) : ¬ IsSchema value := by
  cases rest with
  | nil => exact absurd rfl behind
  | cons segment rest =>
    rw [Pointer.resolveFrom] at ok
    split at ok
    · next next stepped =>
      rcases Pointer.step_cases stepped with ⟨members, same, mem⟩ | ⟨items, _, same, _⟩
      · cases same
        cases List.mem_singleton.1 mem
        cases rest with
        | nil =>
          cases ok
          exact id
        | cons => cases ok
      · cases same
    · cases ok

/-! ## Members with a copy in them -/

section Matching

variable {inner part : Json} {entries : List (String × Json)} {name : String} {way : Pointer}
  {kind : KeywordKind}

/-- A schema in the place of a dependency that is a schema. -/
theorem matchDependencies_adjust (distinct : (Members.keys entries).Nodup)
    (mem : (name, part) ∈ entries) (schema : IsSchema part) (new : IsSchema inner)
    (more : Pointer) :
    MatchDependencies entries
      (Members.adjust entries name fun child => inner.setAt child more) := by
  have single : ∀ {old}, (name, old) ∈ entries → old = part := by
    intro old here
    have found := Members.lookup_of_mem distinct here
    rw [Members.lookup_of_mem distinct mem] at found
    exact (Option.some.inj found).symm
  refine ⟨fun other => ⟨?_, ?_⟩, ?_⟩
  · rintro ⟨old, here, old_schema⟩
    refine ⟨_, Members.mem_adjust.2 ⟨old, here, rfl⟩, isSchemaEntry_iff.2 ?_⟩
    split
    · exact (isSchemaEntry_iff.1 old_schema).setAt new more
    · exact isSchemaEntry_iff.1 old_schema
  · rintro ⟨value', listed, schema'⟩
    obtain ⟨old, here, rfl⟩ := Members.mem_adjust.1 listed
    refine ⟨old, here, isSchemaEntry_iff.2 ?_⟩
    by_cases same : other = name
    · subst same
      rw [single here]
      exact schema
    · rw [if_neg same] at schema'
      exact isSchemaEntry_iff.1 schema'
  · rintro ⟨other, old⟩ plain
    have apart : ∀ {value}, isSchemaEntry (other, value) = false → IsSchema value → False := by
      intro value plain schema
      rw [isSchemaEntry_iff.2 schema] at plain
      cases plain
    constructor
    · intro here
      refine Members.mem_adjust.2 ⟨old, here, ?_⟩
      rw [if_neg]
      rintro rfl
      exact apart plain (single here ▸ schema)
    · intro listed
      obtain ⟨old', here, rfl⟩ := Members.mem_adjust.1 listed
      by_cases same : other = name
      · subst same
        rw [if_pos rfl, single here] at plain
        exact (apart plain (schema.setAt new more)).elim
      · rw [if_neg same]
        exact here

/-- A value of a keyword matches the one with a schema in the place of one of its parts. -/
theorem matches_setAt (proper : value.IsProper) (mem : (way, part) ∈ kind.parts value)
    (new : IsSchema inner) (more : Pointer) :
    Matches kind value (inner.setAt value (way ++ more)) := by
  have itself : (way, part) ∈ [([], value)] → (∀ items, value ≠ .array items) →
      ∀ items, inner.setAt value (way ++ more) ≠ .array items := by
    intro single other items
    cases List.mem_singleton.1 single
    cases more with
    | nil =>
      rintro rfl
      exact new
    | cons segment rest =>
      cases value with
      | array items => exact absurd rfl (other items)
      | _ => exact fun same => by cases same
  have item : ∀ items : List Json, value = .array items →
      (way, part) ∈ items.zipIdx.map (fun entry => ([toString entry.2], entry.1)) →
      ∃ items', inner.setAt value (way ++ more) = .array items' ∧
        items.length = items'.length := by
    rintro items rfl mem
    obtain ⟨⟨item, position⟩, mem, same⟩ := List.mem_map.1 mem
    cases same
    rw [List.singleton_append, Json.setAt, Pointer.index_toString]
    exact ⟨_, rfl, (List.length_modify _ _ _).symm⟩
  unfold KeywordKind.parts at mem
  split at mem
  · obtain ⟨items', same, length⟩ := item _ rfl mem
    exact .inl ⟨_, items', rfl, same, length⟩
  · obtain ⟨items', same, length⟩ := item _ rfl mem
    exact .inl ⟨_, items', rfl, same, length⟩
  · next entries =>
    obtain ⟨⟨name, entry⟩, mem, same⟩ := List.mem_map.1 mem
    cases same
    rintro entries' entries'' ⟨⟩ same name
    cases same
    rw [Members.keys_adjust]
  · next entries =>
    obtain ⟨⟨name, entry⟩, listed, same⟩ := List.mem_filterMap.1 mem
    have known : (name, part) ∈ entries ∧ IsSchema part ∧ way = [name] := by
      dsimp only at same
      split at same
      · cases same
        exact ⟨listed, trivial, rfl⟩
      · cases same
        exact ⟨listed, trivial, rfl⟩
      · cases same
    obtain ⟨listed, schema, rfl⟩ := known
    rintro entries' entries'' ⟨⟩ same
    cases same
    exact matchDependencies_adjust proper.1 listed schema new more
  · trivial
  · next other => exact .inr ⟨other, itself mem other⟩
  · next other => exact .inr ⟨other, itself mem other⟩
  · cases mem

end Matching

/-- A document has a copy of the value that a reference leads to in the place of the reference. All
references that loading comes to are by pointers in fragments; wherever it comes to an object above
the reference, the place is one of a schema and not of data; and no schema says that it is
required. -/
structure Inlines (draft : Draft) (document copied : Json) (spot target : Pointer) (value : Json) :
    Prop where
  proper : document.IsProper
  copied : copied = value.setAt document spot
  reference : ∃ fragment, Cache.isPointerFragment fragment = true ∧
    Pointer.parseFragment fragment = .ok target ∧
    Pointer.resolve document spot = .ok (.object [(Builtin.ref.key, .string ("#" ++ fragment))])
  found : Pointer.resolve document target = .ok value
  schema : IsSchema value
  fragments : ∀ pointer members ref, Visits draft document pointer (.object members) →
    members.lookup Builtin.ref.key = some ref →
    ∃ fragment, ref = .string ("#" ++ fragment) ∧ Cache.isPointerFragment fragment = true
  placed : ∀ pointer members segment rest, Visits draft document pointer (.object members) →
    members.lookup Builtin.ref.key = none → pointer ++ segment :: rest = spot →
    isKeyword draft segment = true →
    ∃ way part more, (way, part) ∈ Json.parts draft members ∧ segment :: rest = way ++ more
  unflagged : draft = .draft3 → ∀ pointer members, Visits draft document pointer (.object members) →
    members.lookup Builtin.ref.key = none →
    members.lookup Builtin.required.key ≠ some (.bool true)

namespace Inlines

variable (inlines : Inlines draft document copied spot target value)

include inlines

/-- At paired places there is the same value, or one with a copy of the value of the reference in
it. -/
theorem values {inner inner' : Json} (pairs : Pairs spot target pointer pointer')
    (schema : IsSchema inner) (found : Pointer.resolve document pointer = .ok inner)
    (found' : Pointer.resolve copied pointer' = .ok inner') :
    inner' = inner ∨
      ∃ rest, pointer' = pointer ∧ spot = pointer ++ rest ∧ inner' = value.setAt inner rest := by
  obtain ⟨_, _, _, reference⟩ := inlines.reference
  rw [inlines.copied] at found'
  cases pairs with
  | same pointer =>
    by_cases above : pointer <+: spot
    · obtain ⟨rest, rfl⟩ := above
      have new : Pointer.resolve (value.setAt document (pointer ++ rest)) pointer =
          .ok (value.setAt inner rest) := Pointer.resolve_setAt_above found
      exact .inr ⟨rest, rfl, rfl, Except.ok.inj (found'.symm.trans new)⟩
    · by_cases behind : spot <+: pointer
      · obtain ⟨rest, rfl⟩ := behind
        refine absurd schema (not_schema_behind (Pointer.resolveFrom_behind reference found) ?_)
        rintro rfl
        exact above (List.append_nil _ ▸ List.prefix_rfl)
      · have new : Pointer.resolve (value.setAt document spot) pointer = .ok inner :=
          Pointer.resolve_setAt_apart found above behind
        exact .inl (Except.ok.inj (found'.symm.trans new))
  | copied rest =>
    have inside := Pointer.resolveFrom_behind inlines.found found
    have new := Pointer.resolve_setAt_behind reference inside
    exact .inl (Except.ok.inj (found'.symm.trans new))

/-- Above the reference an object that is no reference has members that match those with the copy
in them. -/
theorem exists_matching {segment : String} {rest : Pointer}
    (visits : Visits draft document pointer (.object members))
    (plain : members.lookup Builtin.ref.key = none) (above : spot = pointer ++ segment :: rest) :
    ∃ members', value.setAt (.object members) (segment :: rest) = .object members' ∧
      members'.lookup Builtin.ref.key = none ∧ MatchMembers draft members members' := by
  have proper := Pointer.isProper_resolve (visits.resolve inlines.proper) inlines.proper
  refine ⟨_, rfl, ?_, fun key keyword known => ?_⟩
  · rw [Members.lookup_adjust, plain]
    rfl
  · rw [Members.lookup_adjust]
    cases found : members.lookup key with
    | none => exact .none
    | some child =>
      refine .some ?_
      split
      · next same =>
        subst same
        have isKeyword : isKeyword draft key = true := by
          unfold Load.isKeyword
          rw [known]
          rfl
        obtain ⟨way, part, more, mem, split⟩ :=
          inlines.placed pointer members key rest visits plain above.symm isKeyword
        obtain ⟨key', child', keyword', way, member, known', listed, rfl⟩ := Json.exists_part mem
        obtain ⟨rfl, rfl⟩ := List.cons.inj split
        rw [Members.lookup_of_mem proper.1 member] at found
        cases found
        rw [known] at known'
        cases known'
        have inner := (Json.areProperMembers_iff members).1 proper.2 _ member
        exact matches_setAt inner listed inlines.schema more
      · exact .refl _ child

/-- No schema says that it is required after the copying either. -/
theorem unflagged_copied (draft3 : draft = .draft3) (pairs : Pairs spot target pointer pointer')
    (visits : Visits draft document pointer inner) (schema : IsSchema inner)
    (found' : Pointer.resolve copied pointer' = .ok (.object members'))
    (plain' : members'.lookup Builtin.ref.key = none) :
    members'.lookup Builtin.required.key ≠ some (.bool true) := by
  rcases inlines.values pairs schema (visits.resolve inlines.proper) found' with
    same | ⟨rest, rfl, above, same⟩
  · rw [← same] at visits
    exact inlines.unflagged draft3 pointer members' visits plain'
  · cases rest with
    | nil =>
      rw [List.append_nil] at above
      subst above
      obtain ⟨fragment, _, parsed, reference⟩ := inlines.reference
      rw [visits.resolve inlines.proper] at reference
      cases reference
      have there := visits.referred List.lookup_cons_self parsed inlines.found
      rw [show value = .object members' from same.symm] at there
      exact inlines.unflagged draft3 target members' there plain'
    | cons segment rest =>
      cases inner with
      | object members =>
        have plain : members.lookup Builtin.ref.key = none := by
          cases same
          rwa [Members.lookup_adjust, Option.map_eq_none_iff] at plain'
        obtain ⟨_, same', _, matching⟩ := inlines.exists_matching visits plain above
        rw [← same] at same'
        cases same'
        subst draft3
        have flags := matching Builtin.required.key Builtin.required (by decide)
        have before := inlines.unflagged rfl pointer' members visits plain
        intro flagged
        rw [flagged] at flags
        generalize members.lookup Builtin.required.key = old at flags before
        cases flags with
        | some equal => exact before (congrArg some equal)
      | bool b => cases same
      | _ => exact schema.elim

omit inlines in
theorem draftOf_default {loader : Loader}
    (none : ∀ text, document.member? Builtin.schemaUri.key ≠ some (.string text)) :
    draftOf loader document = loader.options.defaultDraft := by
  unfold draftOf
  split
  · next text found => exact absurd found (none text)
  · rfl

omit inlines in
theorem draftOf_congr {loader : Loader} (same : document.member? Builtin.schemaUri.key =
    copied.member? Builtin.schemaUri.key) : draftOf loader document = draftOf loader copied := by
  unfold draftOf
  rw [same]

omit inlines in
/-- A value with a schema in it is no text, neither before nor after the copying. -/
theorem ne_string_setAt {whole rest : Pointer} {old : Json} (schema : IsSchema old)
    (new : IsSchema inner) (found : Pointer.resolveFrom whole value rest = .ok old)
    (text : String) :
    value ≠ .string text ∧ inner.setAt value rest ≠ .string text := by
  have plain : value ≠ .string text := by
    rintro rfl
    cases rest with
    | nil =>
      cases found
      exact schema
    | cons => cases found
  refine ⟨plain, ?_⟩
  cases rest with
  | nil =>
    rintro rfl
    exact new
  | cons segment rest =>
    cases value with
    | object => exact nofun
    | array =>
      rw [Json.setAt]
      split <;> exact nofun
    | _ => exact plain

/-- The copying leaves the draft that the document names. -/
theorem draftOf_eq (loader : Loader) : draftOf loader copied = draftOf loader document := by
  obtain ⟨fragment, _, parsed, reference⟩ := inlines.reference
  rw [inlines.copied]
  cases spot with
  | nil =>
    -- the root refers to itself, since nothing behind it is a schema
    cases reference
    cases target with
    | nil => exact congrArg _ (Except.ok.inj inlines.found).symm
    | cons => exact absurd inlines.schema (not_schema_behind inlines.found nofun)
  | cons segment rest =>
    cases document with
    | object members =>
      by_cases same : Builtin.schemaUri.key = segment
      · subst same
        rw [Pointer.resolve, Pointer.resolveFrom] at reference
        split at reference
        · next child stepped =>
          have texts := @ne_string_setAt child _ _ _ (.object _) trivial inlines.schema reference
          have found := Pointer.lookup_of_step stepped
          rw [draftOf_default, draftOf_default]
          · intro text named
            change members.lookup _ = _ at named
            rw [found] at named
            exact (texts text).1 (Option.some.inj named)
          · intro text named
            change (Members.adjust _ _ _).lookup _ = _ at named
            rw [Members.lookup_adjust, found, Option.map_some, if_pos rfl] at named
            exact (texts text).2 (Option.some.inj named)
        · cases reference
      · refine draftOf_congr ?_
        change (Members.adjust _ _ _).lookup _ = members.lookup _
        rw [Members.lookup_adjust]
        simp only [if_neg same, Option.map_id']
    | array items =>
      refine draftOf_congr ?_
      rw [Json.setAt]
      split <;> rfl
    | _ => rfl

end Inlines

end Load

end JsonSchema
