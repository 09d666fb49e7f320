import JsonSchema.Proofs.Alike
import JsonSchema.Proofs.Reordering
import JsonSchema.Proofs.Returning

/-!
# Documents with their members in another order

Pointers lead to reordered values in reordered ones, walks come to the same locations, and the index
walk meets the same identifiers, in another order (`Cache.metValue_perm`). So what loading comes to
in some documents it comes to, reordered, in documents with the members of their objects in another
order (`Load.Rearranged.comes`), and every URI that names a place there names it here
(`Load.Rearranged.names`). This takes proper documents and identifiers of which no two are equal: of
two equal ones the index has the first, and the order says which one that is.
-/

namespace JsonSchema

section Related

variable {α β : Type} {R : α → β → Prop}

theorem Matched.exists_right {xs : List α} {ys : List β} (matched : Matched R xs ys) {x : α}
    (mem : x ∈ xs) : ∃ y ∈ ys, R x y := by
  obtain ⟨zs, perm, each⟩ := matched
  exact exists_of_forall₂ each (perm.mem_iff.1 mem)

theorem exists_of_rel {x : Option α} {y : Option β} (related : Option.Rel R x y) {a : α}
    (found : x = some a) : ∃ b, y = some b ∧ R a b := by
  subst found
  cases related with
  | some here => exact ⟨_, rfl, here⟩

theorem none_of_rel {x : Option α} {y : Option β} (related : Option.Rel R x y) (none : x = none) :
    y = .none := by
  subst none
  cases related
  rfl

theorem rel_back {S : β → α → Prop} {x : Option α} {y : Option β} (related : Option.Rel R x y)
    (back : ∀ a b, R a b → S b a) : Option.Rel S y x := by
  cases related with
  | some here => exact .some (back _ _ here)
  | none => exact .none

end Related

/-- Members of distinct names have the same values in another order. -/
theorem Members.lookup_perm {α : Type} {xs ys : List (String × α)} (distinct : (keys xs).Nodup)
    (perm : xs.Perm ys) (name : String) : xs.lookup name = ys.lookup name := by
  have related := lookup_of_matched (R := Eq) distinct (.of_perm (fun _ => ⟨rfl, rfl⟩) perm) name
  generalize xs.lookup name = x, ys.lookup name = y at related ⊢
  cases related with
  | some same => rw [same]
  | none => rfl

/-! ## Values -/

namespace Json.Reordered

variable {v w : Json} {members members' : List (String × Json)}

theorem symm (reordered : v.Reordered w) : w.Reordered v := by
  induction reordered with
  | refl v => exact .refl v
  | trans _ _ ih ih' => exact .trans ih' ih
  | number same => exact .number same.symm
  | reorder perm => exact .reorder perm.symm
  | item front back _ ih => exact .item front back ih
  | member front name back _ ih => exact .member front name back ih

/-- Reordered objects have reordered values under each name. -/
theorem lookup (reordered : (Json.object members).Reordered (.object members'))
    (distinct : (Members.keys members).Nodup) (name : String) :
    Option.Rel Reordered (members.lookup name) (members'.lookup name) := by
  obtain ⟨_, same, matched⟩ := reordered.object
  cases same
  exact Members.lookup_of_matched distinct matched name

theorem lookup_none (reordered : (Json.object members).Reordered (.object members'))
    (distinct : (Members.keys members).Nodup) {name : String}
    (absent : members.lookup name = none) : members'.lookup name = none :=
  none_of_rel (reordered.lookup distinct name) absent

theorem eq_string {text : String} (reordered : (Json.string text).Reordered w) :
    w = .string text :=
  (reordered.eq_of_scalar (by simp) (by simp)).symm

/-- A text is the same under each name. -/
theorem lookup_string (reordered : (Json.object members).Reordered (.object members'))
    (distinct : (Members.keys members).Nodup) {name text : String}
    (found : members.lookup name = some (.string text)) :
    members'.lookup name = some (.string text) := by
  obtain ⟨value, found', inner⟩ := exists_of_rel (reordered.lookup distinct name) found
  rw [found', inner.eq_string]

theorem nodup (reordered : (Json.object members).Reordered (.object members'))
    (distinct : (Members.keys members).Nodup) : (Members.keys members').Nodup := by
  obtain ⟨_, same, matched⟩ := reordered.object
  cases same
  exact (matched.perm_map fun _ _ paired => paired.1).nodup_iff.1 distinct

end Json.Reordered

/-! ## Pointers and walks -/

section Ways

variable {v w last : Json} {segment : String} {whole pointer : Pointer}

/-- A segment leads to reordered values in reordered ones. -/
theorem Pointer.step_reordered (reordered : v.Reordered w) (proper : v.IsProper)
    (ok : step v segment = .ok last) :
    ∃ last', step w segment = .ok last' ∧ last.Reordered last' := by
  rcases reordered.cases with ⟨xs, ys, rfl, rfl, each⟩ | ⟨xs, ys, rfl, rfl, _⟩ | rfl
  · unfold step at ok ⊢
    dsimp only at ok ⊢
    split at ok
    · cases ok
    · next index found =>
      split at ok
      · next item listed =>
        cases ok
        obtain ⟨item', listed', inner⟩ := exists_getElem each listed
        rw [listed']
        exact ⟨item', rfl, inner⟩
      · cases ok
  · unfold step at ok
    dsimp only at ok
    split at ok
    · next value found =>
      cases ok
      obtain ⟨value', found', inner⟩ := exists_of_rel (reordered.lookup proper.1 _) found
      exact ⟨value', step_member found', inner⟩
    · cases ok
  · exact ⟨last, ok, .refl last⟩

theorem Pointer.resolveFrom_reordered (reordered : v.Reordered w) (proper : v.IsProper)
    (ok : resolveFrom whole v pointer = .ok last) :
    ∃ last', resolveFrom whole w pointer = .ok last' ∧ last.Reordered last' := by
  induction pointer generalizing v w with
  | nil =>
    cases ok
    exact ⟨w, rfl, reordered⟩
  | cons segment rest ih =>
    rw [resolveFrom] at ok ⊢
    split at ok
    · next next stepped =>
      obtain ⟨next', stepped', inner⟩ := step_reordered reordered proper stepped
      rw [stepped']
      exact ih inner (isProper_step stepped proper) ok
    · cases ok

/-- A pointer leads to reordered values in reordered ones. -/
theorem Pointer.resolve_reordered (reordered : v.Reordered w) (proper : v.IsProper)
    (ok : resolve v pointer = .ok last) :
    ∃ last', resolve w pointer = .ok last' ∧ last.Reordered last' :=
  resolveFrom_reordered reordered proper ok

theorem Json.Reordered.member_string (reordered : v.Reordered w) (proper : v.IsProper)
    {name text : String} (found : v.member? name = some (.string text)) :
    w.member? name = some (.string text) := by
  rcases reordered.cases with ⟨_, _, rfl, _⟩ | ⟨_, _, rfl, rfl, _⟩ | rfl
  · cases found
  · exact reordered.lookup_string proper.1 found
  · exact found

/-- A walk to a value comes to the same location in reordered values. -/
theorem Location.walk_reordered {idKey : String} {location : Location} (reordered : v.Reordered w)
    (proper : v.IsProper) (resolved : Pointer.resolveFrom whole v pointer = .ok last) :
    walk idKey location w pointer = walk idKey location v pointer := by
  induction pointer generalizing v w location with
  | nil => rfl
  | cons segment rest ih =>
    rw [Pointer.resolveFrom] at resolved
    split at resolved
    · next next stepped =>
      obtain ⟨next', stepped', inner⟩ := Pointer.step_reordered reordered proper stepped
      have step : Walk.step v segment = .ok next := by
        unfold Walk.step
        rw [stepped]
      have step' : Walk.step w segment = .ok next' := by
        unfold Walk.step
        rw [stepped']
      have further : ∀ start, (do
            let next ← (Walk.step w segment).mapError WalkFault.step
            walk idKey (child start [segment]) next rest) = (do
            let next ← (Walk.step v segment).mapError WalkFault.step
            walk idKey (child start [segment]) next rest) := by
        intro start
        rw [step, step']
        exact ih inner (Pointer.isProper_step stepped proper) resolved
      rw [walk, walk]
      split
      · next identifier found =>
        rw [reordered.symm.member_string (reordered.isProper proper) found]
        exact congrArg (_ >>= ·) (funext further)
      · next other =>
        split
        · next identifier found =>
          exact absurd (reordered.member_string proper found) (other identifier)
        · exact further location
    · cases resolved

theorem Location.ofDocument_reordered {uri idKey : String} (reordered : v.Reordered w)
    (proper : v.IsProper) (resolved : Pointer.resolve v pointer = .ok last) :
    ofDocument uri w pointer idKey = ofDocument uri v pointer idKey := by
  unfold ofDocument
  exact congrArg (_ >>= ·) (funext fun start => walk_reordered reordered proper resolved)

theorem Location.named_reordered {idKey : String} {location : Location}
    {members members' : List (String × Json)}
    (reordered : (Json.object members).Reordered (.object members'))
    (distinct : (Members.keys members).Nodup) :
    location.named idKey members' = location.named idKey members := by
  unfold named
  split
  · next identifier found =>
    rw [reordered.symm.lookup_string (reordered.nodup distinct) found]
  · next other =>
    split
    · next identifier found => exact absurd (reordered.lookup_string distinct found) (other _)
    · rfl

end Ways

/-! ## Parts -/

namespace Json.Reordered

variable {v w part : Json} {members members' : List (String × Json)} {way : Pointer}

/-- A keyword of any kind takes reordered parts from reordered values. -/
theorem kind_parts {kind : KeywordKind} (reordered : v.Reordered w)
    (mem : (way, part) ∈ kind.parts v) :
    ∃ part', (way, part') ∈ kind.parts w ∧ part.Reordered part' := by
  have itself : (way, part) ∈ [(([] : Pointer), v)] →
      ∃ part', (way, part') ∈ [(([] : Pointer), w)] ∧ part.Reordered part' := by
    intro single
    cases List.mem_singleton.1 single
    exact ⟨w, List.mem_singleton_self _, reordered⟩
  rcases reordered.cases with ⟨xs, ys, rfl, rfl, each⟩ | ⟨xs, ys, rfl, rfl, matched⟩ | rfl
  · have item : (way, part) ∈ KeywordKind.items.parts (.array xs) →
        ∃ part', (way, part') ∈ KeywordKind.items.parts (.array ys) ∧ part.Reordered part' := by
      intro listed
      obtain ⟨⟨item, position⟩, here, same⟩ := List.mem_map.1 listed
      cases same
      obtain ⟨item', here', inner⟩ := exists_getElem each (List.mem_zipIdx_iff_getElem?.1 here)
      have listed' : (item', position) ∈ ys.zipIdx := List.mem_zipIdx_iff_getElem?.2 here'
      exact ⟨item', List.mem_map.2 ⟨_, listed', rfl⟩, inner⟩
    cases kind with
    | schemaList | items => exact item mem
    | schema => exact itself mem
    | _ => cases mem
  · cases kind with
    | schema | schemaList | items => exact itself mem
    | schemaMap =>
      obtain ⟨⟨name, value⟩, here, same⟩ := List.mem_map.1 mem
      cases same
      obtain ⟨⟨_, value'⟩, here', rfl, inner⟩ := matched.exists_right here
      exact ⟨value', List.mem_map.2 ⟨_, here', rfl⟩, inner⟩
    | dependencies =>
      obtain ⟨⟨name, value⟩, here, same⟩ := List.mem_filterMap.1 mem
      obtain ⟨⟨_, value'⟩, here', rfl, inner⟩ := matched.exists_right here
      dsimp only at same inner
      split at same
      · cases same
        obtain ⟨_, rfl, _⟩ := inner.object
        exact ⟨_, List.mem_filterMap.2 ⟨_, here', rfl⟩, inner⟩
      · cases same
        obtain rfl := inner.eq_of_scalar (by simp) (by simp)
        exact ⟨_, List.mem_filterMap.2 ⟨_, here', rfl⟩, inner⟩
      · cases same
    | _ => cases mem
  · exact ⟨part, mem, .refl part⟩

/-- Reordered objects have reordered parts. -/
theorem parts {draft : Draft} (reordered : (Json.object members).Reordered (.object members'))
    (mem : (way, part) ∈ Json.parts draft members) :
    ∃ part', (way, part') ∈ Json.parts draft members' ∧ part.Reordered part' := by
  obtain ⟨_, same, matched⟩ := reordered.object
  cases same
  obtain ⟨⟨key, value⟩, member, inside⟩ := List.mem_flatMap.1 mem
  obtain ⟨⟨_, value'⟩, member', rfl, inner⟩ := matched.exists_right member
  dsimp only at inside
  split at inside
  · next keyword found =>
    obtain ⟨⟨rest, part⟩, listed, same⟩ := List.mem_map.1 inside
    cases same
    obtain ⟨part', listed', related⟩ := inner.kind_parts listed
    exact ⟨part', mem_parts member' found listed', related⟩
  · cases inside

end Json.Reordered

/-! ## The index of identifiers -/

namespace Cache

variable {idKey : String} {isMap : Bool} {location : Location} {v w : Json}
  {members members' : List (String × Json)}

theorem indexIdentifier_reordered {index : List (String × Pointer)}
    (reordered : (Json.object members).Reordered (.object members'))
    (distinct : (Members.keys members).Nodup) :
    indexIdentifier idKey members' location index = indexIdentifier idKey members location index := by
  have identifier := reordered.lookup distinct idKey
  have reference := reordered.lookup distinct Builtin.ref.key
  unfold indexIdentifier
  generalize members.lookup idKey = named, members'.lookup idKey = named' at identifier ⊢
  generalize members.lookup Builtin.ref.key = ref, members'.lookup Builtin.ref.key = ref'
    at reference ⊢
  cases identifier with
  | none => rfl
  | @some value _ inner =>
    rcases inner.cases with ⟨_, _, rfl, rfl, _⟩ | ⟨_, _, rfl, rfl, _⟩ | rfl
    · rfl
    · rfl
    · cases reference with
      | none => rfl
      | some => cases value <;> rfl

theorem metMembers_append (front back : List (String × Json)) :
    metMembers idKey isMap location (front ++ back) =
      metMembers idKey isMap location front ++ metMembers idKey isMap location back := by
  induction front with
  | nil => rw [metMembers, List.nil_append, List.nil_append]
  | cons first rest ih =>
    rw [List.cons_append, metMembers, metMembers, ih, List.append_assoc]

theorem metMembers_perm (perm : members.Perm members') :
    (metMembers idKey isMap location members).Perm (metMembers idKey isMap location members') := by
  induction perm with
  | nil => exact .refl _
  | cons first _ ih =>
    rw [metMembers, metMembers]
    exact ih.append_left _
  | swap first second rest =>
    rw [metMembers, metMembers, metMembers, metMembers]
    exact List.perm_append_comm_assoc _ _ _
  | trans _ _ ih ih' => exact ih.trans ih'

theorem metItems_middle (front back : List Json) (position : Nat)
    (inner : ∀ location, (metValue idKey false location v).Perm (metValue idKey false location w)) :
    (metItems idKey location position (front ++ v :: back)).Perm
      (metItems idKey location position (front ++ w :: back)) := by
  induction front generalizing position with
  | nil =>
    rw [List.nil_append, List.nil_append, metItems, metItems]
    exact (inner _).append_right _
  | cons first rest ih =>
    rw [List.cons_append, List.cons_append, metItems, metItems]
    exact (ih (position + 1)).append_left _

/-- The index walk meets the same identifiers in reordered values. -/
theorem metValue_perm (reordered : v.Reordered w) (proper : v.IsProper) (isMap : Bool)
    (location : Location) :
    (metValue idKey isMap location v).Perm (metValue idKey isMap location w) := by
  -- above a change the identifier of the object is the same
  have object : ∀ {members members' : List (String × Json)} {isMap : Bool} {location : Location},
      (Json.object members).Reordered (.object members') → (Json.object members).IsProper →
      (∀ location, (metMembers idKey isMap location members).Perm
        (metMembers idKey isMap location members')) →
      (metValue idKey isMap location (.object members)).Perm
        (metValue idKey isMap location (.object members')) := by
    intro members members' isMap location reordered proper inside
    rw [metValue, metValue, indexIdentifier_reordered reordered proper.1]
    exact (inside _).append_left _
  induction reordered generalizing isMap location with
  | refl => exact .refl _
  | trans first _ ih ih' =>
    exact (ih proper _ _).trans (ih' (first.isProper proper) _ _)
  | number => exact .refl _
  | reorder perm => exact object (.reorder perm) proper fun _ => metMembers_perm perm
  | item front back _ ih =>
    rw [metValue, metValue]
    exact metItems_middle front back 0 fun location =>
      ih (proper.item (by simp)) false location
  | @member x y front name back inner ih =>
    have inside : x.IsProper := proper.member (show (name, x) ∈ front ++ (name, x) :: back by simp)
    refine object (.member front name back inner) proper fun location => ?_
    rw [metMembers_append, metMembers_append, metMembers, metMembers]
    refine List.Perm.append_left _ (List.Perm.append_right _ ?_)
    split
    · exact .refl _
    · exact ih inside _ _

end Cache

/-! ## Documents -/

/-- A document with the members of its objects in another order, under the same draft. -/
structure StoredDocument.Reordered (stored stored' : StoredDocument) : Prop where
  draft : stored'.draft = stored.draft
  value : stored.document.value.Reordered stored'.document.value

namespace Load

/-- The same documents with the members of their objects in another order. They are proper, and in
none of them the index walk meets an identifier twice. -/
structure Rearranged (documents documents' : Documents) : Prop where
  stored : ∀ uri, Option.Rel StoredDocument.Reordered (documents.lookup uri) (documents'.lookup uri)
  sound : AreSound documents
  distinct : ∀ uri stored, documents.lookup uri = some stored →
    (Members.keys (metIn uri stored)).Nodup

variable {documents documents' : Documents} {uri key : String} {stored stored' : StoredDocument}
  {location : Location} {value : Json} {draft : Draft} {place : String × Pointer}

theorem metIn_perm (reordered : stored.Reordered stored') (proper : stored.document.value.IsProper) :
    (metIn uri stored).Perm (metIn uri stored') := by
  unfold metIn
  rw [reordered.draft]
  split
  · exact Cache.metValue_perm reordered.value proper false _
  · exact .refl _

/-- The index of a document has the identifiers that the walk meets in it. -/
theorem identifiers_eq {index : List (String × Pointer)}
    (indexed : Cache.identifiers uri stored = .ok index)
    (distinct : (Members.keys (metIn uri stored)).Nodup) : index = metIn uri stored := by
  obtain ⟨root, place, indexed⟩ := except_bind_ok indexed
  cases indexed
  unfold metIn at distinct ⊢
  rw [place] at distinct ⊢
  exact Cache.indexValue_eq false root [] _ distinct

/-- The value at a pointer is reordered, at the same location. -/
theorem valueAt_reordered {pointer : Pointer} {target : Location}
    (reordered : stored.Reordered stored') (proper : stored.document.value.IsProper)
    (found : valueAt uri stored pointer = .ok (value, target)) :
    ∃ value', valueAt uri stored' pointer = .ok (value', target) ∧ value.Reordered value' := by
  obtain ⟨resolved, walked⟩ := valueAt_eq found
  obtain ⟨value', resolved', inner⟩ :=
    Pointer.resolve_reordered reordered.value proper resolved
  refine ⟨value', ?_, inner⟩
  have walked' : Location.ofDocument uri stored'.document.value pointer stored'.draft.idKey =
      .ok target := by
    rw [reordered.draft, Location.ofDocument_reordered reordered.value proper resolved]
    exact walked
  unfold valueAt
  rw [resolved', walked']
  rfl

/-- An object that loading comes to has its members under distinct names. -/
theorem Comes.nodup {members : List (String × Json)} (sound : AreSound documents)
    (comes : Comes documents location (.object members) draft) : (Members.keys members).Nodup := by
  obtain ⟨_, _, stored, known, _, resolved⟩ := comes.found sound
  exact (Pointer.isProper_resolve resolved (sound.values _ _ known)).1

/-- No map of schemas that loading comes to has a text under the keyword for identifiers. -/
def HavePlainMaps (documents : Documents) : Prop :=
  ∀ location members draft, Comes documents location (.object members) draft →
    members.lookup Builtin.ref.key = none → Json.HasPlainMaps draft.idKey members

namespace Rearranged

theorem refl (sound : AreSound documents)
    (distinct : ∀ uri stored, documents.lookup uri = some stored →
      (Members.keys (metIn uri stored)).Nodup) : Rearranged documents documents := by
  refine ⟨fun uri => ?_, sound, distinct⟩
  cases documents.lookup uri with
  | none => exact .none
  | some stored => exact .some ⟨rfl, .refl _⟩

variable (arranged : Rearranged documents documents')

include arranged

theorem exists_stored (known : documents.lookup uri = some stored) :
    ∃ stored', documents'.lookup uri = some stored' ∧ stored.Reordered stored' :=
  exists_of_rel (arranged.stored uri) known

theorem proper (known : documents.lookup uri = some stored) : stored.document.value.IsProper :=
  arranged.sound.values _ _ known

theorem symm : Rearranged documents' documents := by
  have back : ∀ {uri stored'}, documents'.lookup uri = some stored' →
      ∃ stored, documents.lookup uri = some stored ∧ stored.Reordered stored' :=
    fun known' => exists_of_rel (rel_back (arranged.stored _) fun _ _ => id) known'
  refine ⟨fun uri => ?_, ⟨fun uri stored' known' => ?_, fun uri stored' known' => ?_⟩,
    fun uri stored' known' => ?_⟩
  · exact rel_back (arranged.stored uri) fun _ _ reordered =>
      ⟨reordered.draft.symm, reordered.value.symm⟩
  · obtain ⟨stored, known, _⟩ := back known'
    exact arranged.sound.places _ _ known
  · obtain ⟨stored, known, reordered⟩ := back known'
    exact reordered.value.isProper (arranged.proper known)
  · obtain ⟨stored, known, reordered⟩ := back known'
    have perm : (metIn uri stored).Perm (metIn uri stored') :=
      metIn_perm reordered (arranged.proper known)
    exact (perm.map Prod.fst).nodup_iff.1 (arranged.distinct _ _ known)

theorem isSome (known : (documents.lookup uri).isSome) : (documents'.lookup uri).isSome := by
  obtain ⟨stored, found⟩ := Option.isSome_iff_exists.1 known
  obtain ⟨stored', found', _⟩ := arranged.exists_stored found
  rw [found']
  rfl

/-- The index of a document has the same identifiers, which are distinct. -/
theorem identifiers (known : documents.lookup uri = some stored)
    (reordered : stored.Reordered stored') (known' : documents'.lookup uri = some stored')
    {index : List (String × Pointer)} (indexed : Cache.identifiers uri stored = .ok index) :
    ∃ index', Cache.identifiers uri stored' = .ok index' ∧ index.Perm index' ∧
      (Members.keys index).Nodup := by
  have distinct := arranged.distinct _ _ known
  have same := identifiers_eq indexed distinct
  obtain ⟨root, place, _⟩ := except_bind_ok indexed
  have indexed' : ∃ index', Cache.identifiers uri stored' = .ok index' := by
    unfold Cache.identifiers
    rw [place]
    exact ⟨_, rfl⟩
  obtain ⟨index', indexed'⟩ := indexed'
  refine ⟨index', indexed', ?_, same ▸ distinct⟩
  rw [same, identifiers_eq indexed' (arranged.symm.distinct _ _ known')]
  exact metIn_perm reordered (arranged.proper known)

/-- A URI leads to the same place. -/
theorem leads (leads : Leads documents uri place) : Leads documents' uri place := by
  cases leads with
  | document split known way parsed =>
    obtain ⟨_, known', _⟩ := arranged.exists_stored known
    exact .document split known' way parsed
  | listed normal split known indexed found =>
    obtain ⟨_, known', reordered⟩ := arranged.exists_stored known
    obtain ⟨_, indexed', perm, distinct⟩ := arranged.identifiers known reordered known' indexed
    refine .listed normal split known' indexed' ?_
    unfold Cache.findIn at found ⊢
    rwa [← Members.lookup_perm distinct perm, ← Members.lookup_perm distinct perm]

/-- Loading comes to reordered values at the same locations. -/
theorem comes (comes : Comes documents location value draft) :
    ∃ value', Comes documents' location value' draft ∧ value.Reordered value' := by
  induction comes with
  | @root uri stored location known root =>
    obtain ⟨stored', known', reordered⟩ := arranged.exists_stored known
    exact ⟨_, reordered.draft ▸ .root known' root, reordered.value⟩
  | @part location members draft way part above plain mem ih =>
    obtain ⟨value', above', reordered⟩ := ih
    obtain ⟨members', rfl, _⟩ := reordered.object
    have distinct := above.nodup arranged.sound
    obtain ⟨part', mem', inner⟩ := reordered.parts mem
    refine ⟨part', ?_, inner⟩
    rw [← Location.named_reordered reordered distinct]
    exact .part above' (reordered.lookup_none distinct plain) mem'
  | @referred location target members draft text uri place stored value above ref resolved leads
      known found ih =>
    obtain ⟨value', above', reordered⟩ := ih
    obtain ⟨members', rfl, _⟩ := reordered.object
    have distinct := above.nodup arranged.sound
    obtain ⟨stored', known', same⟩ := arranged.exists_stored known
    obtain ⟨value', found', inner⟩ := valueAt_reordered same (arranged.proper known) found
    refine ⟨value', ?_, inner⟩
    rw [← same.draft]
    exact .referred above' (reordered.lookup_string distinct ref) resolved (arranged.leads leads)
      known' found'

theorem identified (identified : Identified documents key place) :
    Identified documents' key place := by
  cases identified with
  | listed known indexed mem =>
    obtain ⟨_, known', reordered⟩ := arranged.exists_stored known
    obtain ⟨_, indexed', perm, _⟩ := arranged.identifiers known reordered known' indexed
    exact .listed known' indexed' (perm.mem_iff.1 mem)
  | declared comes plain declares =>
    obtain ⟨_, comes', reordered⟩ := arranged.comes comes
    obtain ⟨members', rfl, _⟩ := reordered.object
    have distinct := comes.nodup arranged.sound
    refine .declared comes' (reordered.lookup_none distinct plain) ?_
    rw [Location.named_reordered reordered distinct]
    exact declares
  | above comes =>
    obtain ⟨_, comes', _⟩ := arranged.comes comes
    exact .above comes'

/-- A key names the same places. -/
theorem names (names : Names documents key place) : Names documents' key place := by
  cases names with
  | document split known way parsed => exact .document split (arranged.isSome known) way parsed
  | identifier identified => exact .identifier (arranged.identified identified)
  | behind split identified way parsed =>
    exact .behind split (arranged.identified identified) way parsed

theorem unambiguous (unambiguous : Unambiguous documents) : Unambiguous documents' where
  normal uri known := unambiguous.normal uri (arranged.symm.isSome known)
  plain identified split way := unambiguous.plain (arranged.symm.identified identified) split way
  single first second :=
    unambiguous.single (arranged.symm.identified first) (arranged.symm.identified second)
  roots identified known :=
    unambiguous.roots (arranged.symm.identified identified) (arranged.symm.isSome known)

theorem havePlainMaps (maps : HavePlainMaps documents) : HavePlainMaps documents' := by
  intro location members' draft comes' plain' key map entries' found' identifier named'
  obtain ⟨_, comes, back⟩ := arranged.symm.comes comes'
  obtain ⟨members, rfl, _⟩ := back.object
  have distinct' := comes'.nodup arranged.symm.sound
  obtain ⟨_, found, inner⟩ := exists_of_rel (back.lookup distinct' key) found'
  obtain ⟨entries, rfl, _⟩ := inner.object
  have proper : (Json.object entries').IsProper := by
    obtain ⟨_, _, stored, known, _, resolved⟩ := comes'.found arranged.symm.sound
    exact (Pointer.isProper_resolve resolved (arranged.symm.proper known)).member
      (Members.mem_of_lookup found')
  exact maps location members draft comes (back.lookup_none distinct' plain') key map entries found
    identifier (inner.lookup_string proper.1 named')

/-- What loading arrives at in both sessions at one place is reordered, at one location. -/
theorem location_eq (maps : HavePlainMaps documents) {location' : Location} {value' : Json}
    {draft' : Draft} (arrives : Arrives documents location value draft)
    (arrives' : Arrives documents' location' value' draft')
    (same : location'.place = location.place) :
    location' = location ∧ draft' = draft ∧ value.Reordered value' := by
  obtain ⟨stored, known, rfl, walked⟩ := arrives.walked arranged.sound maps
  obtain ⟨stored', known', rfl, walked'⟩ :=
    arrives'.walked arranged.symm.sound (arranged.havePlainMaps maps)
  obtain ⟨_, _, _, here, _, resolved⟩ := arrives.comes.found arranged.sound
  obtain ⟨_, _, _, here', _, resolved'⟩ := arrives'.comes.found arranged.symm.sound
  rw [known] at here
  cases here
  rw [known'] at here'
  cases here'
  obtain ⟨document, pointer⟩ := Prod.mk.inj same
  obtain ⟨_, there, reordered⟩ := arranged.exists_stored known
  rw [← document, known'] at there
  cases there
  rw [document, pointer, reordered.draft,
    Location.ofDocument_reordered reordered.value (arranged.proper known) resolved] at walked'
  rw [walked] at walked'
  obtain ⟨_, found, inner⟩ :=
    Pointer.resolve_reordered reordered.value (arranged.proper known) resolved
  rw [pointer, found] at resolved'
  cases resolved'
  exact ⟨(Except.ok.inj walked').symm, reordered.draft, inner⟩

end Rearranged

end Load

end JsonSchema
