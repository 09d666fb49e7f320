import JsonSchema.Loading.Loader
import JsonSchema.Proofs.Keys
import JsonSchema.Proofs.Parts
import JsonSchema.Proofs.Resolving

/-!
# What a URI names

Loading comes to the roots of the documents, from objects to their parts, and from references to
what they lead to (`Comes`). The identifiers are those that the index of a document lists and those
that loading meets on these ways (`Identified`). A key then names a place in three ways: by document
and pointer, as an identifier, or by a pointer behind an identifier (`Names`).

The three agree if every identifier stands for one place, none of them looks like another document
or like a pointer into its own document, and all URIs are normal (`Unambiguous`): a key names at
most one place (`Unambiguous.names_unique`), all keys of a location name its place
(`IsKnown.names`), and a URI names the place that it leads to (`Unambiguous.names_leads`).
-/

namespace JsonSchema

/-- The place of a location: its document and the way from the root. -/
def Location.place (location : Location) : String × Pointer :=
  (location.documentUri, location.pointer)

/-- The place of the nearest identifier above a location, the root of the document if there is
none. -/
def Location.basePlace (location : Location) : String × Pointer :=
  (location.documentUri, location.pointer.take (location.pointer.length - location.idPointer.length))

namespace Load

/-- The documents of a session by URI. -/
abbrev Documents := List (String × StoredDocument)

/-- A URI leads to a place: by a known document, or by an identifier that one lists. -/
inductive Leads (documents : Documents) : String → String × Pointer → Prop
  | document {uri base fragment : String} {stored : StoredDocument} {pointer : Pointer}
    (split : Uri.splitFragment uri = .ok (base, fragment))
    (known : documents.lookup base = some stored)
    (way : Cache.isPointerFragment fragment = true)
    (parsed : Pointer.parseFragment fragment = .ok pointer) :
    Leads documents uri (base, pointer)
  | listed {uri key base fragment documentUri : String} {stored : StoredDocument}
    {index : List (String × Pointer)} {pointer : Pointer}
    (normal : Uri.normalize uri = .ok key)
    (split : Uri.splitFragment key = .ok (base, fragment))
    (known : documents.lookup documentUri = some stored)
    (indexed : Cache.identifiers documentUri stored = .ok index)
    (found : Cache.findIn key base fragment index = .ok (some pointer)) :
    Leads documents uri (documentUri, pointer)

/-- Loading comes to a value at a location: at the root of a document, below an object that is no
reference, or from a reference. -/
inductive Comes (documents : Documents) : Location → Json → Draft → Prop
  | root {uri : String} {stored : StoredDocument} {location : Location}
    (known : documents.lookup uri = some stored) (root : Location.root uri = .ok location) :
    Comes documents location stored.document.value stored.draft
  | part {location : Location} {members : List (String × Json)} {draft : Draft} {way : Pointer}
    {part : Json} (above : Comes documents location (.object members) draft)
    (plain : members.lookup Builtin.ref.key = none) (mem : (way, part) ∈ Json.parts draft members) :
    Comes documents ((location.named draft.idKey members).child way) part draft
  | referred {location target : Location} {members : List (String × Json)} {draft : Draft}
    {text uri : String} {place : String × Pointer} {stored : StoredDocument} {value : Json}
    (above : Comes documents location (.object members) draft)
    (ref : members.lookup Builtin.ref.key = some (.string text))
    (resolved : Uri.resolve location.scope text = .ok uri) (leads : Leads documents uri place)
    (known : documents.lookup place.1 = some stored)
    (found : valueAt place.1 stored place.2 = .ok (value, target)) :
    Comes documents target value stored.draft

/-- Loading comes to a value, and every identifier on the way makes a URI. -/
inductive Arrives (documents : Documents) : Location → Json → Draft → Prop
  | root {uri : String} {stored : StoredDocument} {location : Location}
    (known : documents.lookup uri = some stored) (root : Location.root uri = .ok location) :
    Arrives documents location stored.document.value stored.draft
  | part {location : Location} {members : List (String × Json)} {draft : Draft} {way : Pointer}
    {part : Json} (above : Arrives documents location (.object members) draft)
    (plain : members.lookup Builtin.ref.key = none) (names : location.Names draft.idKey members)
    (mem : (way, part) ∈ Json.parts draft members) :
    Arrives documents ((location.named draft.idKey members).child way) part draft
  | referred {location target : Location} {members : List (String × Json)} {draft : Draft}
    {text uri : String} {place : String × Pointer} {stored : StoredDocument} {value : Json}
    (above : Arrives documents location (.object members) draft)
    (ref : members.lookup Builtin.ref.key = some (.string text))
    (resolved : Uri.resolve location.scope text = .ok uri) (leads : Leads documents uri place)
    (known : documents.lookup place.1 = some stored)
    (found : valueAt place.1 stored place.2 = .ok (value, target)) :
    Arrives documents target value stored.draft

/-- A URI is an identifier of a place. -/
inductive Identified (documents : Documents) : String → String × Pointer → Prop
  | listed {documentUri identifier : String} {stored : StoredDocument}
    {index : List (String × Pointer)} {pointer : Pointer}
    (known : documents.lookup documentUri = some stored)
    (indexed : Cache.identifiers documentUri stored = .ok index)
    (mem : (identifier, pointer) ∈ index) : Identified documents identifier (documentUri, pointer)
  | declared {location : Location} {members : List (String × Json)} {draft : Draft}
    {identifier : String} (comes : Comes documents location (.object members) draft)
    (plain : members.lookup Builtin.ref.key = none)
    (declares : (location.named draft.idKey members).declaredId = some identifier) :
    Identified documents identifier location.place
  | above {location : Location} {value : Json} {draft : Draft}
    (comes : Comes documents location value draft) :
    Identified documents location.idBase location.basePlace

/-- A key names a place. -/
inductive Names (documents : Documents) : String → String × Pointer → Prop
  | document {key base fragment : String} {pointer : Pointer}
    (split : Uri.splitFragment key = .ok (base, fragment))
    (known : (documents.lookup base).isSome)
    (way : Cache.isPointerFragment fragment = true)
    (parsed : Pointer.parseFragment fragment = .ok pointer) :
    Names documents key (base, pointer)
  | identifier {key : String} {place : String × Pointer} (identified : Identified documents key place) :
    Names documents key place
  | behind {key base fragment : String} {place : String × Pointer} {pointer : Pointer}
    (split : Uri.splitFragment key = .ok (base, fragment))
    (identified : Identified documents base place)
    (way : Cache.isPointerFragment fragment = true)
    (parsed : Pointer.parseFragment fragment = .ok pointer) :
    Names documents key (place.1, place.2 ++ pointer)

/-- Every identifier stands for one place, none looks like another document or like a pointer, and
all URIs are normal. -/
structure Unambiguous (documents : Documents) : Prop where
  normal : ∀ uri, (documents.lookup uri).isSome → Uri.IsNormal uri
  plain : ∀ {identifier place base fragment}, Identified documents identifier place →
    Uri.splitFragment identifier = .ok (base, fragment) →
    Cache.isPointerFragment fragment = true → Uri.IsNormal identifier
  single : ∀ {identifier place place'}, Identified documents identifier place →
    Identified documents identifier place' → place = place'
  roots : ∀ {identifier place}, Identified documents identifier place →
    (documents.lookup identifier).isSome → place = (identifier, [])

variable {documents documents' : Documents} {key uri : String} {place place' : String × Pointer}
  {location : Location} {value : Json} {draft : Draft}

/-! ## Keys name one place -/

theorem parse_empty : Pointer.parseFragment "" = .ok [] :=
  Pointer.parseFragment_encode []

/-- A normal URI is a base without a fragment. -/
theorem split_normal {base fragment : String} (normal : Uri.IsNormal key)
    (split : Uri.splitFragment key = .ok (base, fragment)) : base = key ∧ fragment = "" := by
  rw [Uri.splitFragment_plain normal.mark] at split
  obtain ⟨front, behind⟩ := Prod.mk.inj (Except.ok.inj split)
  exact ⟨front.symm, behind.symm⟩

/-- An identifier with a pointer for a fragment is one without a fragment. -/
theorem Unambiguous.identifier_behind (unambiguous : Unambiguous documents)
    {base fragment : String} {pointer : Pointer} (identified : Identified documents key place)
    (split : Uri.splitFragment key = .ok (base, fragment))
    (way : Cache.isPointerFragment fragment = true)
    (parsed : Pointer.parseFragment fragment = .ok pointer) : base = key ∧ pointer = [] := by
  obtain ⟨rfl, rfl⟩ := split_normal (unambiguous.plain identified split way) split
  rw [parse_empty] at parsed
  exact ⟨rfl, (Except.ok.inj parsed).symm⟩

theorem split_unique {base base' fragment fragment' : String}
    (split : Uri.splitFragment key = .ok (base, fragment))
    (split' : Uri.splitFragment key = .ok (base', fragment')) :
    base = base' ∧ fragment = fragment' := by
  rw [split] at split'
  exact Prod.mk.inj (Except.ok.inj split')

/-- A key names at most one place. -/
theorem Unambiguous.names_unique (unambiguous : Unambiguous documents)
    (names : Names documents key place) (names' : Names documents key place') :
    place = place' := by
  have documentIdentifier : ∀ {base fragment : String} {pointer : Pointer}
      {place : String × Pointer}, Uri.splitFragment key = .ok (base, fragment) →
      (documents.lookup base).isSome → Cache.isPointerFragment fragment = true →
      Pointer.parseFragment fragment = .ok pointer → Identified documents key place →
      place = (base, pointer) := by
    intro base fragment pointer place split known way parsed identified
    obtain ⟨rfl, rfl⟩ := unambiguous.identifier_behind identified split way parsed
    exact unambiguous.roots identified known
  have documentBehind : ∀ {base : String} {pointer : Pointer} {place : String × Pointer},
      (documents.lookup base).isSome →
      Identified documents base place → (place.1, place.2 ++ pointer) = (base, pointer) := by
    intro base pointer place known identified
    rw [unambiguous.roots identified known]
    rfl
  have identifierBehind : ∀ {base fragment : String} {pointer : Pointer}
      {place place' : String × Pointer}, Identified documents key place →
      Uri.splitFragment key = .ok (base, fragment) → Cache.isPointerFragment fragment = true →
      Pointer.parseFragment fragment = .ok pointer → Identified documents base place' →
      place = (place'.1, place'.2 ++ pointer) := by
    intro base fragment pointer place place' identified split way parsed identified'
    obtain ⟨rfl, rfl⟩ := unambiguous.identifier_behind identified split way parsed
    rw [unambiguous.single identified identified', List.append_nil]
  have same : ∀ {base base' fragment fragment' : String} {pointer pointer' : Pointer},
      Uri.splitFragment key = .ok (base, fragment) →
      Uri.splitFragment key = .ok (base', fragment') →
      Pointer.parseFragment fragment = .ok pointer →
      Pointer.parseFragment fragment' = .ok pointer' → base = base' ∧ pointer = pointer' := by
    intro base base' fragment fragment' pointer pointer' split split' parsed parsed'
    obtain ⟨rfl, rfl⟩ := split_unique split split'
    rw [parsed] at parsed'
    exact ⟨rfl, Except.ok.inj parsed'⟩
  cases names with
  | document split known way parsed =>
    cases names' with
    | document split' known' way' parsed' =>
      obtain ⟨rfl, rfl⟩ := same split split' parsed parsed'
      rfl
    | identifier identified => exact (documentIdentifier split known way parsed identified).symm
    | behind split' identified way' parsed' =>
      obtain ⟨rfl, rfl⟩ := same split split' parsed parsed'
      exact (documentBehind known identified).symm
  | identifier identified =>
    cases names' with
    | document split' known' way' parsed' =>
      exact documentIdentifier split' known' way' parsed' identified
    | identifier identified' => exact unambiguous.single identified identified'
    | behind split' identified' way' parsed' =>
      exact identifierBehind identified split' way' parsed' identified'
  | behind split identified way parsed =>
    cases names' with
    | document split' known' way' parsed' =>
      obtain ⟨rfl, rfl⟩ := same split split' parsed parsed'
      exact documentBehind known' identified
    | identifier identified' => exact (identifierBehind identified' split way parsed identified).symm
    | behind split' identified' way' parsed' =>
      obtain ⟨rfl, rfl⟩ := same split split' parsed parsed'
      rw [unambiguous.single identified identified']

/-! ## Locations -/

/-- A location whose keys all name its place: what it says about the identifiers above it and about
its own is true. -/
structure IsKnown (documents : Documents) (location : Location) : Prop where
  document : (documents.lookup location.documentUri).isSome
  base : Identified documents location.idBase location.basePlace
  suffix : location.idPointer <:+ location.pointer
  mark : '#' ∉ location.idBase.toList
  declared : ∀ identifier, location.declaredId = some identifier →
    Identified documents identifier location.place

/-- All keys of a location name its place. -/
theorem IsKnown.names (known : IsKnown documents location) (unambiguous : Unambiguous documents)
    {keys : List String} (ok : location.cacheKeys = .ok keys) (mem : key ∈ keys) :
    Names documents key location.place := by
  have absolute : ∀ {key}, location.absoluteUri = .ok key →
      Names documents key location.place := by
    intro key ok
    have split := Location.split_fragmentOf (unambiguous.normal _ known.document) ok
    exact .document split known.document (Location.isPointerFragment_encode _)
      (Pointer.parseFragment_encode _)
  have identifier : ∀ {key}, location.identifierUri = .ok key →
      Names documents key location.place := by
    intro key ok
    have normal : Uri.IsNormal location.idBase :=
      unambiguous.plain known.base (Uri.splitFragment_plain known.mark) rfl
    have split := Location.split_fragmentOf normal ok
    have names : Names documents key (location.basePlace.1,
        location.basePlace.2 ++ location.idPointer) :=
      .behind split known.base (Location.isPointerFragment_encode _)
        (Pointer.parseFragment_encode _)
    have whole : location.basePlace.2 ++ location.idPointer = location.pointer := by
      obtain ⟨front, same⟩ := known.suffix
      unfold Location.basePlace
      dsimp only
      rw [← same, List.length_append, Nat.add_sub_cancel, List.take_left]
    rw [whole] at names
    exact names
  have canonical : ∀ {key}, location.canonicalUri = .ok key →
      Names documents key location.place := by
    intro key ok
    unfold Location.canonicalUri at ok
    split at ok
    · next declared =>
      cases ok
      exact .identifier (known.declared _ declared)
    · exact identifier ok
  rcases Location.cacheKeys_cases ok mem with first | second | third
  · exact absolute first
  · exact canonical second
  · exact identifier third

/-- A URI in normal form names the place that it leads to. -/
theorem Unambiguous.names_leads (unambiguous : Unambiguous documents) {source : String}
    (normal : Uri.normalize source = .ok uri) (leads : Leads documents uri place)
    (keyed : Uri.normalize uri = .ok key) : Names documents key place := by
  cases leads with
  | @document base fragment stored pointer split known way parsed =>
    have same := Uri.encode_decode_fragment normal split
    have isSome : (documents.lookup base).isSome := by
      rw [known]
      rfl
    rw [Uri.normalize_split split, same] at keyed
    rw [← Except.ok.inj keyed]
    refine .document ((unambiguous.normal _ isSome).split_withFragment ?_) isSome way parsed
    rw [← same]
    exact Uri.isKept_encodeFragment _
  | listed keyed' split known indexed found =>
    rw [keyed] at keyed'
    cases keyed'
    unfold Cache.findIn at found
    split at found
    · next pointer whole =>
      cases found
      exact .identifier (.listed known indexed (Members.mem_of_lookup whole))
    · split at found
      · next front base =>
        split at found
        · next way =>
          split at found
          · next rest parsed =>
            cases found
            exact .behind split (.listed known indexed (Members.mem_of_lookup base)) way parsed
          · cases found
        · cases found
      · cases found

/-! ## Finding by identifiers -/

theorem findAmong_some {key base fragment : String} {documents : Documents}
    {place : String × Pointer}
    (ok : Cache.findAmong key base fragment documents = .ok (some place)) :
    ∃ stored index, (place.1, stored) ∈ documents ∧ Cache.identifiers place.1 stored = .ok index ∧
      Cache.findIn key base fragment index = .ok (some place.2) := by
  induction documents with
  | nil => cases ok
  | cons first rest ih =>
    rw [Cache.findAmong] at ok
    obtain ⟨index, indexed, ok⟩ := except_bind_ok ok
    obtain ⟨found, inside, ok⟩ := except_bind_ok ok
    cases found with
    | some pointer =>
      cases ok
      exact ⟨first.2, index, List.mem_cons_self, mapError_ok indexed, inside⟩
    | none =>
      obtain ⟨stored, index, mem, indexed, inside⟩ := ih ok
      exact ⟨stored, index, List.mem_cons_of_mem _ mem, indexed, inside⟩

/-- A URI that is found by identifiers leads to what is found. -/
theorem leads_of_findById {cache : Cache} (distinct : (Members.keys cache.documents).Nodup)
    (ok : cache.findById uri = .ok (some place)) : Leads cache.documents uri place := by
  obtain ⟨key, normal, ok⟩ := except_bind_ok ok
  obtain ⟨⟨base, fragment⟩, split, ok⟩ := except_bind_ok ok
  obtain ⟨stored, index, mem, indexed, inside⟩ := findAmong_some ok
  exact .listed (mapError_ok normal) (mapError_ok split) (Members.lookup_of_mem distinct mem)
    indexed inside

/-! ## Growing -/

/-- Every document that was known stays known. -/
def Grows (documents documents' : Documents) : Prop :=
  ∀ uri stored, documents.lookup uri = some stored → documents'.lookup uri = some stored

theorem Grows.isSome (grows : Grows documents documents')
    (known : (documents.lookup uri).isSome) : (documents'.lookup uri).isSome := by
  obtain ⟨stored, found⟩ := Option.isSome_iff_exists.1 known
  rw [grows uri stored found]
  rfl

theorem Leads.mono (grows : Grows documents documents') (leads : Leads documents uri place) :
    Leads documents' uri place := by
  cases leads with
  | document split known way parsed => exact .document split (grows _ _ known) way parsed
  | listed normal split known indexed found =>
    exact .listed normal split (grows _ _ known) indexed found

theorem Comes.mono (grows : Grows documents documents')
    (comes : Comes documents location value draft) : Comes documents' location value draft := by
  induction comes with
  | root known root => exact .root (grows _ _ known) root
  | part _ plain mem ih => exact .part ih plain mem
  | referred _ ref resolved leads known found ih =>
    exact .referred ih ref resolved (leads.mono grows) (grows _ _ known) found

theorem Arrives.comes (arrives : Arrives documents location value draft) :
    Comes documents location value draft := by
  induction arrives with
  | root known root => exact .root known root
  | part _ plain _ mem ih => exact .part ih plain mem
  | referred _ ref resolved leads known found ih => exact .referred ih ref resolved leads known found

theorem Arrives.mono (grows : Grows documents documents')
    (arrives : Arrives documents location value draft) :
    Arrives documents' location value draft := by
  induction arrives with
  | root known root => exact .root (grows _ _ known) root
  | part _ plain names mem ih => exact .part ih plain names mem
  | referred _ ref resolved leads known found ih =>
    exact .referred ih ref resolved (leads.mono grows) (grows _ _ known) found

theorem Identified.mono (grows : Grows documents documents')
    (identified : Identified documents key place) : Identified documents' key place := by
  cases identified with
  | listed known indexed mem => exact .listed (grows _ _ known) indexed mem
  | declared comes plain declares => exact .declared (comes.mono grows) plain declares
  | above comes => exact .above (comes.mono grows)

theorem Names.mono (grows : Grows documents documents') (names : Names documents key place) :
    Names documents' key place := by
  cases names with
  | document split known way parsed => exact .document split (grows.isSome known) way parsed
  | identifier identified => exact .identifier (identified.mono grows)
  | behind split identified way parsed => exact .behind split (identified.mono grows) way parsed

theorem IsKnown.mono (grows : Grows documents documents') (known : IsKnown documents location) :
    IsKnown documents' location where
  document := grows.isSome known.document
  base := known.base.mono grows
  suffix := known.suffix
  mark := known.mark
  declared identifier declares := (known.declared identifier declares).mono grows

theorem Unambiguous.anti (grows : Grows documents documents')
    (unambiguous : Unambiguous documents') : Unambiguous documents where
  normal uri known := unambiguous.normal uri (grows.isSome known)
  plain identified split way := unambiguous.plain (identified.mono grows) split way
  single first second := unambiguous.single (first.mono grows) (second.mono grows)
  roots identified known := unambiguous.roots (identified.mono grows) (grows.isSome known)

/-! ## Where loading comes to -/

/-- What every location says, whatever the documents are. -/
structure IsFormed (location : Location) : Prop where
  suffix : location.idPointer <:+ location.pointer
  mark : '#' ∉ location.idBase.toList

theorem isFormed_root (ok : Location.root uri = .ok location) :
    IsFormed location ∧ location.declaredId = none ∧ location.pointer = [] ∧
      Uri.withoutFragment uri = .ok location.documentUri := by
  unfold Location.root at ok
  obtain ⟨base, without, ok⟩ := except_bind_ok ok
  cases ok
  refine ⟨⟨List.suffix_refl _, ?_⟩, rfl, rfl, without⟩
  unfold Uri.withoutFragment at without
  obtain ⟨both, split, same⟩ := except_bind_ok without
  cases same
  exact Uri.mark_not_mem_split split

theorem isFormed_child (formed : IsFormed location) (way : Pointer) :
    IsFormed (location.child way) := by
  obtain ⟨front, same⟩ := formed.suffix
  refine ⟨⟨front, ?_⟩, formed.mark⟩
  show front ++ (location.idPointer ++ way) = location.pointer ++ way
  rw [← List.append_assoc, same]

/-- An identifier without a fragment is a base of its own; one with a fragment names the schema. -/
theorem withId_cases {named : Location} {identifier : String}
    (ok : location.withId identifier = .ok named) :
    (∃ resolved, '#' ∉ resolved.toList ∧ named = { location with
      scope := resolved, idBase := resolved, idPointer := [], declaredId := some resolved }) ∨
    ∃ resolved, named = { location with declaredId := some resolved } := by
  unfold Location.withId at ok
  obtain ⟨resolved, resolvedOk, ok⟩ := except_bind_ok ok
  obtain ⟨⟨base, fragment⟩, split, ok⟩ := except_bind_ok ok
  dsimp only at ok
  split at ok
  · next empty =>
    cases ok
    obtain ⟨source, normal⟩ := Uri.resolve_normalize resolvedOk
    have whole : base = resolved := by
      rcases Uri.split_normalized normal split with ⟨same, _⟩ | ⟨_, _, nonempty⟩
      · exact same
      · rw [empty] at nonempty
        cases nonempty
    subst whole
    exact .inl ⟨base, Uri.mark_not_mem_split split, rfl⟩
  · cases ok
    exact .inr ⟨resolved, rfl⟩

/-- An object stands at its location, or at the one under its identifier. -/
theorem named_cases (idKey : String) (location : Location) (members : List (String × Json)) :
    location.named idKey members = location ∨ ∃ identifier,
      members.lookup idKey = some (.string identifier) ∧
        location.withId identifier = .ok (location.named idKey members) := by
  unfold Location.named
  split
  · next identifier found =>
    split
    · next ok => exact .inr ⟨identifier, found, ok⟩
    · exact .inl rfl
  · exact .inl rfl

theorem isFormed_withId {named : Location} {identifier : String} (formed : IsFormed location)
    (ok : location.withId identifier = .ok named) : IsFormed named := by
  rcases withId_cases ok with ⟨resolved, unmarked, rfl⟩ | ⟨resolved, rfl⟩
  · exact ⟨List.nil_suffix, unmarked⟩
  · exact ⟨formed.suffix, formed.mark⟩

theorem isFormed_named {idKey : String} (formed : IsFormed location)
    (members : List (String × Json)) : IsFormed (location.named idKey members) := by
  rcases named_cases idKey location members with same | ⟨identifier, _, ok⟩
  · rw [same]
    exact formed
  · exact isFormed_withId formed ok

theorem named_place (idKey : String) (location : Location) (members : List (String × Json)) :
    (location.named idKey members).documentUri = location.documentUri ∧
      (location.named idKey members).pointer = location.pointer := by
  rcases named_cases idKey location members with same | ⟨identifier, _, ok⟩
  · rw [same]
    exact ⟨rfl, rfl⟩
  · exact withId_place ok

theorem isFormed_walk {idKey : String} {pointer : Pointer} {target : Location}
    (formed : IsFormed location) (plain : location.declaredId = none)
    (ok : Location.walk idKey location value pointer = .ok target) :
    IsFormed target ∧ target.declaredId = none := by
  induction pointer generalizing location value with
  | nil =>
    cases ok
    exact ⟨formed, plain⟩
  | cons segment rest ih =>
    rw [Location.walk] at ok
    split at ok
    · obtain ⟨named, namedOk, ok⟩ := except_bind_ok ok
      obtain ⟨next, _, ok⟩ := except_bind_ok ok
      have inner := isFormed_withId formed (mapError_ok namedOk)
      exact ih (isFormed_child inner _) rfl ok
    · obtain ⟨here, same, ok⟩ := except_bind_ok ok
      cases same
      obtain ⟨next, _, ok⟩ := except_bind_ok ok
      exact ih (isFormed_child formed _) rfl ok

theorem valueAt_eq {stored : StoredDocument} {pointer : Pointer} {target : Location}
    (ok : valueAt uri stored pointer = .ok (value, target)) :
    Pointer.resolve stored.document.value pointer = .ok value ∧
      Location.ofDocument uri stored.document.value pointer stored.draft.idKey = .ok target := by
  unfold valueAt at ok
  obtain ⟨found, resolved, ok⟩ := except_bind_ok ok
  obtain ⟨walked, located, ok⟩ := except_bind_ok ok
  cases ok
  exact ⟨mapError_ok resolved, mapError_ok located⟩

theorem isFormed_valueAt {stored : StoredDocument} {pointer : Pointer} {target : Location}
    (ok : valueAt uri stored pointer = .ok (value, target)) :
    IsFormed target ∧ target.declaredId = none := by
  have walked := (valueAt_eq ok).2
  unfold Location.ofDocument at walked
  obtain ⟨start, root, walked⟩ := except_bind_ok walked
  obtain ⟨formed, plain, _⟩ := isFormed_root (mapError_ok root)
  exact isFormed_walk formed plain walked

/-- Documents are kept under URIs without fragment, and are proper values. -/
structure AreSound (documents : Documents) : Prop where
  places : ∀ uri stored, documents.lookup uri = some stored → Uri.withoutFragment uri = .ok uri
  values : ∀ uri stored, documents.lookup uri = some stored → stored.document.value.IsProper

/-- Loading comes to values of the documents, at their places. -/
theorem Comes.found (sound : AreSound documents) (comes : Comes documents location value draft) :
    IsFormed location ∧ location.declaredId = none ∧
      ∃ stored, documents.lookup location.documentUri = some stored ∧ stored.draft = draft ∧
        Pointer.resolve stored.document.value location.pointer = .ok value := by
  induction comes with
  | @root uri stored location known root =>
    obtain ⟨formed, plain, pointer, without⟩ := isFormed_root root
    rw [sound.places _ _ known] at without
    cases without
    refine ⟨formed, plain, stored, known, rfl, ?_⟩
    rw [pointer]
    rfl
  | @part location members draft way part above plain mem ih =>
    obtain ⟨formed, _, stored, known, same, resolved⟩ := ih
    obtain ⟨document, pointer⟩ := named_place draft.idKey location members
    refine ⟨isFormed_child (isFormed_named formed members) way, rfl, stored, ?_, same, ?_⟩
    · show documents.lookup (location.named draft.idKey members).documentUri = _
      rw [document]
      exact known
    · show Pointer.resolve _ ((location.named draft.idKey members).pointer ++ way) = _
      rw [pointer]
      have proper := Pointer.isProper_resolve resolved (sound.values _ _ known)
      exact Pointer.resolve_append resolved (Json.resolve_part proper mem)
  | @referred location target members draft text uri place stored value above ref resolved leads
      known found ih =>
    obtain ⟨formed, plain⟩ := isFormed_valueAt found
    obtain ⟨inside, walked⟩ := valueAt_eq found
    obtain ⟨document, pointer⟩ := ofDocument_place (sound.places _ _ known) walked
    refine ⟨formed, plain, stored, ?_, rfl, ?_⟩
    · rw [document]
      exact known
    · rw [pointer]
      exact inside

/-- The location at which loading arrives is the one that a walk from the root of the document comes
to, unless a map of schemas has a text under the keyword for identifiers. -/
theorem Arrives.walked (sound : AreSound documents)
    (maps : ∀ location members draft, Comes documents location (.object members) draft →
      members.lookup Builtin.ref.key = none → Json.HasPlainMaps draft.idKey members)
    (arrives : Arrives documents location value draft) :
    ∃ stored, documents.lookup location.documentUri = some stored ∧ stored.draft = draft ∧
      Location.ofDocument location.documentUri stored.document.value location.pointer draft.idKey =
        .ok location := by
  induction arrives with
  | @root uri stored location known root =>
    obtain ⟨_, _, pointer, without⟩ := isFormed_root root
    rw [sound.places _ _ known] at without
    have same : uri = location.documentUri := Except.ok.inj without
    subst same
    refine ⟨stored, known, rfl, ?_⟩
    unfold Location.ofDocument
    rw [root, pointer]
    rfl
  | @part location members draft way part above plain names mem ih =>
    obtain ⟨stored, known, same, walked⟩ := ih
    obtain ⟨document, pointer⟩ := named_place draft.idKey location members
    obtain ⟨_, _, stored', known', _, resolved⟩ := above.comes.found sound
    rw [known] at known'
    cases known'
    refine ⟨stored, ?_, same, ?_⟩
    · show documents.lookup (location.named draft.idKey members).documentUri = _
      rw [document]
      exact known
    · show Location.ofDocument (location.named draft.idKey members).documentUri _
        ((location.named draft.idKey members).pointer ++ way) _ = _
      rw [document, pointer]
      exact Location.ofDocument_part (sound.values _ _ known) resolved walked names
        (maps _ _ _ above.comes plain) mem
  | @referred location target members draft text uri place stored value above ref resolved leads
      known found ih =>
    obtain ⟨_, walked⟩ := valueAt_eq found
    obtain ⟨document, pointer⟩ := ofDocument_place (sound.places _ _ known) walked
    rw [document, pointer]
    exact ⟨stored, known, rfl, walked⟩

/-- The keys of a location that loading comes to name its place. -/
theorem Comes.isKnown (sound : AreSound documents) (comes : Comes documents location value draft) :
    IsKnown documents location := by
  obtain ⟨formed, plain, stored, known, _⟩ := comes.found sound
  refine ⟨?_, .above comes, formed.suffix, formed.mark, fun identifier declares => ?_⟩
  · rw [known]
    rfl
  · rw [plain] at declares
    cases declares

/-- So do the keys of the location under the identifier of the object. -/
theorem Comes.isKnown_named {members : List (String × Json)} (sound : AreSound documents)
    (comes : Comes documents location (.object members) draft)
    (plain : members.lookup Builtin.ref.key = none) :
    IsKnown documents (location.named draft.idKey members) := by
  have known := comes.isKnown sound
  rcases named_cases draft.idKey location members with same | ⟨identifier, _, ok⟩
  · rw [same]
    exact known
  · have declared : ∀ {resolved}, (location.named draft.idKey members).declaredId = some resolved →
        Identified documents resolved location.place := .declared comes plain
    generalize location.named draft.idKey members = named at ok declared ⊢
    rcases withId_cases ok with ⟨resolved, unmarked, rfl⟩ | ⟨resolved, rfl⟩
    · have here := declared rfl
      refine ⟨known.document, ?_, List.nil_suffix, unmarked, fun _ => declared⟩
      unfold Location.basePlace
      rw [List.length_nil, Nat.sub_zero, List.take_length]
      exact here
    · exact ⟨known.document, known.base, known.suffix, known.mark, fun _ => declared⟩

end Load

end JsonSchema
