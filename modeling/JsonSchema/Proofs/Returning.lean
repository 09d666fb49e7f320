import Mathlib.Data.List.Nodup
import JsonSchema.Proofs.Identifiers
import JsonSchema.Proofs.Steps
import JsonSchema.Proofs.Unnamed

/-!
# Addresses lead back

Every key of the location of an object leads back to its place, if the documents have identifiers
that are apart (`AreApart`): no two that the index walks meet are equal, none looks like a way into
its document or like another document, and all URIs are normal. So two objects that have a key in
common are one (`leadBack`).

The identifiers on the way down to an object are those that the index walk meets (`Descends.met`),
so the location says the truth about them (`IsAnchored`); and an identifier, or a way behind one,
is found at its only place (`findById_eq`). This takes a registry whose keywords the index walk
knows. A map of schemas under a keyword that it does not know may hide an identifier
(`hidden_leadBack`).
-/

namespace JsonSchema.Load

/-- Loading comes down to a value from the root of a document, through objects that are no
references. -/
inductive Descends (registry : Registry) (documents : Documents) : Location → Json → Draft → Prop
  | root {uri : String} {stored : StoredDocument} {location : Location}
    (mem : (uri, stored) ∈ documents) (root : Location.root uri = .ok location) :
    Descends registry documents location stored.document.value stored.draft
  | part {location : Location} {members : List (String × Json)} {draft : Draft} {way : Pointer}
    {part : Json} (above : Descends registry documents location (.object members) draft)
    (plain : members.lookup Builtin.ref.key = none)
    (mem : (way, part) ∈ registry.parts draft members) :
    Descends registry documents ((location.named draft.idKey members).child way) part draft

/-- The identifiers that the index walk meets in a document. -/
def metIn (uri : String) (stored : StoredDocument) : List (String × Pointer) :=
  match Location.root uri with
  | .ok root => Cache.metValue stored.draft.idKey false root stored.document.value
  | .error _ => []

/-- The identifiers that the index walks meet, with their places. -/
def met (documents : Documents) : List (String × (String × Pointer)) :=
  documents.flatMap fun (uri, stored) =>
    (metIn uri stored).map fun (identifier, pointer) => (identifier, (uri, pointer))

/-- The identifiers of documents are apart. -/
structure AreApart (documents : Documents) : Prop where
  /-- The URI of a document stays the same when a fragment is appended. -/
  normal : ∀ uri ∈ Members.keys documents, Uri.IsNormal uri
  /-- An identifier is in normal form, and stays the same when a fragment is appended. -/
  settled : ∀ identifier ∈ Members.keys (met documents),
    Uri.normalize identifier = .ok identifier ∧
      ('#' ∉ identifier.toList → Uri.IsNormal identifier)
  /-- No two identifiers are equal. -/
  distinct : (Members.keys (met documents)).Nodup
  /-- No identifier has a pointer for a fragment. -/
  plain : ∀ identifier ∈ Members.keys (met documents), ∀ base fragment,
    Uri.splitFragment identifier = .ok (base, fragment) →
    Text.startsWith fragment.toList ['/'] = false
  /-- No identifier below a root is the URI of a document. -/
  below : ∀ entry ∈ met documents, entry.2.2 ≠ [] → entry.1 ∉ Members.keys documents
  /-- No identifier of a root is the URI of another document. -/
  roots : ∀ entry ∈ met documents, entry.2.2 = [] → entry.1 ∈ Members.keys documents →
    entry.1 = entry.2.1

/-- A URI designates a place: it is an identifier of it, or a way behind one. -/
inductive Designates (documents : Documents) (key : String) : String × Pointer → Prop
  | identifier {place : String × Pointer} (mem : (key, place) ∈ met documents) :
    Designates documents key place
  | behind {base fragment : String} {place : String × Pointer} {rest : Pointer}
    (split : Uri.splitFragment key = .ok (base, fragment)) (mem : (base, place) ∈ met documents)
    (way : Cache.isPointerFragment fragment = true)
    (parsed : Pointer.parseFragment fragment = .ok rest) :
    Designates documents key (place.1, place.2 ++ rest)

/-- What a location says about the identifiers above it and about its own is true. -/
structure IsAnchored (documents : Documents) (location : Location) : Prop where
  known : location.documentUri ∈ Members.keys documents
  base : location.idBase = location.documentUri ∧ location.idPointer = location.pointer ∨
    ∃ front, location.pointer = front ++ location.idPointer ∧ '#' ∉ location.idBase.toList ∧
      (location.idBase, (location.documentUri, front)) ∈ met documents
  declared : ∀ identifier, location.declaredId = some identifier →
    (identifier, location.place) ∈ met documents

section Apart

variable {registry : Registry} {documents : Documents} {key base fragment : String}
  {place place' : String × Pointer} {location : Location} {value : Json} {draft : Draft}
  {members : List (String × Json)}

/-- With the keywords of the drafts, loading comes to what it comes down to. -/
theorem Descends.comes (distinct : (Members.keys documents).Nodup)
    (descends : Descends .default documents location value draft) :
    Comes documents location value draft := by
  induction descends with
  | root mem root => exact .root (Members.lookup_of_mem distinct mem) root
  | part _ plain mem ih => exact .part ih plain mem

/-! ## The index of a document -/

theorem mem_met {uri identifier : String} {stored : StoredDocument} {pointer : Pointer}
    (known : (uri, stored) ∈ documents) (mem : (identifier, pointer) ∈ metIn uri stored) :
    (identifier, (uri, pointer)) ∈ met documents :=
  List.mem_flatMap.2 ⟨_, known, List.mem_map_of_mem mem⟩

/-- The index of a document has what the walk meets in it. -/
theorem AreApart.identifiers_eq (apart : AreApart documents) {uri : String}
    {stored : StoredDocument} (known : (uri, stored) ∈ documents) :
    Cache.identifiers uri stored = .ok (metIn uri stored) ∧
      (Members.keys (metIn uri stored)).Nodup := by
  have normal := apart.normal uri (List.mem_map_of_mem known)
  have distinct : (Members.keys (metIn uri stored)).Nodup := by
    have whole := apart.distinct
    unfold met Members.keys at whole
    rw [List.map_flatMap] at whole
    have inside := (List.nodup_flatMap.1 whole).1 _ known
    rw [List.map_map] at inside
    exact inside
  refine ⟨?_, distinct⟩
  unfold metIn at distinct ⊢
  unfold Cache.identifiers Location.root at *
  rw [normal.withoutFragment] at distinct ⊢
  exact congrArg Except.ok (Cache.indexValue_eq _ _ [] _ distinct)

/-! ## Designated places -/

theorem AreApart.single (apart : AreApart documents) (mem : (key, place) ∈ met documents)
    (mem' : (key, place') ∈ met documents) : place = place' := by
  have first := Members.lookup_of_mem apart.distinct mem
  rw [Members.lookup_of_mem apart.distinct mem'] at first
  exact (Option.some.inj first).symm

/-- An identifier with a pointer for a fragment is one without a fragment. -/
theorem AreApart.unmarked (apart : AreApart documents) (mem : (key, place) ∈ met documents)
    (split : Uri.splitFragment key = .ok (base, fragment))
    (way : Cache.isPointerFragment fragment = true) : base = key ∧ fragment = "" := by
  have listed := List.mem_map_of_mem (f := Prod.fst) mem
  have none := apart.plain key listed base fragment split
  have empty : fragment.isEmpty = true := by
    unfold Cache.isPointerFragment at way
    rw [none, Bool.or_false] at way
    exact way
  rcases Uri.split_normalized (apart.settled key listed).1 split with whole | ⟨_, _, nonempty⟩
  · exact whole
  · rw [empty] at nonempty
    cases nonempty

/-- A URI designates at most one place. -/
theorem AreApart.designates_unique (apart : AreApart documents)
    (first : Designates documents key place) (second : Designates documents key place') :
    place = place' := by
  have mixed : ∀ {base fragment : String} {place place' : String × Pointer} {rest : Pointer},
      (key, place) ∈ met documents → Uri.splitFragment key = .ok (base, fragment) →
      (base, place') ∈ met documents → Cache.isPointerFragment fragment = true →
      Pointer.parseFragment fragment = .ok rest → place = (place'.1, place'.2 ++ rest) := by
    intro base fragment place place' rest mem split mem' way parsed
    obtain ⟨rfl, rfl⟩ := apart.unmarked mem split way
    rw [parse_empty] at parsed
    cases parsed
    rw [apart.single mem mem', List.append_nil]
  cases first with
  | identifier mem =>
    cases second with
    | identifier mem' => exact apart.single mem mem'
    | behind split mem' way parsed => exact mixed mem split mem' way parsed
  | behind split mem way parsed =>
    cases second with
    | identifier mem' => exact (mixed mem' split mem way parsed).symm
    | behind split' mem' _ parsed' =>
      obtain ⟨rfl, rfl⟩ := split_unique split split'
      rw [parsed] at parsed'
      cases parsed'
      rw [apart.single mem mem']

/-- A designated place in a known document is the way into this document. -/
theorem AreApart.designates_document (apart : AreApart documents)
    (designates : Designates documents key place)
    (split : Uri.splitFragment key = .ok (base, fragment)) (known : base ∈ Members.keys documents)
    (way : Cache.isPointerFragment fragment = true) :
    ∃ rest, Pointer.parseFragment fragment = .ok rest ∧ place = (base, rest) := by
  have root : ∀ {place : String × Pointer}, (base, place) ∈ met documents → place = (base, []) := by
    intro place mem
    have top : place.2 = [] := by
      by_contra below
      exact apart.below _ mem below known
    exact Prod.ext (apart.roots _ mem top known).symm top
  cases designates with
  | identifier mem =>
    obtain ⟨rfl, rfl⟩ := apart.unmarked mem split way
    exact ⟨[], parse_empty, root mem⟩
  | @behind base' fragment' place rest split' mem way parsed =>
    obtain ⟨rfl, rfl⟩ := split_unique split split'
    rw [root mem]
    exact ⟨rest, parsed, rfl⟩

/-! ## Finding designated places -/

/-- What is found in one of the documents is designated. -/
theorem exists_findIn {uri : String} {stored : StoredDocument}
    (known : (uri, stored) ∈ documents)
    (split : Uri.splitFragment key = .ok (base, fragment))
    (parses : Cache.isPointerFragment fragment = true →
      ∃ rest, Pointer.parseFragment fragment = .ok rest) :
    ∃ found, Cache.findIn key base fragment (metIn uri stored) = .ok found ∧
      ∀ pointer, found = some pointer → Designates documents key (uri, pointer) := by
  unfold Cache.findIn
  split
  · next pointer whole =>
    refine ⟨_, rfl, ?_⟩
    rintro _ ⟨⟩
    exact .identifier (mem_met known (Members.mem_of_lookup whole))
  · split
    · next front here =>
      split
      · next way =>
        obtain ⟨rest, parsed⟩ := parses way
        rw [parsed]
        refine ⟨_, rfl, ?_⟩
        rintro _ ⟨⟩
        exact .behind split (mem_met known (Members.mem_of_lookup here)) way parsed
      · exact ⟨none, rfl, nofun⟩
    · exact ⟨none, rfl, nofun⟩

/-- Some document has the designated place. -/
theorem AreApart.exists_document (apart : AreApart documents)
    (designates : Designates documents key place)
    (split : Uri.splitFragment key = .ok (base, fragment)) :
    ∃ entry ∈ documents, Cache.findIn key base fragment (metIn entry.1 entry.2) ≠ .ok none := by
  have listed : ∀ {identifier : String} {place : String × Pointer},
      (identifier, place) ∈ met documents →
      ∃ entry ∈ documents, ∃ pointer, (metIn entry.1 entry.2).lookup identifier = some pointer := by
    intro identifier place mem
    obtain ⟨entry, known, inside⟩ := List.mem_flatMap.1 mem
    obtain ⟨⟨_, pointer⟩, listed, same⟩ := List.mem_map.1 inside
    cases same
    exact ⟨entry, known, pointer,
      Members.lookup_of_mem (apart.identifiers_eq known).2 listed⟩
  cases designates with
  | identifier mem =>
    obtain ⟨entry, known, pointer, found⟩ := listed mem
    refine ⟨entry, known, ?_⟩
    unfold Cache.findIn
    rw [found]
    exact nofun
  | behind split' mem way parsed =>
    obtain ⟨rfl, rfl⟩ := split_unique split split'
    obtain ⟨entry, known, pointer, found⟩ := listed mem
    refine ⟨entry, known, ?_⟩
    unfold Cache.findIn
    split
    · exact nofun
    · rw [found]
      dsimp only
      rw [if_pos way, parsed]
      exact nofun

/-- The search among documents ends at the first that has a place, if each has none or the same. -/
theorem findAmong_eq {index : String → StoredDocument → List (String × Pointer)}
    (each : ∀ entry ∈ documents, Cache.identifiers entry.1 entry.2 = .ok (index entry.1 entry.2) ∧
      ∃ found, Cache.findIn key base fragment (index entry.1 entry.2) = .ok found ∧
        ∀ pointer, found = some pointer → (entry.1, pointer) = place)
    (inside : ∃ entry ∈ documents,
      Cache.findIn key base fragment (index entry.1 entry.2) ≠ .ok none) :
    Cache.findAmong key base fragment documents = .ok (some place) := by
  induction documents with
  | nil =>
    obtain ⟨_, mem, _⟩ := inside
    cases mem
  | cons first rest ih =>
    obtain ⟨uri, stored⟩ := first
    obtain ⟨indexed, found, here, same⟩ := each _ List.mem_cons_self
    rw [Cache.findAmong, indexed]
    dsimp only at here ⊢
    change (Cache.findIn key base fragment (index uri stored) >>= _) = _
    rw [here]
    cases found with
    | some pointer => exact congrArg (fun place => Except.ok (Option.some place)) (same _ rfl)
    | none =>
      refine ih (fun entry mem => each entry (List.mem_cons_of_mem _ mem)) ?_
      obtain ⟨entry, mem, other⟩ := inside
      rcases List.mem_cons.1 mem with rfl | later
      · exact absurd here other
      · exact ⟨entry, later, other⟩

/-- A URI in normal form is found at the place that it designates. -/
theorem AreApart.findById_eq {cache : Cache} (apart : AreApart cache.documents)
    (designates : Designates cache.documents key place) (normal : Uri.normalize key = .ok key)
    (split : Uri.splitFragment key = .ok (base, fragment))
    (parses : Cache.isPointerFragment fragment = true →
      ∃ rest, Pointer.parseFragment fragment = .ok rest) :
    cache.findById key = .ok (some place) := by
  unfold Cache.findById
  rw [normal]
  change ((Uri.splitFragment key).mapError Fault.badUri >>= _) = _
  rw [split]
  refine findAmong_eq (fun entry known => ?_) (apart.exists_document designates split)
  obtain ⟨found, here, leads⟩ := exists_findIn known split parses
  exact ⟨(apart.identifiers_eq known).1, found, here, fun pointer same =>
    apart.designates_unique (leads pointer same) designates⟩

/-! ## Locating -/

section Locating

variable {loader : Loader} {session : Session} {origin : Location} {pointer : Pointer}

theorem run_document_plain (split : Uri.splitFragment key = .ok (base, fragment)) :
    (document? base).run.run session = (.ok (session.documents.lookup base), session) := by
  unfold document?
  change (checkUri (session.cache.document? base)).run.run session = _
  unfold Cache.document?
  rw [Uri.withoutFragment_of_plain (Uri.mark_not_mem_split split)]
  rfl

/-- A way into a known document is followed. -/
theorem locate_document (split : Uri.splitFragment key = .ok (base, fragment))
    (known : (session.documents.lookup base).isSome)
    (way : Cache.isPointerFragment fragment = true)
    (parsed : Pointer.parseFragment fragment = .ok pointer) :
    (locate loader key origin).run.run session = (.ok (base, pointer), session) := by
  unfold locate
  rw [run_bind_ok (run_checkUri_eq split)]
  dsimp only
  rw [run_bind_ok (run_document_plain split), known, way, Bool.true_and, if_pos rfl]
  have read : (pointerOf key fragment origin).run.run session = (.ok pointer, session) := by
    unfold pointerOf
    rw [parsed]
    rfl
  rw [run_bind_ok read]
  rfl

/-- A URI that is no way into a known document is found by identifiers. -/
theorem locate_identifier (split : Uri.splitFragment key = .ok (base, fragment))
    (other : ¬ ((session.documents.lookup base).isSome = true ∧
      Cache.isPointerFragment fragment = true))
    (found : session.cache.findById key = .ok (some place)) :
    (locate loader key origin).run.run session = (.ok place, session) := by
  unfold locate
  rw [run_bind_ok (run_checkUri_eq split)]
  dsimp only
  rw [run_bind_ok (run_document_plain split), if_neg (Bool.and_eq_true_iff.not.2 other)]
  have searched : (findById key).run.run session = (.ok (some place), session) := by
    unfold findById
    change (check (session.cache.findById key)).run.run session = _
    rw [found]
    rfl
  rw [run_bind_ok searched]
  rfl

theorem isSome_lookup_iff {uri : String} :
    (documents.lookup uri).isSome = true ↔ uri ∈ Members.keys documents := by
  rw [List.lookup_isSome_iff]
  constructor
  · rintro ⟨entry, mem, same⟩
    rw [eq_of_beq same]
    exact List.mem_map_of_mem mem
  · intro mem
    obtain ⟨entry, listed, rfl⟩ := List.mem_map.1 mem
    exact ⟨entry, listed, beq_self_eq_true _⟩

/-- A URI in normal form is located at the place that it designates. -/
theorem AreApart.locate_eq (apart : AreApart session.documents)
    (designates : Designates session.documents key place)
    (normal : Uri.normalize key = .ok key)
    (split : Uri.splitFragment key = .ok (base, fragment))
    (parses : Cache.isPointerFragment fragment = true →
      ∃ rest, Pointer.parseFragment fragment = .ok rest) :
    (locate loader key origin).run.run session = (.ok place, session) := by
  by_cases known : (session.documents.lookup base).isSome = true ∧
      Cache.isPointerFragment fragment = true
  · obtain ⟨inside, way⟩ := known
    obtain ⟨rest, parsed, rfl⟩ :=
      apart.designates_document designates split (isSome_lookup_iff.1 inside) way
    exact locate_document split inside way parsed
  · exact locate_identifier split known (apart.findById_eq designates normal split parses)

/-! ## Keys of anchored locations -/

theorem IsAnchored.isNormal_base (apart : AreApart documents)
    (anchored : IsAnchored documents location) : Uri.IsNormal location.idBase := by
  rcases anchored.base with ⟨same, _⟩ | ⟨front, _, unmarked, mem⟩
  · rw [same]
    exact apart.normal _ anchored.known
  · exact (apart.settled _ (List.mem_map_of_mem (f := Prod.fst) mem)).2 unmarked

/-- The keys of an anchored location are URIs. -/
theorem IsAnchored.exists_keys (apart : AreApart documents)
    (anchored : IsAnchored documents location) : ∃ keys, location.cacheKeys = .ok keys := by
  have absolute := (apart.normal _ anchored.known).normalize location.pointer.text
  have identifier := (anchored.isNormal_base apart).normalize location.idPointer.text
  unfold Location.cacheKeys Location.canonicalUri
  unfold Location.absoluteUri Location.fragment Location.identifierUri Location.fragmentOf
  rw [absolute, identifier]
  cases location.declaredId <;> exact ⟨_, rfl⟩

/-- An anchored location is found under each of its keys. -/
theorem IsAnchored.locate_eq (apart : AreApart session.documents)
    (anchored : IsAnchored session.documents location) {keys : List String}
    (ok : location.cacheKeys = .ok keys) (mem : key ∈ keys) :
    (locate loader key origin).run.run session = (.ok location.place, session) := by
  have normal := apart.normal _ anchored.known
  have absolute : location.absoluteUri = .ok key →
      (locate loader key origin).run.run session = (.ok location.place, session) := by
    intro ok
    exact locate_document (Location.split_fragmentOf normal ok)
      (isSome_lookup_iff.2 anchored.known) (Location.isPointerFragment_encode _)
      (Pointer.parseFragment_encode _)
  have identifier : location.identifierUri = .ok key →
      (locate loader key origin).run.run session = (.ok location.place, session) := by
    intro ok
    rcases anchored.base with ⟨base, pointer⟩ | ⟨front, whole, _, mem⟩
    · refine absolute ?_
      unfold Location.identifierUri at ok
      rw [base, pointer] at ok
      exact ok
    · have split := Location.split_fragmentOf (anchored.isNormal_base apart) ok
      have parsed := Pointer.parseFragment_encode location.idPointer
      have designates := Designates.behind split mem (Location.isPointerFragment_encode _) parsed
      rw [← whole] at designates
      have same := Uri.normalize_split split
      rw [Uri.decodeFragment_encode] at same
      have key := (anchored.isNormal_base apart).normalize location.idPointer.text
      unfold Location.identifierUri Location.fragmentOf at ok
      rw [key] at ok
      rw [Except.ok.inj ok] at same
      exact apart.locate_eq designates same split (fun _ => ⟨_, parsed⟩)
  rcases Location.cacheKeys_cases ok mem with first | second | third
  · exact absolute first
  · unfold Location.canonicalUri at second
    split at second
    · next declared =>
      cases second
      have mem := anchored.declared _ declared
      have settled := (apart.settled _ (List.mem_map_of_mem (f := Prod.fst) mem)).1
      obtain ⟨⟨base, fragment⟩, split, _⟩ := except_bind_ok settled
      refine apart.locate_eq (.identifier mem) settled split (fun way => ?_)
      rw [(apart.unmarked mem split way).2]
      exact ⟨[], parse_empty⟩
    · exact identifier second
  · exact identifier third

end Locating

/-! ## Coming down -/

/-- An object is anchored under its identifier, which the index walk meets. -/
theorem IsAnchored.named {idKey : String} {stored : StoredDocument}
    (anchored : IsAnchored documents location) (fresh : location.declaredId = none)
    (plain : members.lookup Builtin.ref.key = none)
    (known : (location.documentUri, stored) ∈ documents)
    (subset : Cache.metValue idKey false location (.object members) ⊆
      metIn location.documentUri stored) :
    IsAnchored documents (location.named idKey members) := by
  have own : ∀ resolved, (location.named idKey members).declaredId = some resolved →
      (resolved, location.place) ∈ met documents := by
    intro resolved declares
    refine mem_met known (subset ?_)
    rw [Cache.metValue_object plain fresh, declares]
    exact List.mem_cons_self
  rcases named_cases idKey location members with same | ⟨identifier, _, ok⟩
  · rw [same]
    exact anchored
  · generalize location.named idKey members = named at ok own ⊢
    rcases withId_cases ok with ⟨resolved, unmarked, rfl⟩ | ⟨resolved, rfl⟩
    · exact ⟨anchored.known,
        .inr ⟨location.pointer, (List.append_nil _).symm, unmarked, own resolved rfl⟩, own⟩
    · exact ⟨anchored.known, anchored.base, own⟩

theorem IsAnchored.child (anchored : IsAnchored documents location) (way : Pointer) :
    IsAnchored documents (location.child way) := by
  refine ⟨anchored.known, ?_, nofun⟩
  rcases anchored.base with ⟨base, pointer⟩ | ⟨front, whole, unmarked, mem⟩
  · exact .inl ⟨base, congrArg (· ++ way) pointer⟩
  · refine .inr ⟨front, ?_, unmarked, mem⟩
    show location.pointer ++ way = front ++ (location.idPointer ++ way)
    rw [whole, List.append_assoc]

/-- Where loading comes down to, the location is anchored, and all that the index walk meets there it
meets in the document. -/
theorem Descends.met (indexed : registry.IsIndexed) (apart : AreApart documents)
    (descends : Descends registry documents location value draft) :
    location.declaredId = none ∧ IsAnchored documents location ∧
      ∃ stored, (location.documentUri, stored) ∈ documents ∧
        Cache.metValue draft.idKey false location value ⊆ metIn location.documentUri stored := by
  induction descends with
  | @root uri stored location mem root =>
    have normal := apart.normal uri (List.mem_map_of_mem mem)
    have whole : metIn uri stored =
        Cache.metValue stored.draft.idKey false location stored.document.value := by
      unfold metIn
      rw [root]
    unfold Location.root at root
    rw [normal.withoutFragment] at root
    cases root
    refine ⟨rfl, ⟨List.mem_map_of_mem (f := Prod.fst) mem, .inl ⟨rfl, rfl⟩, nofun⟩, stored, mem, ?_⟩
    rw [whole]
    exact List.Subset.refl _
  | @part location members draft way part _ plain mem ih =>
    obtain ⟨fresh, anchored, stored, known, subset⟩ := ih
    have place := (named_place draft.idKey location members).1
    refine ⟨rfl, (anchored.named fresh plain known subset).child way, stored, ?_⟩
    show ((location.named draft.idKey members).documentUri, stored) ∈ documents ∧ _ ⊆
      metIn (location.named draft.idKey members).documentUri stored
    rw [place]
    exact ⟨known, List.Subset.trans (Cache.subset_part indexed plain fresh mem) subset⟩

/-- Every key of an object leads back to its place, and no two objects have a key in common. -/
structure LeadBack (loader : Loader) (session : Session) : Prop where
  located : ∀ {location : Location} {members : List (String × Json)} {draft : Draft},
    Descends loader.registry session.documents location (.object members) draft →
    ∃ keys, (location.ofObject draft members).cacheKeys = .ok keys ∧
      ∀ key ∈ keys, ∀ origin,
        (locate loader key origin).run.run session = (.ok location.place, session)
  separate : ∀ {location location' : Location} {members members' : List (String × Json)}
    {draft draft' : Draft} {keys keys' : List String} {key : String},
    Descends loader.registry session.documents location (.object members) draft →
    Descends loader.registry session.documents location' (.object members') draft' →
    (location.ofObject draft members).cacheKeys = .ok keys →
    (location'.ofObject draft' members').cacheKeys = .ok keys' → key ∈ keys → key ∈ keys' →
    location.place = location'.place

/-- The keys of the objects in a session lead back to their places, if the identifiers of its
documents are apart and the index walk knows the keywords. -/
theorem leadBack {loader : Loader} {session : Session} (indexed : loader.registry.IsIndexed)
    (apart : AreApart session.documents) : LeadBack loader session := by
  have anchored : ∀ {location : Location} {members : List (String × Json)} {draft : Draft},
      Descends loader.registry session.documents location (.object members) draft →
      IsAnchored session.documents (location.ofObject draft members) := by
    intro location members draft descends
    obtain ⟨fresh, anchored, stored, known, subset⟩ := descends.met indexed apart
    unfold Location.ofObject
    split
    · next plain => exact anchored.named fresh plain known subset
    · exact anchored
  have located : ∀ {location : Location} {members : List (String × Json)} {draft : Draft}
      {keys : List String} {key : String} {origin : Location},
      Descends loader.registry session.documents location (.object members) draft →
      (location.ofObject draft members).cacheKeys = .ok keys → key ∈ keys →
      (locate loader key origin).run.run session = (.ok location.place, session) := by
    intro location members draft keys key origin descends ok mem
    rw [← Session.ofObject_place draft location members]
    exact (anchored descends).locate_eq apart ok mem
  constructor
  · intro location members draft descends
    obtain ⟨keys, ok⟩ := (anchored descends).exists_keys apart
    exact ⟨keys, ok, fun key mem origin => located descends ok mem⟩
  · intro location location' members members' draft draft' keys keys' key descends descends' ok ok'
      mem mem'
    have first : (locate loader key location).run.run session = (.ok location.place, session) :=
      located descends ok mem
    rw [located descends' ok' mem'] at first
    exact (Except.ok.inj (Prod.mk.inj first).1).symm

end Apart

namespace Nested

/-- A loader that knows no further documents. -/
def loader : Loader where
  options := .default
  registry := .default
  client := ⟨[]⟩
  preloaded := []

/-- A document with identifiers within identifiers, relative and by name. -/
def outer : StoredDocument where
  document := {
    id := ⟨0⟩
    value := .object [("properties", .object [("p", .object [
      ("$id", .string "parts/p.json"),
      ("items", .object [("$id", .string "#item"), ("$ref", .string "s.json")]),
      ("not", .object [("$id", .string "#not"),
        ("allOf", .array [.object [("$id", .string "q.json")]])])])])] }
  draft := .draft6

/-- A document whose root has the URI of the document for an identifier. -/
def other : StoredDocument where
  document := {
    id := ⟨1⟩
    value := .object [("$id", .string "s.json"),
      ("definitions", .object [("enum", .object [("$id", .string "http://e.com/t.json")])])] }
  draft := .draft6

/-- A session that knows the two documents. -/
def session : Session :=
  { Session.empty with cache := { Cache.empty with
    documents := [("http://e.com/r.json", outer), ("http://e.com/s.json", other)] } }

/-- The identifiers of the documents; one beside a reference does not count. -/
theorem met_eq : Load.met session.documents =
    [("http://e.com/parts/p.json", "http://e.com/r.json", ["properties", "p"]),
      ("http://e.com/parts/p.json#not", "http://e.com/r.json", ["properties", "p", "not"]),
      ("http://e.com/parts/q.json", "http://e.com/r.json",
        ["properties", "p", "not", "allOf", "0"]),
      ("http://e.com/s.json", "http://e.com/s.json", []),
      ("http://e.com/t.json", "http://e.com/s.json", ["definitions", "enum"])] := by
  decide +kernel

theorem areApart : AreApart session.documents := by
  constructor
  · decide +kernel
  all_goals rw [met_eq]
  · decide +kernel
  · decide
  · have all : ∀ identifier ∈ ["http://e.com/parts/p.json", "http://e.com/parts/p.json#not",
          "http://e.com/parts/q.json", "http://e.com/s.json", "http://e.com/t.json"],
        ((Uri.splitFragment identifier).toOption.all
          fun both => Text.startsWith both.2.toList ['/'] = false) = true := by
      decide +kernel
    intro identifier mem base fragment split
    have here := all identifier mem
    rw [split] at here
    exact of_decide_eq_true here
  · decide
  · decide

end Nested

theorem nested_leadBack : LeadBack Nested.loader Nested.session :=
  leadBack Registry.isIndexed_default Nested.areApart

namespace Extended

/-- A keyword for a map of schemas that the index walk does not know. -/
def keyword : Keyword where
  key := "defs"
  kind := .schemaMap
  drafts := Draft.all
  appliesTo := []
  expects := [.object]
  variants := []
  mergedInto := none

/-- A loader with the keyword. -/
def loader : Loader :=
  { Nested.loader with registry := ⟨Builtin.all ++ [keyword]⟩ }

/-- The members of a schema with an identifier. -/
def members : List (String × Json) :=
  [("$id", .string "e.json"), ("type", .string "string")]

/-- A document that has the schema in the map, under a name that is a keyword for data. -/
def stored : StoredDocument where
  document := { id := ⟨0⟩, value := .object [("defs", .object [("enum", .object members)])] }
  draft := .draft6

/-- A session that knows the document. -/
def session : Session :=
  { Session.empty with cache := { Cache.empty with documents := [("http://e.com/r.json", stored)] } }

/-- The root of the document. -/
def root : Location :=
  .ofPlace "http://e.com/r.json" []

theorem areApart : AreApart session.documents := by
  have none : Load.met session.documents = [] := by decide +kernel
  constructor
  · decide +kernel
  all_goals
    rw [none]
    first | exact List.nodup_nil | exact nofun

theorem descends : Descends loader.registry session.documents (root.child ["defs", "enum"])
    (.object members) .draft6 := by
  have whole : Descends loader.registry session.documents root
      (.object [("defs", .object [("enum", .object members)])]) .draft6 :=
    .root List.mem_cons_self rfl
  exact whole.part rfl List.mem_cons_self

end Extended

/-- An identifier in such a map is not found. -/
theorem hidden_leadBack :
    AreApart Extended.session.documents ∧ ¬ LeadBack Extended.loader Extended.session := by
  refine ⟨Extended.areApart, fun returns => ?_⟩
  obtain ⟨keys, ok, located⟩ := returns.located Extended.descends
  have listed : ((Extended.root.child ["defs", "enum"]).ofObject .draft6
      Extended.members).cacheKeys =
        .ok ["http://e.com/r.json#/defs/enum", "http://e.com/e.json"] := by
    decide +kernel
  have lost : ((locate Extended.loader "http://e.com/e.json" Extended.root).run.run
      Extended.session).1.toOption = none := by
    decide +kernel
  rw [listed] at ok
  cases ok
  rw [located "http://e.com/e.json" (by decide) Extended.root] at lost
  cases lost

end JsonSchema.Load
