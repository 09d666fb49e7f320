import JsonSchema.Proofs.Documents
import JsonSchema.Proofs.Spots

/-!
# References within a document

A reference that is only a fragment stays in the document in which it stands. Resolved where no
identifier is in force, it is the URI of the document with a pointer behind it
(`Uri.resolve_fragment`), and such a URI names the place of the pointer in this document
(`Unambiguous.names_within`).

So a document is read from its own text (`readSchema_within`), if nothing else is kept under its URI
and the documents of the session are unambiguous: the root has the draft that the document names,
and every reference by fragment is bound to the schema of the value in the document that the pointer
leads to.
-/

namespace JsonSchema

/-! ## Fragments as references -/

namespace Uri

variable {base fragment uri : String}

/-- A text that is accepted as a URI has no characters that `clean` takes out. -/
theorem isKept_of_check (ok : check uri = .ok ⟨⟩) {c : Char} (mem : c ∈ uri.toList) :
    isKept c = true := by
  unfold check at ok
  dsimp only at ok
  split at ok
  · cases ok
  · next none =>
    have absent : ∀ d ∈ forbiddenCharacters, d ∉ uri.toList := by
      intro d listed inside
      refine none ?_
      have found : d ∈ forbiddenCharacters.filter fun c => uri.toList.contains c :=
        List.mem_filter.2 ⟨listed, List.contains_iff_mem.2 inside⟩
      cases filtered : forbiddenCharacters.filter fun c => uri.toList.contains c with
      | nil =>
        rw [filtered] at found
        cases found
      | cons first rest => rfl
    have other : c ≠ '\t' ∧ c ≠ '\r' ∧ c ≠ '\n' := by
      refine ⟨?_, ?_, ?_⟩ <;>
      · rintro rfl
        exact absent _ (by decide) mem
    simp [isKept, other]

theorem takeScheme_mark (text : List Char) : takeScheme? ('#' :: text) = none := by
  have whole := @takeScheme_append [] text
  exact whole

/-- A reference that is only a fragment has no scheme. -/
theorem isAbsolute_fragment (kept : ∀ c ∈ fragment.toList, isKept c = true) {absolute : Bool}
    (ok : isAbsolute ("#" ++ fragment) = .ok absolute) : absolute = false := by
  obtain ⟨parts, split, same⟩ := except_bind_ok ok
  cases same
  have marked : ("#" ++ fragment).toList = [] ++ '#' :: fragment.toList := by
    rw [String.toList_append]
    rfl
  have cleaned : clean ("#" ++ fragment).toList = '#' :: fragment.toList := by
    rw [marked, clean_append kept]
    rfl
  have taken : (takeScheme? (clean ("#" ++ fragment).toList)).getD
      ([], clean ("#" ++ fragment).toList) = ([], '#' :: fragment.toList) := by
    rw [cleaned, takeScheme_mark]
    rfl
  unfold splitText at split
  rw [splitWith_eq taken] at split
  obtain ⟨_, _, split⟩ := except_bind_ok split
  dsimp only at split
  split at split
  · cases split
  · cases split
    rfl

/-- A fragment is resolved behind its base, in normal form. -/
theorem resolve_fragment (normal : IsNormal base) (ok : resolve base ("#" ++ fragment) = .ok uri) :
    uri = withFragment base (encodeFragment (decodeFragment fragment)) := by
  obtain ⟨_, checked, ok⟩ := except_bind_ok ok
  have kept : ∀ c ∈ fragment.toList, isKept c = true := by
    intro c mem
    refine isKept_of_check checked ?_
    rw [String.toList_append]
    exact List.mem_append_right _ mem
  obtain ⟨absolute, scheme, ok⟩ := except_bind_ok ok
  have marked : ("#" ++ fragment).toList.head? = some '#' := by
    rw [String.toList_append]
    rfl
  rw [isAbsolute_fragment kept scheme, if_neg Bool.false_ne_true, if_pos marked] at ok
  obtain ⟨front, plain, ok⟩ := except_bind_ok ok
  rw [normal.withoutFragment] at plain
  cases plain
  have split := normal.split kept
  rw [String.append_assoc] at split
  rw [normalize_split split] at ok
  exact (Except.ok.inj ok).symm

end Uri

namespace Load

variable {fragment : String}

theorem pointerFragment_cases (way : Cache.isPointerFragment fragment = true) :
    fragment = "" ∨ ∃ rest, fragment.toList = '/' :: rest := by
  unfold Cache.isPointerFragment at way
  rcases Bool.or_eq_true_iff.1 way with empty | start
  · exact .inl (String.isEmpty_iff.1 empty)
  · obtain ⟨rest, same⟩ := List.isPrefixOf_iff_prefix.1 start
    exact .inr ⟨rest, same.symm⟩

/-- A fragment that is a pointer is read as the text that it stands for. -/
theorem parseFragment_eq (way : Cache.isPointerFragment fragment = true) :
    Pointer.parseFragment fragment = Pointer.parse (Uri.decodeFragment fragment) := by
  unfold Pointer.parseFragment Uri.decodeFragment
  rcases pointerFragment_cases way with rfl | ⟨rest, start⟩
  · rfl
  · rw [start, List.dropWhile_cons_of_neg (by decide)]

/-- A pointer stays one when it is escaped again. -/
theorem isPointerFragment_again (way : Cache.isPointerFragment fragment = true) :
    Cache.isPointerFragment (Uri.encodeFragment (Uri.decodeFragment fragment)) = true := by
  rcases pointerFragment_cases way with rfl | ⟨rest, start⟩
  · decide
  · have decoded : Uri.decode fragment.toList = '/' :: Uri.decodeFrom [] rest := by
      rw [start]
      exact Uri.decodeFrom_cons (by decide) [] rest
    unfold Cache.isPointerFragment Uri.encodeFragment Uri.decodeFragment
    rw [String.toList_ofList, String.toList_ofList, decoded]
    exact Bool.or_eq_true_iff.2 (.inr rfl)

/-- Escaping a pointer again does not change where it leads. -/
theorem parseFragment_again (way : Cache.isPointerFragment fragment = true) :
    Pointer.parseFragment (Uri.encodeFragment (Uri.decodeFragment fragment)) =
      Pointer.parseFragment fragment := by
  rw [parseFragment_eq way, parseFragment_eq (isPointerFragment_again way),
    Uri.decodeFragment_encode]

variable {documents : Documents} {place : String × Pointer}

/-- A pointer behind the URI of a document names a place in this document. -/
theorem Unambiguous.names_within (unambiguous : Unambiguous documents) {key base : String}
    (split : Uri.splitFragment key = .ok (base, fragment)) (known : (documents.lookup base).isSome)
    (way : Cache.isPointerFragment fragment = true) (names : Names documents key place) :
    ∃ pointer, Pointer.parseFragment fragment = .ok pointer ∧ place = (base, pointer) := by
  cases names with
  | document split' _ _ parsed =>
    obtain ⟨rfl, rfl⟩ := split_unique split split'
    exact ⟨_, parsed, rfl⟩
  | identifier identified =>
    obtain ⟨rfl, rfl⟩ := split_normal (unambiguous.plain identified split way) split
    exact ⟨[], parse_empty, unambiguous.roots identified known⟩
  | behind split' identified _ parsed =>
    obtain ⟨rfl, rfl⟩ := split_unique split split'
    refine ⟨_, parsed, ?_⟩
    rw [unambiguous.roots identified known]
    rfl

/-- A fragment that is resolved against the URI of a document names a place in this document. -/
theorem Unambiguous.fragment_within (unambiguous : Unambiguous documents) {base uri key : String}
    (known : (documents.lookup base).isSome) (way : Cache.isPointerFragment fragment = true)
    (resolved : Uri.resolve base ("#" ++ fragment) = .ok uri) (keyed : Uri.normalize uri = .ok key)
    (names : Names documents key place) :
    ∃ pointer, Pointer.parseFragment fragment = .ok pointer ∧ place = (base, pointer) := by
  have normal := unambiguous.normal base known
  have split := normal.split_withFragment (Uri.isKept_encodeFragment (Uri.decodeFragment fragment))
  rw [← Uri.resolve_fragment normal resolved] at split
  have same := Uri.normalize_split split
  rw [Uri.decodeFragment_encode, ← Uri.resolve_fragment normal resolved, keyed] at same
  cases same
  rw [← parseFragment_again way]
  exact unambiguous.names_within split known (isPointerFragment_again way) names

/-! ## What stands in a document -/

variable {contents : String → Json} {w : Track contents} {location : Location} {value : Json}
  {draft : Draft} {schema other node : Schema} {members : List (String × Json)}

/-- The schemas that one leads to which stands for a value stand for values too. -/
theorem Stands.leads (settled : w.IsSettled) (stands : Stands w location value draft schema)
    (leads : Relation.ReflTransGen (Schema.LeadsTo w.session.graph) schema other) :
    (∃ b, other = .ofBool b) ∨
      ∃ location members draft, Stands w location (.object members) draft other := by
  have sorted : ∀ {location value draft schema}, Stands w location value draft schema →
      (∃ b, schema = .ofBool b) ∨
        ∃ location members draft, Stands w location (.object members) draft schema := by
    intro location value draft schema stands
    rcases stands.cases with ⟨b, _, same⟩ | ⟨members, rfl⟩
    · exact .inl ⟨b, same⟩
    · exact .inr ⟨_, _, _, stands⟩
  induction leads with
  | refl => exact sorted stands
  | @tail middle other _ step ih =>
    rcases step with ⟨keyword, value, mem, listed⟩ | ⟨target, _, bound⟩
    · rcases ih with ⟨b, rfl⟩ | ⟨location, members, draft, stands⟩
      · cases b with
        | true => cases mem
        | false =>
          cases List.mem_singleton.1 mem
          cases List.mem_singleton.1 listed
          exact .inl ⟨true, rfl⟩
      · obtain ⟨node, location', _, stands', built, rfl | back⟩ := stands.exists_built settled
        · cases plain : members.lookup Builtin.ref.key with
          | none =>
            obtain ⟨_, _, below⟩ := (built.reads stands'.arrives plain).part mem listed
            exact sorted below
          | some ref =>
            obtain ⟨_, _, rfl, content⟩ := built
            rw [plain] at content
            obtain ⟨_, _, _, _, _, rfl, _⟩ := content
            cases List.mem_singleton.1 mem
            cases listed
        · obtain ⟨_, ⟨_, _, _, rfl⟩, _⟩ := back
          cases List.mem_singleton.1 mem
          cases listed
    · obtain ⟨handle, known, _⟩ := Option.bind_eq_some_iff.1 bound
      obtain ⟨_, _, _, _, stands, _⟩ := exists_stands settled.clean ⟨handle, known, rfl⟩ bound
      exact sorted stands

/-- A schema with a location and a draft says what the members of an object say. -/
structure Represents (here : Location) (draft : Draft) (members : List (String × Json))
    (schema : Schema) : Prop where
  located : schema.location? = some here
  drafted : schema.draft? = some draft
  content : match members.lookup Builtin.ref.key with
    | none => Reads (IsOwn here) draft members schema.keywords
    | some ref => ∃ text uri target, ref = .string text ∧
      schema.keywords = [(Builtin.ref, .reference text uri target)]

theorem Built.represents (unambiguous : Unambiguous w.documents)
    (built : Built w.stock location members draft node) :
    Represents (location.ofObject draft members) draft members node := by
  obtain ⟨number, keywords, rfl, content⟩ := built
  refine ⟨rfl, rfl, ?_⟩
  cases plain : members.lookup Builtin.ref.key with
  | none =>
    rw [plain] at content
    have same : location.ofObject draft members = location.named draft.idKey members := by
      rw [Location.ofObject, plain]
    rw [same]
    exact content.2.mono (fun way part schema => Loaded.isOwn unambiguous)
  | some ref =>
    rw [plain] at content
    obtain ⟨text, uri, target, string, _, same, _⟩ := content
    exact ⟨text, uri, target, string, same⟩

/-- A schema is the one of a value at a place. -/
def IsSchemaOf (place : String × Pointer) (draft : Draft) (value : Json) (schema : Schema) : Prop :=
  match value with
  | .bool b => schema = .ofBool b
  | .object members => ∃ here : Location, here.place = place ∧ Represents here draft members schema
  | _ => False

theorem Stands.isSchemaOf (unambiguous : Unambiguous w.documents)
    (stands : Stands w location value draft schema)
    (built : ∀ members, value = .object members → Built w.stock location members draft schema) :
    IsSchemaOf location.place draft value schema := by
  rcases stands.cases with ⟨b, rfl, same⟩ | ⟨members, rfl⟩
  · exact same
  · exact ⟨_, Session.ofObject_place _ _ _, (built members rfl).represents unambiguous⟩

/-! ## Reading a document -/

/-- The root of a document that is read. -/
def rootOf (loader : Loader) (document : Json) (baseUri : Option String) :
    Except Uri.UriFault Location := do
  let uri ←
    match baseUri.filter (!·.isEmpty) with
    | some uri => pure uri
    | none => documentUri loader document
  Location.root uri

/-- A session without errors in which a document is kept with the draft that it names, and a schema
stands for its root. -/
structure Track.HasRead (w : Track contents) (loader : Loader) (document : Json) (root : Location)
    (schema : Schema) : Prop where
  clean : w.stock.IsClean
  known : ∃ stored, w.documents.lookup root.documentUri = some stored ∧
    stored.document.value = document ∧ stored.draft = draftOf loader document
  stands : Stands w root document (draftOf loader document) schema

section Reading

variable {loader : Loader} {document : Document} {root : Location} {baseUri : Option String}

theorem runs_finalize : Runs finalize w (fun _ w' => w'.stock.IsClean) := by
  refine after_get_bind ?_
  dsimp only
  split
  · exact runs_throw _
  · next clean => exact after_pure (Bool.eq_false_iff.2 clean)

variable (agree : Agree contents loader [(document, root)]) (loads : Cache → NodeLoader)
  (tracked : ∀ cache, LoadsTracked contents (loads cache))

include agree tracked

theorem runs_readAtVia (detected : AreDetected loader w.documents) {uri : String}
    (place : Location.root uri = .ok root) :
    Runs (readAtVia loader loads document uri) w
      (fun schema w' => w'.HasRead loader document.value root schema) := by
  obtain ⟨fixed, proper, content⟩ := agree.requested _ (List.mem_singleton_self _)
  obtain ⟨_, _, _, without⟩ := isFormed_root place
  have finished : ∀ {w₁ : Track contents} {stored : StoredDocument},
      w₁.documents.lookup root.documentUri = some stored →
      stored.document.value = document.value → stored.draft = draftOf loader document.value →
      Runs (do
        let schema ← loadVia loader loads document (← checkUri (Location.root root.documentUri))
        let _ ← finalize
        return schema) w₁ (fun schema w' => w'.HasRead loader document.value root schema) := by
    intro w₁ stored known same draft
    refine runs_checkUri_bind (fun location root' => ?_)
    rw [fixed] at root'
    cases root'
    refine after_bind (runs_loadVia loads tracked fixed proper content) ?_
    rintro schema w₂ up₂ ⟨stored', known', _, _, loaded⟩
    refine after_bind runs_finalize (fun _ w₃ up₃ clean => after_pure ?_)
    have known₂ := (Track.grown up₂).session.documents _ _ known
    rw [known₂] at known'
    cases known'
    rw [draft] at loaded
    have known₃ := (Track.grown up₃).session.documents _ _ known₂
    refine ⟨clean, ⟨stored, known₃, same, draft⟩, ?_, ?_⟩
    · rw [← draft, ← same]
      exact .root known₃ fixed
    · exact (loaded (clean.anti (Track.grown up₃))).mono (Track.grown up₃)
  unfold readAtVia
  refine runs_checkUri_bind (fun base ok => ?_)
  rw [without] at ok
  cases ok
  refine after_bind (runs_document root.documentUri) ?_
  rintro found w₁ _ ⟨rfl, key, plain, looked⟩
  rw [Uri.withoutFragment_eq without] at plain
  cases plain
  dsimp only
  split
  · next unknown =>
    rw [Option.isNone_iff_eq_none.1 unknown] at looked
    refine after_bind (runs_addDocument (Uri.withoutFragment_eq without) looked proper content) ?_
    rintro _ w₂ _ ⟨known, _⟩
    exact finished known rfl rfl
  · next known =>
    obtain ⟨stored, rfl⟩ := Option.ne_none_iff_exists'.1 (mt Option.isNone_iff_eq_none.2 known)
    have same := (w₁.contained _ _ looked).trans content.symm
    refine finished looked same ?_
    rw [← same]
    exact detected _ _ looked

/-- A session that reads a document ends in a track in which it was read. -/
theorem runs_readingVia (ready : loader.IsReady)
    (place : rootOf loader document.value baseUri = .ok root) :
    Runs (readingVia loader loads document baseUri) (Track.empty contents)
      (fun schema w' => w'.HasRead loader document.value root schema) := by
  unfold rootOf at place
  refine after_bind (runs_newSession ready agree.preloaded) (fun _ w₁ _ detected => ?_)
  cases given : baseUri.filter (!·.isEmpty) with
  | some uri =>
    rw [given] at place
    exact runs_readAtVia agree loads tracked detected place
  | none =>
    rw [given] at place
    obtain ⟨uri, named, place⟩ := except_bind_ok place
    refine runs_checkUri_bind (fun uri' ok => ?_)
    rw [named] at ok
    cases ok
    exact runs_readAtVia agree loads tracked detected place

omit agree tracked

theorem runs_reading (ready : loader.IsReady) (agree : Agree contents loader [(document, root)])
    (place : rootOf loader document.value baseUri = .ok root) :
    Runs (reading loader (depthBound loader · document.value) document baseUri)
      (Track.empty contents) (fun schema w' => w'.HasRead loader document.value root schema) :=
  runs_readingVia agree
    (fun cache => loadNode loader (depthBound loader cache document.value))
    (fun _ => runs_loadNode ready.registry agree.delivered _) ready place

/-- A document that was read leaves a track in which it was. -/
theorem exists_hasRead (ready : loader.IsReady) (agree : Agree contents loader [(document, root)])
    (place : rootOf loader document.value baseUri = .ok root) {schema : Schema} {after : Session}
    (run : (readSchema loader document baseUri).run.run .empty = (.ok schema, after)) :
    ∃ w : Track contents, w.session = readSession loader document baseUri .empty ∧
      w.session.graph = after.graph ∧ w.HasRead loader document.value root schema := by
  have read := runs_reading ready agree place
  rw [readSchema_eq] at run
  unfold readSession
  cases whole : (reading loader (depthBound loader · document.value) document baseUri).run.run
      .empty with
  | mk result session =>
    rw [whole] at run
    cases run
    obtain ⟨w, _, same, hasRead⟩ := read.of_ok whole
    refine ⟨w, same, ?_, hasRead⟩
    rw [same]

end Reading

/-! ## References -/

/-- A reference by fragment is bound to the schema of the value in a document that it points to. -/
def IsBoundWithin (graph : SchemaGraph) (uri : String) (document : Json) (draft : Draft)
    (fragment : String) (schema : Schema) : Prop :=
  ∃ full id pointer value target,
    schema.keywords = [(Builtin.ref, .reference ("#" ++ fragment) full id)] ∧
    Pointer.parseFragment fragment = .ok pointer ∧
    Pointer.resolve document pointer = .ok value ∧
    graph.schema? id = some target ∧ IsSchemaOf (uri, pointer) draft value target

namespace Track.HasRead

variable {loader : Loader} {document : Json} {root : Location}
  (read : w.HasRead loader document root schema)

include read

/-- What loading arrives at in the document is the value at its pointer. -/
theorem resolve (arrives : Arrives w.documents location value draft)
    (inside : location.documentUri = root.documentUri) :
    Pointer.resolve document location.pointer = .ok value ∧ draft = draftOf loader document := by
  obtain ⟨stored, known, rfl, named⟩ := read.known
  obtain ⟨_, _, stored', known', rfl, found⟩ := arrives.comes.found w.sound
  rw [inside, known] at known'
  cases known'
  exact ⟨found, named⟩

theorem isBoundWithin (settled : w.IsSettled) (built : Built w.stock location members draft node)
    {fragment : String} (way : Cache.isPointerFragment fragment = true)
    (found : members.lookup Builtin.ref.key = some (.string ("#" ++ fragment)))
    (scope : location.scope = root.documentUri) :
    IsBoundWithin w.session.graph root.documentUri document (draftOf loader document) fragment
      node := by
  have content := (built.represents settled.unambiguous).content
  rw [found] at content
  obtain ⟨text, full, id, string, keywords⟩ := content
  cases string
  obtain ⟨text, uri, key, place, target, location', value, draft', string, resolved, keyed, names,
    points, same, stands, built'⟩ := built.points settled found
  cases string
  obtain ⟨_, _, _, _, _, _, rfl, bound⟩ := points
  cases keywords
  rw [scope] at resolved
  obtain ⟨stored, known, _⟩ := read.known
  have isSome : (w.documents.lookup root.documentUri).isSome := by
    rw [known]
    rfl
  obtain ⟨pointer, parsed, rfl⟩ :=
    settled.unambiguous.fragment_within isSome way resolved keyed names
  obtain ⟨uri, way⟩ := Prod.mk.inj same
  obtain ⟨resolves, rfl⟩ := read.resolve stands.arrives uri
  rw [way] at resolves
  refine ⟨_, _, pointer, value, target, rfl, parsed, resolves, bound, ?_⟩
  rw [← same]
  exact stands.isSchemaOf settled.unambiguous built'

end Track.HasRead

/-- A document that is read is loaded from its own text, if no other is preloaded or served under
its URI. The root has the draft that the document names. Every schema at a place in the document is
the one of the object there or refers to it, and a reference by fragment with no identifier in force
is bound to the schema of the value in the document that its pointer leads to. -/
theorem readSchema_within {loader : Loader} (ready : loader.IsReady) {document : Document}
    {baseUri : Option String} {root : Location}
    (place : rootOf loader document.value baseUri = .ok root)
    (agree : Agree contents loader [(document, root)]) (object : document.value = .object members)
    {after : Session}
    (run : (readSchema loader document baseUri).run.run .empty = (.ok schema, after))
    (unambiguous : Unambiguous (readSession loader document baseUri .empty).documents) :
    let draft := draftOf loader document.value
    schema.draft? = some draft ∧
    ∀ other here, Relation.ReflTransGen (Schema.LeadsTo after.graph) schema other →
      other.location? = some here → here.documentUri = root.documentUri →
      ∃ node spot inner, (node = other ∨ other.PointsTo after.graph node) ∧
        spot.place = here.place ∧
        Pointer.resolve document.value here.pointer = .ok (.object inner) ∧
        Represents spot draft inner node ∧
        ∀ fragment, Cache.isPointerFragment fragment = true →
          inner.lookup Builtin.ref.key = some (.string ("#" ++ fragment)) →
          spot.scope = root.documentUri →
          IsBoundWithin after.graph root.documentUri document.value draft fragment node := by
  obtain ⟨w, same, graph, read⟩ := exists_hasRead ready agree place run
  have proper : document.value.IsProper := (agree.requested _ (List.mem_singleton_self _)).2.1
  have settled : w.IsSettled := by
    refine ⟨read.clean, ?_, ?_⟩
    · rw [← same] at unambiguous
      exact unambiguous
    · rw [graph]
      exact isBound_readSchema ready proper run
  rw [← graph]
  refine ⟨?_, fun other here leads located inside => ?_⟩
  · have stands := read.stands
    rw [object] at stands
    obtain ⟨node, location', _, _, built, rfl | ⟨id, ⟨_, _, _, rfl⟩, _⟩⟩ :=
      stands.exists_built settled
    · exact object ▸ (built.represents settled.unambiguous).drafted
    · exact object ▸ rfl
  · rcases read.stands.leads settled leads with ⟨b, rfl⟩ | ⟨location, inner, draft, stands⟩
    · cases b <;> cases located
    · obtain ⟨node, location', place', stands', built, which⟩ := stands.exists_built settled
      obtain ⟨⟨here', located', same'⟩, _⟩ := stands.loaded.2 settled.unambiguous
      rw [located] at located'
      cases located'
      have whole : location'.place = here.place := place'.trans same'.symm
      obtain ⟨uri, way⟩ := Prod.mk.inj whole
      obtain ⟨resolves, rfl⟩ := read.resolve stands'.arrives (uri.trans inside)
      rw [way] at resolves
      refine ⟨node, location'.ofObject _ inner, inner, ?_, ?_, resolves,
        built.represents settled.unambiguous, fun fragment way found scope => ?_⟩
      · exact which.imp_right fun ⟨id, ⟨_, _, _, back⟩, bound⟩ =>
          ⟨_, _, _, _, _, _, back, bound⟩
      · exact (Session.ofObject_place _ _ _).trans whole
      · rw [Location.ofObject, found] at scope
        exact read.isBoundWithin settled built way found scope

namespace Linked

/-- The first schema in a schema. -/
def firstPart? (schema : Schema) : Option Schema :=
  (schema.keywords.flatMap fun entry => entry.2.schemas).head?

/-- What was read from the one document has the schema of the property, whose first keyword refers to
the root of the document. -/
def returns (outcome : Except Stop Schema × Session) : Bool :=
  (outcome.1.toOption.bind firstPart?).any fun next =>
    next.location? = some (root.child ["properties", "next"]) &&
      ((next.keywords.head?.bind fun entry => entry.2.target?).bind
        outcome.2.graph.schema?).bind Schema.location? = some root &&
      Members.keys outcome.2.documents = [root.documentUri]

theorem isPartOf_of_firstPart {schema next : Schema} (first : firstPart? schema = some next) :
    next.IsPartOf schema := by
  obtain ⟨entry, mem, listed⟩ := List.mem_flatMap.1 (List.mem_of_head? first)
  exact ⟨entry.1, entry.2, mem, listed⟩

end Linked

/-- The property of the list is a reference by an empty fragment, which is bound to the list. -/
theorem linked_within : ∃ schema after next,
    (readSchema Linked.loader Linked.document (some Linked.root.documentUri)).run.run .empty =
      (.ok schema, after) ∧
    Relation.ReflTransGen (Schema.LeadsTo after.graph) schema next ∧
    IsBoundWithin after.graph Linked.root.documentUri Linked.document.value .draft6 "" next := by
  have ends : Linked.returns ((reading Linked.loader
      (depthBound Linked.loader · Linked.document.value) Linked.document
      (some Linked.root.documentUri)).run.run .empty) = true := by
    decide +kernel
  cases whole : (reading Linked.loader (depthBound Linked.loader · Linked.document.value)
      Linked.document (some Linked.root.documentUri)).run.run .empty with
  | mk result session =>
    rw [whole] at ends
    obtain ⟨next, part, holds⟩ := (Option.any_eq_true _ _).1 ends
    obtain ⟨schema, read, first⟩ := Option.bind_eq_some_iff.1 part
    cases toOption_ok read
    simp only [Bool.and_eq_true, decide_eq_true_eq] at holds
    obtain ⟨⟨located, target⟩, keys⟩ := holds
    have run := readSchema_eq Linked.loader Linked.document (some Linked.root.documentUri) .empty
    dsimp only at run
    rw [whole] at run
    have place : rootOf Linked.loader Linked.document.value (some Linked.root.documentUri) =
        .ok Linked.root := by
      decide +kernel
    obtain ⟨w, at_end, _⟩ := exists_hasRead Linked.isReady Linked.agree place run
    have unambiguous : Unambiguous
        (readSession Linked.loader Linked.document (some Linked.root.documentUri)
          .empty).documents := by
      have at_session : w.session = session := by
        rw [at_end]
        unfold readSession
        rw [whole]
      rw [← at_session] at keys
      rw [← at_end]
      exact (Linked.areUnnamed w keys).unambiguous w.sound
    have inside := Linked.isPartOf_of_firstPart first
    have leads := Relation.ReflTransGen.single (r := Schema.LeadsTo session.graph) (.inl inside)
    obtain ⟨_, within⟩ := readSchema_within Linked.isReady place Linked.agree rfl run unambiguous
    obtain ⟨node, spot, inner, which, there, resolves, represents, fragments⟩ :=
      within next _ leads located rfl
    cases resolves
    have here := represents.located
    rcases which with rfl | ⟨_, _, _, _, _, _, rfl, bound⟩
    · rw [located] at here
      cases here
      exact ⟨_, _, _, run, leads, fragments "" rfl rfl rfl⟩
    · change (session.graph.schema? _).bind Schema.location? = some Linked.root at target
      rw [bound] at target
      have other := here.symm.trans target
      cases other
      cases there

end Load

end JsonSchema
