import JsonSchema.Proofs.Bounds
import JsonSchema.Proofs.Building
import JsonSchema.Proofs.Depth
import JsonSchema.Proofs.Documents
import JsonSchema.Proofs.Fetching
import JsonSchema.Proofs.Filling
import JsonSchema.Proofs.Returning
import JsonSchema.Proofs.Within

/-!
# Limits in the drafts

Drafts 3 and 4 write an exclusive bound as a number with a flag, draft 6 as a number of its own
(`Encodes`). A document that says nothing but this, besides remarks (`Side.States`), is read without
errors, whatever the order of its members: they are all gathered, and then the limit is made of them
(`Load.run_loadKeywords_states`, `Load.run_readSchema_states`). The schema is compiled to one check
(`Compile.ofSchema_limit`), which complains about the first bound that a number violates
(`Limit.Holds.evaluate`).

So the same bounds make the same verdicts in all drafts (`Load.readSchema_limits`). The session has to
open, which a clash of preloaded documents prevents, and the document must not be known beforehand.
-/

namespace JsonSchema

/-! ## What documents say -/

/-- What the members for a bound and for its exclusive companion encode in a draft. -/
inductive Encodes : Draft → Option Json → Option Json → List Bound → Prop
  | inclusive (draft : Draft) (b : Number) : Encodes draft (some (.number b)) none [⟨b, false⟩]
  | flagged {draft : Draft} (early : draft ≠ .draft6) (b : Number) (flag : Bool) :
    Encodes draft (some (.number b)) (some (.bool flag)) [⟨b, flag⟩]
  | exclusive (e : Number) : Encodes .draft6 none (some (.number e)) [⟨e, true⟩]
  | both (b e : Number) :
    Encodes .draft6 (some (.number b)) (some (.number e)) [⟨b, false⟩, ⟨e, true⟩]

/-- The keywords that say nothing about instances. -/
def remarks : List Keyword :=
  [Builtin.schemaUri, Builtin.title, Builtin.description]

/-- An object that says nothing but the bounds of one side, besides remarks. -/
structure Side.States (side : Side) (draft : Draft) (members : List (String × Json))
    (bounds : List Bound) : Prop where
  distinct : (Members.keys members).Nodup
  encodes : Encodes draft (members.lookup side.bounding.key) (members.lookup side.excluding.key)
    bounds
  others : ∀ key value, (key, value) ∈ members → key ≠ side.bounding.key →
    key ≠ side.excluding.key →
      ∃ keyword ∈ remarks, key = keyword.key ∧ ∃ text, value = .string text

/-- A draft reads the bounds that it encodes. -/
theorem Encodes.digest {draft : Draft} {bound exclusive : Option Json} {bounds : List Bound}
    (encodes : Encodes draft bound exclusive bounds) (key exclusiveKey : String) :
    ∃ limit, Digest.limit key exclusiveKey bound exclusive draft = .ok (some limit) ∧
      limit.Holds bounds := by
  cases encodes with
  | inclusive draft b =>
    refine ⟨⟨some (.number b), false, none⟩, ?_, .one b false⟩
    cases draft <;> rfl
  | flagged early b flag =>
    refine ⟨⟨some (.number b), flag, none⟩, ?_, .one b flag⟩
    cases draft with
    | draft6 => exact absurd rfl early
    | _ => cases flag <;> rfl
  | exclusive e => exact ⟨_, rfl, .excluding e⟩
  | both b e => exact ⟨_, rfl, .both b e⟩

namespace Load

variable {loader : Loader} {load : NodeLoader} {location : Location} {draft : Draft} {side : Side}
  {members : List (String × Json)} {bounds : List Bound} {session : Session}

/-- A member that is gathered for the limits. -/
structure IsGathered (draft : Draft) (key : String) (value : Json) : Prop where
  known : ∃ keyword shape, Registry.default.find? key (some draft) = some keyword ∧
    value.shape? = some shape ∧ (keyword.variantFor draft).expects.contains shape = true ∧
    (keyword.mergedInto.isSome || (keyword.variantFor draft).kind = .limit) = true

theorem isGathered_of_states (states : side.States draft members bounds) {key : String} {value : Json}
    (mem : (key, value) ∈ members) (among : key = side.bounding.key ∨ key = side.excluding.key) :
    IsGathered draft key value := by
  have found := Members.lookup_of_mem states.distinct mem
  have encodes := states.encodes
  rcases among with rfl | rfl
  · rw [found] at encodes
    generalize members.lookup side.excluding.key = exclusive at encodes
    obtain ⟨b, rfl⟩ : ∃ b, value = .number b := by cases encodes <;> exact ⟨_, rfl⟩
    cases side <;> cases draft <;> exact ⟨_, .number, rfl, rfl, rfl, rfl⟩
  · rw [found] at encodes
    generalize members.lookup side.bounding.key = bound at encodes
    cases encodes with
    | flagged early b flag =>
      cases draft with
      | draft6 => exact absurd rfl early
      | _ => cases side <;> exact ⟨_, .boolean, rfl, rfl, rfl, rfl⟩
    | exclusive e => cases side <;> exact ⟨_, .number, rfl, rfl, rfl, rfl⟩
    | both b e => cases side <;> exact ⟨_, .number, rfl, rfl, rfl, rfl⟩

/-- A gathered member changes nothing but the list of those that are. -/
theorem run_loadMember_gathered (registry : loader.registry = .default) {key : String}
    {value : Json} (gathered : IsGathered draft key value) (accepted : List (String × Json))
    (builder : SchemaBuilder) :
    (loadMember loader load location draft key value accepted builder).run.run session =
      (.ok (accepted ++ [(key, value)], builder), session) := by
  obtain ⟨keyword, shape, found, shaped, expected, merged⟩ := gathered
  unfold loadMember
  rw [registry, found]
  dsimp only
  rw [shaped]
  dsimp only
  rw [expected, Bool.not_true, if_neg Bool.false_ne_true, if_pos]
  · rfl
  · rw [merged, Bool.true_or]

/-- A remark becomes a keyword. -/
theorem run_loadMember_remark (registry : loader.registry = .default) {keyword : Keyword}
    (remark : keyword ∈ remarks) (text : String) (accepted : List (String × Json))
    (builder : SchemaBuilder) :
    (loadMember loader load location draft keyword.key (.string text) accepted builder).run.run
        session =
      (.ok (accepted ++ [(keyword.key, .string text)], { builder with
        keywords := Members.put builder.keywords keyword (.literal .string (.string text)) }),
        session) := by
  simp only [remarks, List.mem_cons, List.not_mem_nil, or_false] at remark
  unfold loadMember
  rw [registry]
  rcases remark with rfl | rfl | rfl <;> cases draft <;> rfl

/-- All members are gathered, and the remarks become keywords. -/
theorem run_loadMembers (load : NodeLoader) (location : Location) (session : Session)
    (registry : loader.registry = .default) {rest : List (String × Json)}
    (each : ∀ key value, (key, value) ∈ rest → IsGathered draft key value ∨
      ∃ keyword ∈ remarks, key = keyword.key ∧ ∃ text, value = .string text)
    (accepted : List (String × Json)) (builder : SchemaBuilder)
    (only : ∀ entry ∈ builder.keywords, entry.1 ∈ remarks) :
    ∃ keywords : List (Keyword × KeywordValue), (∀ entry ∈ keywords, entry.1 ∈ remarks) ∧
      (rest.foldlM (fun (gathered : List (String × Json) × SchemaBuilder) member =>
        loadMember loader load location draft member.1 member.2 gathered.1 gathered.2)
        (accepted, builder)).run.run session =
        (.ok (accepted ++ rest, { builder with keywords }), session) := by
  induction rest generalizing accepted builder with
  | nil => exact ⟨builder.keywords, only, by rw [List.append_nil]; rfl⟩
  | cons member rest ih =>
    obtain ⟨key, value⟩ := member
    have others := fun key value mem => each key value (List.mem_cons_of_mem _ mem)
    rcases each key value List.mem_cons_self with gathered | ⟨keyword, remark, rfl, text, rfl⟩
    · obtain ⟨keywords, remarks, run⟩ := ih others (accepted ++ [(key, value)]) builder only
      refine ⟨keywords, remarks, ?_⟩
      rw [List.foldlM_cons, run_bind_ok (run_loadMember_gathered registry gathered _ _), run,
        List.append_assoc]
      rfl
    · obtain ⟨keywords, remarks, run⟩ := ih others (accepted ++ [(keyword.key, .string text)])
        { builder with
          keywords := Members.put builder.keywords keyword (.literal .string (.string text)) }
        (fun entry mem => (Members.mem_put mem).elim (fun same => same ▸ remark) (only entry))
      refine ⟨keywords, remarks, ?_⟩
      rw [List.foldlM_cons, run_bind_ok (run_loadMember_remark registry remark _ _ _), run,
        List.append_assoc]
      rfl

/-! ## Limits of objects -/

/-- Without members for a side nothing is added. -/
theorem run_loadLimit_none {accepted : List (String × Json)} (bound exclusive : Keyword)
    (first : accepted.lookup bound.key = none) (second : accepted.lookup exclusive.key = none)
    (builder : SchemaBuilder) :
    (loadLimit loader location draft accepted bound exclusive builder).run.run session =
      (.ok builder, session) := by
  unfold loadLimit
  rw [first, second]
  cases draft <;> rfl

/-- The limit that the members for a side make is added. -/
theorem run_loadLimit_some {accepted : List (String × Json)} (bound exclusive : Keyword)
    {limit : Limit} (made : Digest.limit bound.key exclusive.key (accepted.lookup bound.key)
      (accepted.lookup exclusive.key) draft = .ok (some limit))
    (fits : SchemaBuilder.check bound (.limit limit) = .ok ()) (builder : SchemaBuilder) :
    (loadLimit loader location draft accepted bound exclusive builder).run.run session =
      (.ok { builder with keywords := Members.put builder.keywords bound (.limit limit) },
        session) := by
  have put : builder.put bound (.limit limit) =
      .ok { builder with keywords := Members.put builder.keywords bound (.limit limit) } := by
    unfold SchemaBuilder.put
    rw [fits]
    rfl
  unfold loadLimit
  rw [made]
  change ((recordingFaults loader _ (check (builder.put bound (.limit limit))) >>= _).run.run
    session) = _
  rw [put]
  rfl

theorem not_mem_of_remarks {keyword : Keyword} {keywords : List (Keyword × KeywordValue)}
    (only : ∀ entry ∈ keywords, entry.1 ∈ remarks) (other : keyword ∉ remarks) :
    keyword ∉ Members.keys keywords := by
  intro mem
  obtain ⟨entry, listed, rfl⟩ := List.mem_map.1 mem
  exact other (only entry listed)

/-- No other key is among the members. -/
theorem lookup_of_states (states : side.States draft members bounds) {key : String}
    (first : key ≠ side.bounding.key) (second : key ≠ side.excluding.key)
    (other : ∀ keyword ∈ remarks, key ≠ keyword.key) : members.lookup key = none := by
  cases found : members.lookup key with
  | none => rfl
  | some value =>
    obtain ⟨keyword, remark, same, _⟩ :=
      states.others key value (Members.mem_of_lookup found) first second
    exact absurd same (other keyword remark)

/-- An object that says nothing but the bounds of one side gets a limit that holds them, besides
remarks. -/
theorem run_loadKeywords_states (load : NodeLoader) (session : Session)
    (registry : loader.registry = .default)
    (states : side.States draft members bounds) (location : Location) :
    ∃ keywords limit, (∀ entry ∈ keywords, entry.1 ∈ remarks) ∧ limit.Holds bounds ∧
      (loadKeywords loader load members location draft
        (.empty (some location) draft)).run.run session =
        (.ok ⟨some location, draft, keywords ++ [(side.bounding, .limit limit)]⟩, session) := by
  have each : ∀ key value, (key, value) ∈ members → IsGathered draft key value ∨
      ∃ keyword ∈ remarks, key = keyword.key ∧ ∃ text, value = .string text := by
    intro key value mem
    by_cases among : key = side.bounding.key ∨ key = side.excluding.key
    · exact .inl (isGathered_of_states states mem among)
    · rw [not_or] at among
      exact .inr (states.others key value mem among.1 among.2)
  obtain ⟨keywords, only, run⟩ := run_loadMembers load location session registry each []
    (.empty (some location) draft) nofun
  obtain ⟨limit, made, holds⟩ := states.encodes.digest side.bounding.key side.excluding.key
  have missing : ∀ key : String, key ≠ side.bounding.key → key ≠ side.excluding.key →
      (∀ keyword ∈ remarks, key ≠ keyword.key) → members.lookup key = none :=
    fun key => lookup_of_states states
  have items : ((members.lookup Builtin.items.key).isSome ||
      (members.lookup Builtin.additionalItems.key).isSome) = false := by
    rw [missing _ (by cases side <;> decide) (by cases side <;> decide) (by decide),
      missing _ (by cases side <;> decide) (by cases side <;> decide) (by decide)]
    rfl
  have put : Members.put keywords side.bounding (.limit limit) =
      keywords ++ [(side.bounding, .limit limit)] :=
    Members.put_new _ (not_mem_of_remarks only (by cases side <;> decide))
  refine ⟨keywords, limit, only, holds, ?_⟩
  unfold loadKeywords
  rw [← put, run_bind_ok run, List.nil_append]
  dsimp only
  cases side with
  | lower =>
    rw [run_bind_ok (run_loadLimit_some Builtin.minimum Builtin.exclusiveMinimum made rfl _),
      run_bind_ok (run_loadLimit_none _ _ (missing _ (by decide) (by decide) (by decide))
        (missing _ (by decide) (by decide) (by decide)) _), items]
    rfl
  | upper =>
    rw [run_bind_ok (run_loadLimit_none _ _ (missing _ (by decide) (by decide) (by decide))
        (missing _ (by decide) (by decide) (by decide)) _),
      run_bind_ok (run_loadLimit_some Builtin.maximum Builtin.exclusiveMaximum made rfl _),
      items]
    rfl

/-! ## Reading -/

/-- A schema with one limit on a side, besides remarks, that holds the bounds. -/
structure HasLimit (side : Side) (location : Location) (bounds : List Bound) (schema : Schema) :
    Prop where
  made : ∃ node draft keywords limit, (∀ entry ∈ keywords, entry.1 ∈ remarks) ∧
    limit.Holds bounds ∧
    schema = .node node (some location) draft (keywords ++ [(side.bounding, .limit limit)])

/-- A schema is made of keywords and put behind a handle that is not bound. -/
theorem run_finish (session : Session) {handle : HandleId}
    (unbound : session.graph.schema? handle = none) (location : Location) (draft : Draft)
    (keywords : List (Keyword × KeywordValue)) :
    ∃ node later, (addNode location draft keywords >>= fun schema =>
      bind handle schema >>= fun _ => pure schema : Load Schema).run.run session =
        (.ok (.node node (some location) draft keywords), later) ∧
      later.report = session.report := by
  have bound : ∃ graph, (session.graph.addNode (some location) draft keywords).2.bind handle
      (.node ⟨session.graph.nextNode⟩ (some location) draft keywords) = .ok graph := by
    have pending : (session.graph.addNode (some location) draft keywords).2.schema? handle = none :=
      unbound
    unfold SchemaGraph.bind
    rw [pending]
    exact ⟨_, rfl⟩
  obtain ⟨graph, bound⟩ := bound
  refine ⟨⟨session.graph.nextNode⟩, { session with graph }, ?_, rfl⟩
  change ((bind handle (.node ⟨session.graph.nextNode⟩ (some location) draft keywords) >>=
    fun _ => pure _ : Load Schema).run.run { session with
      graph := (session.graph.addNode (some location) draft keywords).2 }) = _
  have filled : (bind handle (.node ⟨session.graph.nextNode⟩ (some location) draft
      keywords)).run.run { session with
        graph := (session.graph.addNode (some location) draft keywords).2 } =
      (.ok PUnit.unit, { session with graph }) := by
    rw [run_bind]
    dsimp only
    rw [bound]
  rw [run_bind_ok filled]
  rfl

/-- A schema can be started at a location whose URIs are known; its handle is not bound yet. -/
theorem run_start_keyed (session : Session) {keys : List String}
    (listed : location.cacheKeys = .ok keys) :
    ∃ handle begun, (start location).run.run session = (.ok handle, begun) ∧
      begun.report = session.report ∧ begun.graph.schema? handle = none := by
  refine ⟨⟨session.graph.handles.size⟩, { session with
    cache := session.cache.enter keys ⟨session.graph.handles.size⟩
    graph := (session.graph.addHandle location).2 }, ?_, rfl, ?_⟩
  · rw [run_start]
    unfold Cache.start
    rw [listed]
    rfl
  · exact SchemaGraph.schema_addHandle_new _ _

/-- Where nothing stands at a location, the object is loaded there without an issue. -/
theorem run_loadObject_states (load : NodeLoader) (session : Session)
    (registry : loader.registry = .default)
    (states : side.States draft members bounds) {keys : List String}
    (listed : location.cacheKeys = .ok keys) :
    ∃ schema later, (loadObject loader load members location draft).run.run session =
      (.ok schema, later) ∧ later.report = session.report ∧
        HasLimit side location bounds schema := by
  have ref : members.lookup Builtin.ref.key = none :=
    lookup_of_states states (by cases side <;> decide) (by cases side <;> decide) (by decide)
  have id : members.lookup draft.idKey = none :=
    lookup_of_states states (by cases side <;> cases draft <;> decide)
      (by cases side <;> cases draft <;> decide) (by cases draft <;> decide)
  obtain ⟨handle, begun, started, silent, unbound⟩ := run_start_keyed session listed
  obtain ⟨keywords, limit, only, holds, content⟩ :=
    run_loadKeywords_states load begun registry states location
  obtain ⟨node, later, run, report⟩ := run_finish begun unbound location draft
    (keywords ++ [(side.bounding, .limit limit)])
  rw [loadObject_eq, ref, id]
  dsimp only
  rw [pure_bind, run_bind_ok started, loadStarted_eq, loadContent, ref]
  dsimp only
  rw [run_bind_ok content]
  exact ⟨_, later, run, report.trans silent, ⟨node, draft, keywords, limit, only, holds, rfl⟩⟩

/-- A session that has met nothing but documents. -/
def IsFresh (session : Session) : Prop :=
  session.cache.handles = [] ∧ session.report = .empty

theorem isFresh_addDocument (uri : String) (document : Document) (draft : Draft)
    (fresh : IsFresh session) :
    IsFresh ((addDocument uri document draft).run.run session).2 := by
  change IsFresh ((check (session.cache.addDocument uri document draft) >>= _).run.run session).2
  cases added : session.cache.addDocument uri document draft with
  | ok cache =>
    obtain ⟨key, _, rfl⟩ := addDocument_eq added
    exact fresh
  | error fault => exact fresh

/-- A new session has no handles and no issues. -/
theorem isFresh_opening (loader : Loader) : IsFresh (opening loader) := by
  have kept : ∀ (entries : List (String × Document)) (session : Session), IsFresh session →
      IsFresh ((entries.forM fun entry => addDocument entry.1 entry.2
        (draftOf loader entry.2.value) : Load PUnit).run.run session).2 := by
    intro entries
    induction entries with
    | nil => exact fun _ fresh => fresh
    | cons entry entries ih =>
      intro session fresh
      have first := isFresh_addDocument entry.1 entry.2 (draftOf loader entry.2.value) fresh
      change IsFresh (((addDocument entry.1 entry.2 (draftOf loader entry.2.value)) >>= fun _ =>
        entries.forM _).run.run session).2
      cases run : (addDocument entry.1 entry.2 (draftOf loader entry.2.value)).run.run session with
      | mk result later =>
        rw [run] at first
        cases result with
        | ok _ =>
          rw [run_bind_ok run]
          exact ih later first
        | error stop =>
          rw [run_bind_error run]
          exact first
  exact kept loader.preloaded _ ⟨rfl, rfl⟩

/-- The root of a document has a URI that leads back to it. -/
theorem root_again {uri : String} {root : Location} (rooted : Location.root uri = .ok root) :
    Uri.withoutFragment uri = .ok root.documentUri ∧
      Uri.withoutFragment root.documentUri = .ok root.documentUri ∧
      Location.root root.documentUri = .ok root ∧ root.pointer = [] := by
  unfold Location.root at rooted ⊢
  obtain ⟨base, without, rooted⟩ := except_bind_ok rooted
  cases rooted
  obtain ⟨⟨front, behind⟩, split, same⟩ := except_bind_ok without
  cases same
  have plain : Uri.withoutFragment front = .ok front :=
    Uri.withoutFragment_of_plain (Uri.mark_not_mem_split split)
  refine ⟨without, plain, ?_, rfl⟩
  dsimp only
  rw [plain]
  rfl

/-- The session in which a document is known. -/
def storing (loader : Loader) (session : Session) (uri : String) (document : Document) : Session :=
  { session with
    cache := { session.cache with
      documents := Members.put session.documents uri
        ⟨document, draftOf loader document.value⟩ } }

/-- A document that is not known is stored, and its root is loaded in the draft that it names. -/
theorem run_readAt {document : Document} (depth : Cache → Nat) {uri : String} {root : Location}
    (rooted : Location.root uri = .ok root)
    (unknown : session.documents.lookup root.documentUri = none) {schema : Schema}
    {later : Session} (clean : later.report.hasErrors = false)
    (run : (loadNode loader (depth (storing loader session root.documentUri document).cache)
      document.value root (draftOf loader document.value)).run.run
        (storing loader session root.documentUri document) = (.ok schema, later)) :
    (readAt loader depth document uri).run.run session = (.ok schema, later) := by
  obtain ⟨without, plain, again, _⟩ := root_again rooted
  have known : (storing loader session root.documentUri document).documents.lookup
      root.documentUri = some ⟨document, draftOf loader document.value⟩ := by
    change (Members.put _ _ _).lookup _ = _
    rw [Members.lookup_put, if_pos rfl]
  have finished : finalize.run.run later = (.ok later.report, later) := by
    unfold finalize
    rw [run_bind_ok (show (get : Load Session).run.run later = (.ok later, later) from rfl)]
    dsimp only
    rw [clean, if_neg Bool.false_ne_true]
    rfl
  unfold readAt
  rw [run_bind_ok (run_checkUri_eq without), run_bind_ok (run_document_of_place plain), unknown]
  dsimp only
  rw [Option.isNone_none, if_pos rfl, run_bind_ok (run_addDocument_absent plain unknown _ _),
    run_bind_ok (run_checkUri_eq again)]
  have loaded : (loadWithin loader depth document root).run.run
      (storing loader session root.documentUri document) = (.ok schema, later) := by
    unfold loadWithin
    rw [run_bind_ok (run_document_of_place plain), known]
    dsimp only
    rw [pure_bind]
    exact run
  change ((loadWithin loader depth document root >>= _ : Load Schema).run.run
    (storing loader session root.documentUri document)) = _
  rw [run_bind_ok loaded, run_bind_ok finished]
  rfl

/-- A document is read at the URI of its root. -/
theorem readIn_of_rootOf {document : Document} {baseUri : Option String} {root : Location}
    (place : rootOf loader document.value baseUri = .ok root) :
    ∃ uri, Location.root uri = .ok root ∧ ∀ (depth : Cache → Nat) (session : Session),
      (readIn loader depth document baseUri).run.run session =
        (readAt loader depth document uri).run.run session := by
  unfold rootOf at place
  unfold readIn
  cases given : baseUri.filter (!·.isEmpty) with
  | some uri =>
    rw [given] at place
    exact ⟨uri, place, fun _ _ => rfl⟩
  | none =>
    rw [given] at place
    obtain ⟨uri, chosen, rooted⟩ := except_bind_ok place
    exact ⟨uri, rooted, fun depth session => run_bind_ok (run_checkUri_eq chosen)⟩

/-- A document that says nothing but the bounds of one side is read without errors, if the session
opens and has no document at its URI yet. -/
theorem run_readSchema_states (registry : loader.registry = .default) {document : Document}
    (object : document.value = .object members)
    (states : side.States (draftOf loader document.value) members bounds)
    (opened : ((newSession loader).run.run .empty).1 = .ok ()) {baseUri : Option String}
    {root : Location} (place : rootOf loader document.value baseUri = .ok root)
    (unknown : (opening loader).documents.lookup root.documentUri = none) {keys : List String}
    (listed : root.cacheKeys = .ok keys) :
    ∃ schema after, (readSchema loader document baseUri).run.run .empty = (.ok schema, after) ∧
      HasLimit side root bounds schema := by
  obtain ⟨uri, rooted, chosen⟩ := readIn_of_rootOf place
  obtain ⟨handles, report⟩ := isFresh_opening loader
  have begun : (newSession loader).run.run .empty = (.ok (), opening loader) := Prod.ext opened rfl
  have unmet : (storing loader (opening loader) root.documentUri document).cache.lookupLocation root =
      .ok none := by
    unfold Cache.lookupLocation
    rw [listed]
    refine congrArg Except.ok (List.findSome?_eq_none_iff.2 fun key _ => ?_)
    change (opening loader).cache.handles.lookup key = none
    rw [handles]
    rfl
  have depth : ∃ depth, depthBound loader
      (storing loader (opening loader) root.documentUri document).cache document.value =
        depth + 1 := ⟨_, rfl⟩
  obtain ⟨depth, enough⟩ := depth
  obtain ⟨schema, later, run, same, limit⟩ := run_loadObject_states
    (loadNode loader depth) (storing loader (opening loader) root.documentUri document) registry
    states listed
  have loaded : (loadNode loader (depthBound loader
      (storing loader (opening loader) root.documentUri document).cache document.value)
      document.value root (draftOf loader document.value)).run.run
        (storing loader (opening loader) root.documentUri document) = (.ok schema, later) := by
    rw [enough]
    unfold loadNode nodeWith
    rw [object] at run ⊢
    dsimp only
    rw [run_bind_ok (run_lookupLocation_eq unmet)]
    exact run
  have clean : later.report.hasErrors = false := by
    rw [same]
    change (opening loader).report.hasErrors = false
    rw [report]
    rfl
  have read : (reading loader (depthBound loader · document.value) document baseUri).run.run
      .empty = (.ok schema, later) := by
    unfold reading
    rw [run_bind_ok begun, chosen]
    exact run_readAt _ rooted unknown clean loaded
  have after : ∃ after, (readSchema loader document baseUri).run.run .empty =
      (.ok schema, after) := by
    rw [readSchema_eq, read]
    exact ⟨_, rfl⟩
  obtain ⟨after, run⟩ := after
  exact ⟨schema, after, run, limit⟩

end Load

/-! ## Compiling -/

namespace Compile

variable {side : Side} {bounds : List Bound} {location : Location} {schema : Schema} {key : String}

/-- A computation over a list that never fails and changes nothing. -/
theorem mapM_pure {α β : Type} {act : α → Compile β} {f : α → β} {xs : List α}
    (each : ∀ x ∈ xs, act x = pure (f x)) : xs.mapM act = pure (xs.map f) := by
  induction xs with
  | nil => rfl
  | cons x xs ih =>
    rw [List.mapM_cons, each x List.mem_cons_self, pure_bind,
      ih fun x mem => each x (List.mem_cons_of_mem _ mem), pure_bind]
    rfl

/-- The check of a limit at the place of a schema. -/
def limitCheck (side : Side) (key : String) (limit : Limit) : Check where
  keyword := some side.bounding
  location := Place.join key [side.bounding.key]
  rule := side.rule limit

theorem isAlwaysInvalid_limit {node : SchemaId} {draft : Draft} {keyword : Keyword}
    {keywords : List (Keyword × KeywordValue)} {limit : Limit} :
    (Schema.node node (some location) draft (keywords ++ [(keyword, .limit limit)])).isAlwaysInvalid
      = false := by
  cases keywords with
  | nil => rfl
  | cons first rest =>
    obtain ⟨_, value⟩ := first
    cases rest <;> cases value <;> rfl

/-- A remark has no check. -/
theorem checkOf_remark {compiler : Compiler} {graph : SchemaGraph} {recur : SchemaCompiler}
    {keyword : Keyword} (remark : keyword ∈ remarks) (value : KeywordValue) :
    checkOf compiler graph recur schema key keyword value = pure none := by
  simp only [remarks, List.mem_cons, List.not_mem_nil, or_false] at remark
  rcases remark with rfl | rfl | rfl <;> rfl

theorem checkOf_limit {compiler : Compiler} {graph : SchemaGraph} {recur : SchemaCompiler}
    (side : Side) (limit : Limit) :
    checkOf compiler graph recur schema key side.bounding (.limit limit) =
      pure (some (limitCheck side key limit)) := by
  cases side <;> rfl

/-- The checks of a schema that has one limit besides remarks. -/
theorem checksOf_limit {compiler : Compiler} {graph : SchemaGraph} {recur : SchemaCompiler}
    {node : SchemaId} {draft : Draft} {keywords : List (Keyword × KeywordValue)}
    (only : ∀ entry ∈ keywords, entry.1 ∈ remarks) (limit : Limit) :
    checksOf compiler graph recur
      (.node node (some location) draft (keywords ++ [(side.bounding, .limit limit)])) key =
      pure [limitCheck side key limit] := by
  have other : side.bounding ∉ remarks := by cases side <;> decide
  unfold checksOf
  rw [isAlwaysInvalid_limit, if_neg Bool.false_ne_true]
  change (((keywords ++ [(side.bounding, KeywordValue.limit limit)]).mapM _) >>= _) = _
  rw [mapM_pure (f := fun entry : Keyword × KeywordValue =>
    if entry.1 ∈ remarks then none else some (limitCheck side key limit)), pure_bind,
    List.map_append, List.map_congr_left (g := fun _ => none)]
  · simp [other, List.filterMap_append]
  · intro entry mem
    exact if_pos (only entry mem)
  · intro entry mem
    rcases List.mem_append.1 mem with remark | last
    · rw [if_pos (only entry remark)]
      exact checkOf_remark (only entry remark) _
    · rw [List.mem_singleton.1 last, if_neg other]
      exact checkOf_limit side limit

/-- A schema that has one limit besides remarks is compiled to one check. -/
theorem ofSchema_limit (compiler : Compiler) (graph : SchemaGraph)
    (has : Load.HasLimit side location bounds schema) (absolute : location.absoluteUri = .ok key) :
    ∃ limit, limit.Holds bounds ∧ CompiledSchema.ofSchema compiler graph schema =
      .ok ⟨#[⟨key, some [limitCheck side key limit]⟩], ⟨0⟩⟩ := by
  obtain ⟨node, draft, keywords, limit, only, holds, rfl⟩ := has.made
  refine ⟨limit, holds, ?_⟩
  have run : (Compile.schema compiler graph (.node node (some location) draft
      (keywords ++ [(side.bounding, .limit limit)]))).run.run .empty =
      (.ok ⟨0⟩, ⟨#[⟨key, some [limitCheck side key limit]⟩], [(node, ⟨0⟩)]⟩) := by
    unfold Compile.schema schemaWithin
    rw [schemaWith_eq]
    have located : (check (location.absoluteUri.mapError .badUri) : Compile String).run.run .empty =
        (.ok key, .empty) := by
      rw [absolute]
      rfl
    change ((check (location.absoluteUri.mapError .badUri) >>= fun location =>
      placeAt compiler graph _ _ location).run.run Compilation.empty) = _
    rw [run_bind_ok located]
    unfold placeAt
    rw [run_bind_ok (run_enter _ key .empty), checksOf_limit only, pure_bind,
      run_bind_ok (run_fill_apply _ rfl)]
    rfl
  unfold CompiledSchema.ofSchema
  rw [run]

end Compile

/-! ## Validating -/

/-- The complaint of a limit about a number that violates one of its bounds. -/
def Side.leaf (side : Side) (key : String) (n : Number) (bound : Bound) : Violation :=
  .mk "#" (Place.join key [side.bounding.key]) (some side.bounding.key)
    (.keyword side.bounding.key)
    (side.complaint (.number n) (.number bound.number) bound.exclusive) []

/-- A limit complains about the first of its bounds that a number violates. -/
theorem Limit.Holds.evaluate {limit : Limit} {bounds : List Bound} (holds : limit.Holds bounds)
    {n : Number} (compares : ∀ bound ∈ bounds, n.compares bound.number = true) (side : Side)
    (key : String) :
    JsonSchema.evaluate #[⟨key, some [Compile.limitCheck side key limit]⟩] ⟨0⟩ (.number n) =
      .ok ((bounds.find? (side.violates n)).map (side.leaf key n)).toList := by
  obtain ⟨depth, enough⟩ : ∃ depth, evaluationBound
      #[⟨key, some [Compile.limitCheck side key limit]⟩] (.number n) = depth + 1 := ⟨_, rfl⟩
  have applies : (Compile.limitCheck side key limit).applies (.root (.number n)) = .ok true := by
    change Except.ok (side.bounding.appliesToType (if n.isIntegral then .integer else .number)) = _
    cases n.isIntegral <;> cases side <;> rfl
  have ran : ∀ evaluate refer, (Compile.limitCheck side key limit).run evaluate refer
      (.root (.number n)) = .ok ((bounds.find? (side.violates n)).map (side.leaf key n)).toList := by
    intro evaluate refer
    have found := holds.violation_side compares side
    have limited : (Compile.limitCheck side key limit).run evaluate refer (.root (.number n)) =
        (Compile.limitCheck side key limit).runLimit (side.violation limit) side.complaint
          (.root (.number n)) := by
      cases side <;> rfl
    rw [limited]
    unfold Check.runLimit
    change (side.violation limit n >>= _) = _
    rw [found]
    cases bounds.find? (side.violates n) with
    | none => rfl
    | some bound => cases side <;> rfl
  have whole : ∀ evaluate refer, Validator.evaluateWith evaluate refer
      ⟨key, some [Compile.limitCheck side key limit]⟩ (.root (.number n)) =
      .ok ((bounds.find? (side.violates n)).map (side.leaf key n)).toList := by
    intro evaluate refer
    simp only [Validator.evaluateWith, Validator.checkList, Option.getD_some, Check.together,
      Check.verdicts, List.mapM_cons, List.mapM_nil, applies, ran, if_true, bind,
      Except.bind]
    cases bounds.find? (side.violates n) <;> rfl
  unfold JsonSchema.evaluate
  rw [enough]
  exact whole _ _

namespace Load

/-- The URI of the root of a document is its only key. -/
theorem root_cacheKeys {uri key : String} {root : Location} (rooted : Location.root uri = .ok root)
    (absolute : root.absoluteUri = .ok key) : root.cacheKeys = .ok [key] := by
  unfold Location.root at rooted
  obtain ⟨base, -, rooted⟩ := except_bind_ok rooted
  cases rooted
  have normal : Uri.normalize (base ++ Location.fragmentOf []) = .ok key := absolute
  unfold Location.cacheKeys Location.canonicalUri Location.identifierUri Location.absoluteUri
    Location.fragment
  dsimp only
  rw [normal]
  change Except.ok (let keys := if key = key then [key] else [key, key]
    if keys.contains key then keys else keys ++ [key]) = _
  simp

/-- Limits mean the same in all encodings. A document that states bounds of one side, as its draft
writes them, is read and compiled without errors, and the schema accepts the numbers that all bounds
admit, by exact value whatever the kinds of the numbers. The report on any other number has one leaf,
which names a bound that the number violates and whether this bound is exclusive. -/
theorem readSchema_limits {loader : Loader} (registry : loader.registry = .default)
    (opened : ((newSession loader).run.run .empty).1 = .ok ()) {document : Document}
    {members : List (String × Json)} (object : document.value = .object members) {side : Side}
    {bounds : List Bound}
    (states : side.States (draftOf loader document.value) members bounds)
    (placed : ∀ bound ∈ bounds, bound.number.exactValue?.isSome) {baseUri : Option String}
    {root : Location} (place : rootOf loader document.value baseUri = .ok root)
    (unknown : (opening loader).documents.lookup root.documentUri = none) {key : String}
    (absolute : root.absoluteUri = .ok key) (compiler : Compiler) :
    ∃ schema after compiled,
      (readSchema loader document baseUri).run.run .empty = (.ok schema, after) ∧
      CompiledSchema.ofSchema compiler after.graph schema = .ok compiled ∧
      ∀ n : Number, n.exactValue?.isSome → ∃ report, compiled.validate (.number n) = .ok report ∧
        (report.isValid = true ↔ ∀ bound ∈ bounds, side.Admits bound n) ∧
        (report.isValid = false → ∃ bound ∈ bounds, ¬ side.Admits bound n ∧
          report.leaves = [side.leaf key n bound]) := by
  obtain ⟨uri, rooted, -⟩ := readIn_of_rootOf place
  obtain ⟨schema, after, run, has⟩ := run_readSchema_states registry object states opened place
    unknown (root_cacheKeys rooted absolute)
  obtain ⟨limit, holds, compiled⟩ := Compile.ofSchema_limit compiler after.graph has absolute
  refine ⟨schema, after, _, run, compiled, fun n numeric => ?_⟩
  have compares : ∀ bound ∈ bounds, n.compares bound.number = true :=
    fun bound mem => Number.compares_of_exact numeric (placed bound mem)
  have violates : ∀ bound ∈ bounds, (side.violates n bound = true ↔ ¬ side.Admits bound n) :=
    fun bound mem => side.violates_iff (placed bound mem) numeric
  refine ⟨⟨((bounds.find? (side.violates n)).map (side.leaf key n)).toList⟩, ?_, ?_⟩
  · unfold CompiledSchema.validate
    rw [holds.evaluate compares side key]
    rfl
  · cases found : bounds.find? (side.violates n) with
    | none =>
      refine ⟨iff_of_true rfl fun bound mem => ?_, nofun⟩
      have inside := List.find?_eq_none.1 found bound mem
      rwa [violates bound mem, not_not] at inside
    | some bound =>
      have mem := List.mem_of_find?_eq_some found
      have outside := (violates bound mem).1 (List.find?_some found)
      exact ⟨iff_of_false Bool.false_ne_true fun admits => outside (admits bound mem),
        fun _ => ⟨bound, mem, outside, rfl⟩⟩

/-- A document of draft 4 with a bound that is no double. -/
def tenth : Document where
  id := ⟨0⟩
  value := .object [("exclusiveMinimum", .bool true),
    ("$schema", .string "http://json-schema.org/draft-04/schema#"),
    ("minimum", .number (.decimal (.finite false 1 (-1))))]

theorem states_tenth : Side.lower.States .draft4
    [("exclusiveMinimum", .bool true),
      ("$schema", .string "http://json-schema.org/draft-04/schema#"),
      ("minimum", .number (.decimal (.finite false 1 (-1))))]
    [⟨.decimal (.finite false 1 (-1)), true⟩] where
  distinct := by decide
  encodes := .flagged (by decide) _ true
  others key value mem first second := by
    simp only [List.mem_cons, Prod.mk.injEq, List.not_mem_nil, or_false] at mem
    rcases mem with ⟨rfl, _⟩ | ⟨rfl, rfl⟩ | ⟨rfl, _⟩
    · exact absurd rfl second
    · exact ⟨Builtin.schemaUri, by decide, rfl, _, rfl⟩
    · exact absurd rfl first

/-- The double nearest to a tenth lies above it, and the tenth itself is excluded. -/
theorem tenth_limits : ∃ schema after compiled,
    (readSchema Linked.loader tenth (some Linked.root.documentUri)).run.run .empty =
      (.ok schema, after) ∧
    CompiledSchema.ofSchema .default after.graph schema = .ok compiled ∧
    compiled.isValid (.number (.double (.ofDecimal false 1 (-1)))) = .ok true ∧
    ∃ report, compiled.validate (.number (.decimal (.finite false 10 (-2)))) = .ok report ∧
      report.leaves = [Side.lower.leaf "http://e.com/list.json" (.decimal (.finite false 10 (-2)))
        ⟨.decimal (.finite false 1 (-1)), true⟩] := by
  have placed : ∀ bound ∈ [(⟨.decimal (.finite false 1 (-1)), true⟩ : Bound)],
      bound.number.exactValue?.isSome := by
    decide +kernel
  obtain ⟨schema, after, compiled, run, made, verdict⟩ := @readSchema_limits Linked.loader rfl
    rfl tenth _ rfl _ _ states_tenth placed (some Linked.root.documentUri) Linked.root
    (toOption_ok (by decide +kernel)) rfl "http://e.com/list.json"
    (toOption_ok (by decide +kernel)) .default
  have admits : ∀ n : Number, n.exactValue?.isSome → ((∀ bound ∈
      [(⟨.decimal (.finite false 1 (-1)), true⟩ : Bound)], Side.lower.Admits bound n) ↔
        Side.lower.violates n ⟨.decimal (.finite false 1 (-1)), true⟩ = false) := by
    intro n numeric
    rw [List.forall_mem_singleton, ← not_iff_not, Bool.not_eq_false,
      Side.lower.violates_iff (placed _ List.mem_cons_self) numeric]
  refine ⟨schema, after, compiled, run, made, ?_, ?_⟩
  · have numeric : (Number.double (.ofDecimal false 1 (-1))).exactValue?.isSome := by decide +kernel
    obtain ⟨report, reported, accepts, -⟩ := verdict _ numeric
    have valid := accepts.2 ((admits _ numeric).2 (by decide +kernel))
    unfold CompiledSchema.isValid
    rw [reported]
    exact congrArg Except.ok valid
  · have numeric : (Number.decimal (.finite false 10 (-2))).exactValue?.isSome := by decide +kernel
    obtain ⟨report, reported, accepts, leaf⟩ := verdict _ numeric
    have invalid : report.isValid = false := by
      rw [← Bool.not_eq_true, accepts, admits _ numeric]
      decide +kernel
    obtain ⟨bound, mem, -, leaves⟩ := leaf invalid
    rw [List.mem_singleton.1 mem] at leaves
    exact ⟨report, reported, leaves⟩

end Load

end JsonSchema
