import JsonSchema.Proofs.Loading

/-!
# Whole sessions

A session loads documents one after the other. The depth that `Load.load` allows is more than the
number of values in reach, so there is always room. It follows how reading a schema can end
(`Load.readSchema_ends`), and that the schemas of a session lead to bound handles only, unless a
fault of a URI was recorded as an issue of a keyword value (`Load.references_bound`).
-/

namespace JsonSchema

/-! ## Loaders -/

/-- A loader as its operations make it: with the keywords of the drafts, documents that are proper
JSON values, and preloaded documents under distinct URIs without fragment. -/
structure Loader.IsReady (loader : Loader) : Prop where
  registry : loader.registry = .default
  served : ∀ uri document, loader.client.fetch uri = .ok document → document.value.IsProper
  distinct : (Members.keys loader.preloaded).Nodup
  places : ∀ entry ∈ loader.preloaded, Uri.withoutFragment entry.1 = .ok entry.1
  values : ∀ entry ∈ loader.preloaded, entry.2.value.IsProper

namespace Load

theorem isReady_new (options : Options) {client : DocumentClient}
    (served : ∀ uri document, client.fetch uri = .ok document → document.value.IsProper) :
    Loader.IsReady { options, registry := .default, client, preloaded := [] } :=
  ⟨rfl, served, List.nodup_nil, nofun, nofun⟩

/-- Preloading keeps a loader ready. -/
theorem isReady_preload {loader loader' : Loader} (ready : loader.IsReady) {uri : String}
    {document : Document} (proper : document.value.IsProper)
    (ok : preload loader uri document = .ok loader') : loader'.IsReady := by
  unfold preload at ok
  obtain ⟨_, _, ok⟩ := except_bind_ok ok
  obtain ⟨absolute, _, ok⟩ := except_bind_ok ok
  split at ok
  · cases ok
  · obtain ⟨place, without, ok⟩ := except_bind_ok ok
    have fixed := Uri.withoutFragment_eq (mapError_ok without)
    cases ok
    refine ⟨ready.registry, ready.served, Members.nodup_put place document ready.distinct, ?_, ?_⟩
    · intro entry mem
      rcases Members.mem_put mem with rfl | old
      · exact fixed
      · exact ready.places entry old
    · intro entry mem
      rcases Members.mem_put mem with rfl | old
      · exact proper
      · exact ready.values entry old

/-! ## Room -/

theorem isKeyed_univ (documentUri : String) (base : Pointer) (value : Json) :
    value.IsKeyed Set.univ documentUri base :=
  fun key _ => Set.mem_univ key

/-- A world without demands on the keys. -/
def plain {keys : Set String} (w : World keys) : World Set.univ where
  session := w.session
  sound := ⟨w.sound.graph, w.sound.entries, w.sound.places, w.sound.values,
    fun _ _ => isKeyed_univ _ _ _⟩

theorem ends_plain {α : Type} {keys : Set String} {w : World keys} {act : Load α}
    {P : α → Nat → Prop} (h : Ends act w (fun a w' => P a w'.size)) :
    Ends act (plain w) (fun a w' => P a w'.size) := by
  cases run : act.run.run w.session with
  | mk result s =>
    cases result with
    | ok a =>
      obtain ⟨w', up, rfl, holds⟩ := h.of_ok run
      have up' : plain w ≤ plain w' := up
      exact after_of_ok run up' rfl holds
    | error stop =>
      obtain ⟨w', same, extended, allowed⟩ := h.of_error run
      exact after_of_error run ⟨plain w', same, extended, allowed⟩

/-- The URIs of the values that the client may serve at a URI. -/
def servedKeys : String × Except String Document → List String
  | (uri, .ok document) =>
    match Uri.withoutFragment uri with
    | .ok key => document.value.keys key []
    | .error _ => []
  | _ => []

/-- The URIs of all values that loading a value can come to. -/
def reach (loader : Loader) (cache : Cache) (value : Json) (location : Location) : List String :=
  value.keys location.documentUri location.pointer
    ++ cache.documents.flatMap (fun entry => entry.2.document.value.keys entry.1 [])
    ++ loader.client.answers.flatMap servedKeys

/-- Parts are not longer together than a sum that takes each of them in. -/
theorem length_flatMap_le {α β : Type} (parts : α → List β) (add : Nat → α → Nat)
    (part : ∀ total x, total + (parts x).length ≤ add total x) (xs : List α) (init : Nat) :
    init + (xs.flatMap parts).length ≤ xs.foldl add init := by
  induction xs generalizing init with
  | nil => exact Nat.le_refl _
  | cons x rest ih =>
    have here := part init x
    have later := ih (add init x)
    rw [List.flatMap_cons, List.length_append, List.foldl_cons]
    omega

theorem length_reach (loader : Loader) (cache : Cache) (value : Json) (location : Location) :
    (reach loader cache value location).length < depthBound loader cache value := by
  have own := value.length_keys location.documentUri location.pointer
  have stored : 0 + _ ≤ cache.documentSize :=
    length_flatMap_le (fun entry => entry.2.document.value.keys entry.1 []) _
      (fun total entry => Nat.add_le_add_left (Json.length_keys _ _ _) total) cache.documents 0
  have served : 0 + (loader.client.answers.flatMap servedKeys).length ≤ loader.client.size := by
    refine length_flatMap_le servedKeys _ (fun total entry => ?_) loader.client.answers 0
    obtain ⟨uri, answer⟩ := entry
    cases answer with
    | error reason => exact Nat.le_refl _
    | ok document =>
      unfold servedKeys
      dsimp only
      split
      · exact Nat.add_le_add_left (Json.length_keys _ _ _) total
      · exact Nat.le_add_right _ _
  unfold reach depthBound
  rw [List.length_append, List.length_append]
  omega

/-- The stored documents have their keys in reach. -/
theorem keyed_stored (loader : Loader) {cache : Cache} (value : Json) (location : Location)
    {entry : String × StoredDocument} (mem : entry ∈ cache.documents) :
    entry.2.document.value.IsKeyed (· ∈ reach loader cache value location) entry.1 [] := by
  intro key inside
  refine List.mem_append_left _ (List.mem_append_right _ ?_)
  exact List.mem_flatMap.2 ⟨entry, mem, inside⟩

/-- The documents that may be fetched have their keys in reach. -/
theorem keyed_served {loader : Loader} (cache : Cache) (value : Json) (location : Location)
    {uri key : String} {document : Document} (served : loader.client.fetch uri = .ok document)
    (place : Uri.withoutFragment uri = .ok key) :
    document.value.IsKeyed (· ∈ reach loader cache value location) key [] := by
  intro other inside
  have answer : (uri, .ok document) ∈ loader.client.answers := by
    unfold DocumentClient.fetch at served
    cases found : loader.client.answers.lookup uri with
    | none =>
      rw [found] at served
      cases served
    | some answer =>
      rw [found] at served
      have same : answer = .ok document := served
      exact same ▸ Members.mem_of_lookup found
  have listed : other ∈ servedKeys (uri, .ok document) := by
    unfold servedKeys
    dsimp only
    rw [place]
    exact inside
  exact List.mem_append_right _ (List.mem_flatMap.2 ⟨_, answer, listed⟩)

/-- Seen with all URIs in reach as keys, a session has room for the depth that loading allows. -/
theorem exists_room (w : World Set.univ) (loader : Loader) (value : Json) (location : Location) :
    ∃ w' : World (· ∈ reach loader w.session.cache value location),
      w'.session = w.session ∧ w'.HasRoom (depthBound loader w.session.cache value) := by
  refine ⟨⟨w.session, w.sound.graph, w.sound.entries, w.sound.places, w.sound.values,
    fun _ mem => keyed_stored loader value location mem⟩, rfl, _,
    length_reach loader w.session.cache value location, fun key mem _ => mem⟩

theorem serves_reach {loader : Loader} (ready : loader.IsReady) (cache : Cache) (value : Json)
    (location : Location) : Serves (· ∈ reach loader cache value location) loader :=
  fun uri document _ served place =>
    ⟨ready.served uri document served, keyed_served cache value location served place⟩

/-! ## A list -/

namespace Linked

/-- A document whose one property refers back to it. -/
def document : Document where
  id := ⟨0⟩
  value := .object [("properties", .object [("next", .object [("$ref", .string "#")])])]

/-- A loader that knows no further documents. -/
def loader : Loader where
  options := .default
  registry := .default
  client := ⟨[]⟩
  preloaded := []

/-- The root of the document. -/
def root : Location where
  documentUri := "http://e.com/list.json"
  pointer := []
  scope := "http://e.com/list.json"
  idBase := "http://e.com/list.json"
  idPointer := []
  declaredId := none

/-- A session that loads the document. -/
@[irreducible]
def loading : Except Stop (List Schema) × Session :=
  (do
    newSession loader
    [(document, root)].mapM fun (document, location) => load loader document location :
      Load (List Schema)).run.run .empty

/-- Reading the document in a session of its own. -/
@[irreducible]
def reading : Except Stop Schema × Session :=
  (readSchema loader document (some "http://e.com/list.json")).run.run .empty

theorem isReady : loader.IsReady :=
  isReady_new .default (fun _ _ served => nomatch served)

theorem isProper : document.value.IsProper := by
  refine ⟨by decide, ⟨⟨by decide, ⟨⟨by decide, trivial, trivial⟩, trivial⟩⟩, trivial⟩⟩

end Linked

/-! ## Loading documents -/

variable {loader : Loader} {w : World Set.univ}

/-- A document can be loaded at any location of a session. -/
theorem after_load (ready : loader.IsReady) {document : Document} (proper : document.value.IsProper)
    (location : Location) :
    Ends (load loader document location) w (fun schema w' => schema.IsWithin w'.size) := by
  have walked : ∀ (w : World Set.univ) (draft : Draft), Ends (do
      let depth := depthBound loader (← get).cache document.value
      loadNode loader depth document.value location draft) w
      (fun schema w' => schema.IsWithin w'.size) := by
    intro w draft
    refine after_get_bind ?_
    obtain ⟨w', same, room⟩ := exists_room w loader document.value location
    have keyed : document.value.IsKeyed (· ∈ reach loader w.session.cache document.value location)
        location.documentUri location.pointer :=
      fun key inside => List.mem_append_left _ (List.mem_append_left _ inside)
    have serves := serves_reach ready w.session.cache document.value location
    have loaded := ends_plain (P := fun (schema : Schema) size => schema.IsWithin size)
      (after_loadNode ready.registry serves _ w' document.value location draft room proper keyed)
    have back : plain w' = w := by
      cases w
      cases w'
      cases same
      rfl
    rw [back] at loaded
    exact loaded
  unfold load
  refine after_bind (after_document location.documentUri) ?_
  rintro found w₁ _ ⟨rfl, key, place, absent⟩
  cases found with
  | some stored => exact walked w₁ stored.draft
  | none =>
    dsimp only
    split
    · refine after_bind (after_addDocument place absent proper (isKeyed_univ _ _ _)) ?_
      exact fun _ w₂ _ _ => walked w₂ _
    · exact walked w₁ _

/-! ## Whole sessions -/

theorem after_preloaded {entries : List (String × Document)}
    (unknown : ∀ entry ∈ entries, w.session.cache.documents.lookup entry.1 = none)
    (distinct : (Members.keys entries).Nodup)
    (places : ∀ entry ∈ entries, Uri.withoutFragment entry.1 = .ok entry.1)
    (values : ∀ entry ∈ entries, entry.2.value.IsProper) :
    Ends (entries.forM fun (uri, document) =>
      addDocument uri document (draftOf loader document.value)) w (fun _ _ => True) := by
  induction entries generalizing w with
  | nil => exact after_pure trivial
  | cons first rest ih =>
    obtain ⟨uri, document⟩ := first
    obtain ⟨outside, distinct⟩ := List.nodup_cons.1 distinct
    change Ends (addDocument uri document (draftOf loader document.value) >>= fun _ =>
      rest.forM _) w _
    refine after_bind (after_addDocument (places _ List.mem_cons_self)
      (unknown _ List.mem_cons_self) (values _ List.mem_cons_self) (isKeyed_univ _ _ _)) ?_
    rintro _ w₁ _ ⟨_, others⟩
    refine ih (fun entry mem => ?_) distinct
      (fun entry mem => places entry (List.mem_cons_of_mem _ mem))
      (fun entry mem => values entry (List.mem_cons_of_mem _ mem))
    have different : entry.1 ≠ uri := by
      rintro rfl
      exact outside (List.mem_map.2 ⟨entry, mem, rfl⟩)
    rw [others entry.1 different]
    exact unknown entry (List.mem_cons_of_mem _ mem)

/-- The world of a session that begins. -/
def fresh (session : Session) (sound : session.graph.IsSound) : World Set.univ where
  session := { session with cache := .empty, report := .empty }
  sound := ⟨sound, nofun, nofun, nofun, nofun⟩

/-- What a new session is used for runs from the world of a session that begins. -/
theorem outcome_newSession {α : Type} (ready : loader.IsReady) {session : Session}
    (sound : session.graph.IsSound) {next : Load α} {Q : α → World Set.univ → Prop}
    (rest : ∀ w, Ends next w Q) :
    Outcome World.session World.Stops (fresh session sound) Q
      ((do newSession loader; next : Load α).run.run session) := by
  have preloaded : Ends (loader.preloaded.forM fun (uri, document) =>
      addDocument uri document (draftOf loader document.value)) (fresh session sound)
      (fun _ _ => True) :=
    after_preloaded (fun _ _ => rfl) ready.distinct ready.places ready.values
  have whole := after_bind preloaded (fun _ w' _ _ => rest w')
  unfold After at whole
  exact whole

/-- A session is finished only if its report has no errors. -/
theorem after_finalize :
    Ends finalize w (fun _ w' => w'.session.report.hasErrors = false) := by
  unfold finalize
  refine after_get_bind ?_
  dsimp only
  split
  · next errors => exact after_throw ⟨w, rfl, .refl _, errors⟩
  · next clean => exact after_pure (Bool.eq_false_iff.2 clean)

/-- A schema was read without errors. -/
def IsRead (schema : Schema) (w : World Set.univ) : Prop :=
  w.session.report.hasErrors = false ∧ schema.IsWithin w.size

/-- Reading a schema in a session of its own, which has no errors when it ends with the schema. -/
theorem outcome_reading (ready : loader.IsReady) {document : Document}
    (proper : document.value.IsProper) (baseUri : Option String) {session : Session}
    (sound : session.graph.IsSound) :
    ∃ reading : Load Schema,
      (readSchema loader document baseUri).run.run session =
        ((reading.run.run session).1, { session with
          graph := (reading.run.run session).2.graph
          fetched := (reading.run.run session).2.fetched }) ∧
      Outcome World.session World.Stops (fresh session sound) IsRead (reading.run.run session) := by
  have finished : ∀ (uri : String) (w : World Set.univ), Ends (do
      let schema ← load loader document (← checkUri (Location.root uri))
      let _ ← finalize
      return schema) w IsRead := by
    intro uri w
    refine after_checkUri_bind (fun location _ => ?_)
    refine after_bind (after_load ready proper location) (fun schema w₁ _ within => ?_)
    refine after_bind after_finalize (fun _ w₂ up clean => after_pure ⟨clean, ?_⟩)
    exact within.mono (World.size_le up)
  have read : ∀ (uri : String) (w : World Set.univ), Ends (do
      let uri ← checkUri (Uri.withoutFragment uri)
      if (← document? uri).isNone then addDocument uri document (draftOf loader document.value)
      let schema ← load loader document (← checkUri (Location.root uri))
      let _ ← finalize
      return schema) w IsRead := by
    intro uri w
    refine after_checkUri_bind (fun place _ => ?_)
    refine after_bind (after_document place) ?_
    rintro found w₁ _ ⟨rfl, key, without, absent⟩
    dsimp only
    split
    · next unknown =>
      rw [Option.isNone_iff_eq_none.1 unknown] at absent
      refine after_bind (after_addDocument without absent proper (isKeyed_univ _ _ _)) ?_
      exact fun _ w₂ _ _ => finished place w₂
    · exact finished place w₁
  refine ⟨_, rfl, outcome_newSession ready sound (fun w => ?_)⟩
  split
  · exact read _ w
  · exact after_checkUri_bind (fun uri _ => read uri w)

/-! ## Ends of sessions -/

/-- An identifier that is no URI ends the session without a report. -/
example : (match ((readSchema Linked.loader
    ⟨⟨0⟩, .object [("$id", .string "http://[bad")]⟩ none).run.run .empty).1 with
    | .error (.fault (.badUri _)) => true
    | _ => false) = true := by
  decide +kernel

/-- A schema that was read leaves no handle unbound, and refers to handles that there are. -/
theorem exists_read_world (ready : loader.IsReady) {document : Document}
    (proper : document.value.IsProper) {baseUri : Option String} {schema : Schema}
    {after : Session}
    (run : (readSchema loader document baseUri).run.run .empty = (.ok schema, after)) :
    ∃ w : World Set.univ, w.session.graph = after.graph ∧ w.session.graph.IsBound ∧
      schema.IsWithin w.size := by
  have empty : Session.empty.graph.IsSound := fun _ _ found => nomatch found
  obtain ⟨reading, same, outcome⟩ := outcome_reading ready proper baseUri empty
  rw [same] at run
  cases whole : reading.run.run .empty with
  | mk result inner =>
    rw [whole] at run outcome
    cases run
    obtain ⟨w, up, rfl, clean, within⟩ := outcome
    refine ⟨w, rfl, ?_, within⟩
    rcases up.2 with settled | broken
    · exact fun id inside => settled id (Nat.zero_le _) inside
    · rw [broken.hasErrors] at clean
      cases clean

theorem isBound_readSchema (ready : loader.IsReady) {document : Document}
    (proper : document.value.IsProper) {baseUri : Option String} {schema : Schema}
    {after : Session}
    (run : (readSchema loader document baseUri).run.run .empty = (.ok schema, after)) :
    after.graph.IsBound := by
  obtain ⟨w, same, bound, _⟩ := exists_read_world ready proper run
  rw [← same]
  exact bound

/-- What a schema that was read leads to refers to bound handles. -/
theorem references_bound_readSchema (ready : loader.IsReady) {document : Document}
    (proper : document.value.IsProper) {baseUri : Option String} {schema other : Schema}
    {after : Session}
    (run : (readSchema loader document baseUri).run.run .empty = (.ok schema, after))
    (leads : Relation.ReflTransGen (Schema.LeadsTo after.graph) schema other) {target : HandleId}
    (refers : other.RefersTo target) : (after.graph.schema? target).isSome := by
  obtain ⟨w, same, bound, within⟩ := exists_read_world ready proper run
  rw [← same] at leads ⊢
  exact bound_of_leads w.sound.graph bound within leads refers

/-- A session that ends without an error about a URI has bound every handle. -/
theorem exists_bound_world (ready : loader.IsReady) {requests : List (Document × Location)}
    (proper : ∀ request ∈ requests, request.1.value.IsProper) {schemas : List Schema}
    {session : Session}
    (run : (do
      newSession loader
      requests.mapM fun (document, location) => load loader document location :
        Load (List Schema)).run.run .empty = (.ok schemas, session))
    (whole : ¬ session.IsBroken) :
    ∃ w : World Set.univ, w.session = session ∧ session.graph.IsBound ∧
      ∀ schema ∈ schemas, schema.IsWithin w.size := by
  have sound : Session.empty.graph.IsSound := by
    intro id schema found
    cases found
  have loaded : ∀ w : World Set.univ, Ends
      (requests.mapM fun (document, location) => load loader document location) w
      (fun schemas w' => ∀ schema ∈ schemas, schema.IsWithin w'.size) := by
    intro w
    refine after_each id requests (fun request mem w' _ => ?_)
    exact after_load ready (proper request mem) request.2
  have outcome := outcome_newSession ready sound loaded
  rw [run] at outcome
  obtain ⟨w, up, rfl, within⟩ := outcome
  refine ⟨w, rfl, ?_, within⟩
  rcases up.2 with settled | broken
  · exact fun id inside => settled id (Nat.zero_le _) inside
  · exact absurd broken whole

/-- The schemas of a session that ends without a recorded fault of a URI lead to bound handles
only. -/
theorem references_bound (ready : loader.IsReady) {requests : List (Document × Location)}
    (proper : ∀ request ∈ requests, request.1.value.IsProper) {schemas : List Schema}
    {session : Session}
    (run : (do
      newSession loader
      requests.mapM fun (document, location) => load loader document location :
        Load (List Schema)).run.run .empty = (.ok schemas, session))
    (clean : ¬ session.IsSpoiled) :
    (∀ entry ∈ session.cache.handles, (session.graph.schema? entry.2).isSome) ∧
    ∀ schema ∈ schemas,
      (∀ other, Relation.ReflTransGen (Schema.LeadsTo session.graph) schema other →
        ∀ target, other.RefersTo target → (session.graph.schema? target).isSome) ∧
      ∀ compiler uri,
        CompiledSchema.ofSchema compiler session.graph schema ≠ .error (.unresolved uri) := by
  obtain ⟨w, rfl, bound, within⟩ :=
    exists_bound_world ready proper run (fun broken => clean broken.isSpoiled)
  refine ⟨fun entry mem => bound entry.2 (w.sound.entries entry mem), fun schema mem => ?_⟩
  have targets : ∀ other, Relation.ReflTransGen (Schema.LeadsTo w.session.graph) schema other →
      ∀ target, other.RefersTo target → (w.session.graph.schema? target).isSome :=
    fun other leads target refers =>
      bound_of_leads w.sound.graph bound (within schema mem) leads refers
  exact ⟨targets, fun compiler uri => ofSchema_ne_unresolved targets uri⟩

theorem linked_references_bound : ∃ schemas session, Linked.loading = (.ok schemas, session) ∧
    ∀ entry ∈ session.cache.handles, (session.graph.schema? entry.2).isSome := by
  have ends : (match Linked.loading.1 with | .ok _ => true | .error _ => false) = true := by
    decide +kernel
  have clean : Linked.loading.2.report.issues.isEmpty = true := by
    decide +kernel
  cases whole : Linked.loading with
  | mk result session =>
    rw [whole] at ends clean
    cases result with
    | error stop => cases ends
    | ok schemas =>
      refine ⟨schemas, session, rfl, ?_⟩
      unfold Linked.loading at whole
      refine (references_bound Linked.isReady ?_ whole ?_).1
      · intro request mem
        cases List.mem_singleton.1 mem
        exact Linked.isProper
      · rintro ⟨issue, mem, _⟩
        rw [List.isEmpty_iff.1 clean] at mem
        cases mem


/-- A reference whose URI falls apart when its fragment is taken off leaves the schema that it
stands in unfinished. -/
example : (match ((do
    newSession Linked.loader
    load Linked.loader ⟨⟨0⟩, .object [
      ("definitions", .object [("a", .object [("$ref", .string "http:////[x#f")])]),
      ("properties", .object [("x", .object [("$ref", .string "#/definitions/a")])])]⟩
      Linked.root : Load Schema).run.run .empty) with
    | (.ok _, session) =>
      session.cache.handles.any fun entry => (session.graph.schema? entry.2).isNone
    | _ => false) = true := by
  decide +kernel

end Load

end JsonSchema
