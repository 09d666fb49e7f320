import JsonSchema.Proofs.Naming
import Mathlib.Logic.Relation

/-!
# Steps of a session

What loading does to a session is made of steps (`Session.Step`): it stores a document, starts the
schema of an object that it comes to, puts a handle under one more URI that leads to its place, or
gives out a handle outside the cache. Everything else leaves the cache and the places of the handles
as they are. Steps only add to a session (`Session.Later`).

In every session that steps lead to, each handle stands at a place that loading comes to, and each
key of the cache names the place of its handle as long as the documents are unambiguous
(`Reachable.isTraced`).
-/

namespace JsonSchema

/-- The location of the schema of an object; an identifier beside a reference does not count. -/
def Location.ofObject (draft : Draft) (members : List (String × Json)) (location : Location) :
    Location :=
  match members.lookup Builtin.ref.key with
  | none => location.named draft.idKey members
  | some _ => location

namespace Location

theorem absoluteUri_place {first second : Location} (same : first.place = second.place) :
    first.absoluteUri = second.absoluteUri := by
  obtain ⟨document, pointer⟩ := Prod.mk.inj same
  unfold absoluteUri fragment
  rw [document, pointer]

/-- The URI by document and pointer comes first. -/
theorem cacheKeys_eq_cons {location : Location} {keys : List String}
    (ok : location.cacheKeys = .ok keys) :
    ∃ key rest, location.absoluteUri = .ok key ∧ keys = key :: rest := by
  unfold cacheKeys at ok
  obtain ⟨absolute, first, ok⟩ := except_bind_ok ok
  obtain ⟨canonical, _, ok⟩ := except_bind_ok ok
  obtain ⟨identifier, _, ok⟩ := except_bind_ok ok
  obtain ⟨rest, front⟩ : ∃ rest, (if canonical = absolute then [absolute]
      else [absolute, canonical]) = absolute :: rest := by
    split
    · exact ⟨[], rfl⟩
    · exact ⟨[canonical], rfl⟩
  dsimp only at ok
  rw [front] at ok
  split at ok <;>
  · cases ok
    exact ⟨absolute, _, first, rfl⟩

theorem absoluteUri_mem {location : Location} {keys : List String}
    (ok : location.cacheKeys = .ok keys) : ∃ key, location.absoluteUri = .ok key ∧ key ∈ keys := by
  obtain ⟨key, rest, absolute, rfl⟩ := cacheKeys_eq_cons ok
  exact ⟨key, absolute, List.mem_cons_self⟩

end Location

namespace Session

/-- The documents of a session. -/
abbrev documents (session : Session) : Load.Documents :=
  session.cache.documents

/-- A handle keeps its location, and its schema once it is bound. -/
def KeepsHandles (graph graph' : SchemaGraph) : Prop :=
  ∀ id handle, graph.handle? id = some handle → ∃ handle', graph'.handle? id = some handle' ∧
    handle'.location = handle.location ∧
    ∀ schema, handle.schema = some schema → handle'.schema = some schema

open Load

/-- A step of loading. -/
inductive Step : Session → Session → Prop
  /-- The cache and the places of the handles stay as they are. -/
  | work {session later : Session} (cache : later.cache = session.cache)
    (size : later.graph.handles.size = session.graph.handles.size)
    (handles : KeepsHandles session.graph later.graph)
    (issues : ∀ issue ∈ session.report.issues, issue ∈ later.report.issues) : Step session later
  /-- A document is stored where none is. -/
  | store {session : Session} {uri : String} {stored : StoredDocument}
    (place : Uri.withoutFragment uri = .ok uri) (absent : session.documents.lookup uri = none)
    (proper : stored.document.value.IsProper) :
    Step session { session with
      cache := { session.cache with documents := Members.put session.documents uri stored } }
  /-- The schema of an object is started. -/
  | start {session : Session} {location : Location} {members : List (String × Json)} {draft : Draft}
    {handle : HandleId} {cache : Cache} {graph : SchemaGraph}
    (comes : Comes session.documents location (.object members) draft)
    (started : session.cache.start session.graph (location.ofObject draft members) =
      .ok (handle, cache, graph)) :
    Step session { session with cache, graph }
  /-- The handle of a place is put under a URI that leads to the place. -/
  | enter {session : Session} {source uri : String} {place : String × Pointer}
    {stored : StoredDocument} {value : Json} {target : Location} {draft : Draft} {id : HandleId}
    {cache : Cache} (normal : Uri.normalize source = .ok uri)
    (leads : Leads session.documents uri place)
    (known : session.documents.lookup place.1 = some stored)
    (found : valueAt place.1 stored place.2 = .ok (value, target))
    (comes : Comes session.documents target value draft)
    (holds : session.cache.lookupLocation target = .ok (some id) ∨
      ∃ handle, session.graph.handle? id = some handle ∧ handle.location = target)
    (entered : session.cache.enterUri uri id = .ok cache) :
    Step session { session with cache }
  /-- A handle is given out that is not in the cache. -/
  | aside {session : Session} {location : Location} {value : Json} {draft : Draft}
    (comes : Comes session.documents location value draft) :
    Step session { session with graph := (session.graph.addHandle location).2 }

/-- A session that steps lead to from another one. -/
abbrev Later (session later : Session) : Prop :=
  Relation.ReflTransGen Step session later

/-- A session that loading can come to. -/
abbrev Reachable (session : Session) : Prop :=
  Later .empty session

variable {session later : Session}

/-! ## What stays -/

theorem keepsHandles_refl (graph : SchemaGraph) : KeepsHandles graph graph :=
  fun _ handle found => ⟨handle, found, rfl, fun _ same => same⟩

theorem KeepsHandles.trans {first second third : SchemaGraph} (kept : KeepsHandles first second)
    (kept' : KeepsHandles second third) : KeepsHandles first third := by
  intro id handle found
  obtain ⟨handle', found', location, schema⟩ := kept id handle found
  obtain ⟨handle'', found'', location', schema'⟩ := kept' id handle' found'
  exact ⟨handle'', found'', location'.trans location, fun s same => schema' s (schema s same)⟩

theorem keepsHandles_addHandle (graph : SchemaGraph) (location : Location) :
    KeepsHandles graph (graph.addHandle location).2 := by
  intro id handle found
  have inside : id.index < graph.handles.size := by
    rcases Nat.lt_or_ge id.index graph.handles.size with inside | outside
    · exact inside
    · have none : graph.handle? id = none := Array.getElem?_eq_none outside
      rw [none] at found
      cases found
  refine ⟨handle, ?_, rfl, fun _ same => same⟩
  rw [SchemaGraph.handle_addHandle inside]
  exact found

theorem grows_put {documents : Documents} {uri : String} {stored : StoredDocument}
    (absent : documents.lookup uri = none) : Grows documents (Members.put documents uri stored) := by
  intro other known found
  have different : other ≠ uri := by
    rintro rfl
    rw [absent] at found
    cases found
  rw [Members.lookup_put, if_neg different]
  exact found

/-- What a session had is there later. -/
structure Grown (session later : Session) : Prop where
  documents : Grows session.documents later.documents
  handles : KeepsHandles session.graph later.graph
  size : session.graph.handles.size ≤ later.graph.handles.size
  issues : ∀ issue ∈ session.report.issues, issue ∈ later.report.issues
  entries : ∀ key, later.cache.handles.lookup key = none →
    session.cache.handles.lookup key = none

theorem start_eq {cache cache' : Cache} {graph graph' : SchemaGraph} {location : Location}
    {handle : HandleId} (ok : cache.start graph location = .ok (handle, cache', graph')) :
    ∃ keys, location.cacheKeys = .ok keys ∧ handle = ⟨graph.handles.size⟩ ∧
      cache' = cache.enter keys handle ∧ graph' = (graph.addHandle location).2 := by
  unfold Cache.start at ok
  obtain ⟨keys, listed, ok⟩ := except_bind_ok ok
  cases ok
  exact ⟨keys, listed, rfl, rfl, rfl⟩

theorem enterUri_eq {cache cache' : Cache} {uri : String} {id : HandleId}
    (ok : cache.enterUri uri id = .ok cache') :
    ∃ key, Uri.normalize uri = .ok key ∧ cache' = cache.enter [key] id := by
  unfold Cache.enterUri at ok
  obtain ⟨key, normal, ok⟩ := except_bind_ok ok
  cases ok
  exact ⟨key, normal, rfl⟩

theorem size_addHandle_le (graph : SchemaGraph) (location : Location) :
    graph.handles.size ≤ (graph.addHandle location).2.handles.size := by
  rw [SchemaGraph.size_addHandle]
  exact Nat.le_succ _

theorem Step.grown (step : Step session later) : session.Grown later := by
  cases step with
  | work cache size handles issues =>
    refine ⟨?_, handles, size.ge, issues, ?_⟩
    · unfold documents
      rw [cache]
      exact fun _ _ found => found
    · rw [cache]
      exact fun _ missing => missing
  | store place absent proper =>
    exact ⟨grows_put absent, keepsHandles_refl _, Nat.le_refl _, fun _ mem => mem,
      fun _ missing => missing⟩
  | start comes started =>
    obtain ⟨keys, _, _, rfl, rfl⟩ := start_eq started
    exact ⟨fun _ _ found => found, keepsHandles_addHandle _ _, size_addHandle_le _ _,
      fun _ mem => mem, fun _ missing => (Cache.lookup_enter_none missing).1⟩
  | enter normal leads known found comes holds entered =>
    obtain ⟨key, _, rfl⟩ := enterUri_eq entered
    exact ⟨fun _ _ found => found, keepsHandles_refl _, Nat.le_refl _, fun _ mem => mem,
      fun _ missing => (Cache.lookup_enter_none missing).1⟩
  | aside comes =>
    exact ⟨fun _ _ found => found, keepsHandles_addHandle _ _, size_addHandle_le _ _,
      fun _ mem => mem, fun _ missing => missing⟩

theorem Later.grown (steps : session.Later later) : session.Grown later := by
  induction steps with
  | refl =>
    exact ⟨fun _ _ found => found, keepsHandles_refl _, Nat.le_refl _, fun _ mem => mem,
      fun _ missing => missing⟩
  | tail _ step ih =>
    have next := step.grown
    exact ⟨fun uri stored found => next.documents uri stored (ih.documents uri stored found),
      ih.handles.trans next.handles, Nat.le_trans ih.size next.size,
      fun issue mem => next.issues issue (ih.issues issue mem),
      fun key missing => ih.entries key (next.entries key missing)⟩

/-! ## Where handles stand -/

/-- A location that the schema of a value has to which loading comes. -/
def Arises (documents : Documents) (location : Location) : Prop :=
  ∃ received value draft, Comes documents received value draft ∧
    (location = received ∨ ∃ members, value = .object members ∧
      location = received.ofObject draft members)

/-- A handle stands at a place. -/
def StandsAt (session : Session) (id : HandleId) (place : String × Pointer) : Prop :=
  ∃ handle, session.graph.handle? id = some handle ∧ handle.location.place = place

/-- Documents are sound, handles stand where loading comes to, and keys name the places of their
handles if the documents are unambiguous. -/
structure IsTraced (session : Session) : Prop where
  distinct : (Members.keys session.documents).Nodup
  sound : AreSound session.documents
  handles : ∀ id handle, session.graph.handle? id = some handle →
    Arises session.documents handle.location
  entries : ∀ entry ∈ session.cache.handles, ∃ place, session.StandsAt entry.2 place ∧
    (Unambiguous session.documents → Names session.documents entry.1 place)

theorem Arises.isKnown {documents : Documents} {location : Location} (sound : AreSound documents)
    (arises : Arises documents location) : IsKnown documents location := by
  obtain ⟨received, value, draft, comes, same | ⟨members, rfl, same⟩⟩ := arises
  · rw [same]
    exact comes.isKnown sound
  · rw [same]
    unfold Location.ofObject
    split
    · next plain => exact comes.isKnown_named sound plain
    · exact comes.isKnown sound

theorem Arises.mono {documents documents' : Documents} {location : Location}
    (grows : Grows documents documents') (arises : Arises documents location) :
    Arises documents' location := by
  obtain ⟨received, value, draft, comes, same⟩ := arises
  exact ⟨received, value, draft, comes.mono grows, same⟩

theorem ofObject_place (draft : Draft) (location : Location) (members : List (String × Json)) :
    (location.ofObject draft members).place = location.place := by
  unfold Location.ofObject
  split
  · obtain ⟨document, pointer⟩ := named_place draft.idKey location members
    unfold Location.place
    rw [document, pointer]
  · rfl

theorem StandsAt.mono {id : HandleId} {place : String × Pointer} (grown : session.Grown later)
    (stands : session.StandsAt id place) : later.StandsAt id place := by
  obtain ⟨handle, found, same⟩ := stands
  obtain ⟨handle', found', location, _⟩ := grown.handles id handle found
  exact ⟨handle', found', by rw [location]; exact same⟩

theorem standsAt_addHandle (session : Session) (location : Location) (cache : Cache) :
    StandsAt { session with cache, graph := (session.graph.addHandle location).2 }
      ⟨session.graph.handles.size⟩ location.place := by
  refine ⟨{ location, schema := none }, ?_, rfl⟩
  show (session.graph.handles.push _)[session.graph.handles.size]? = _
  rw [Array.getElem?_push_size]

/-- A handle of a graph with one more is an old one or the new one. -/
theorem handle_addHandle_cases {graph : SchemaGraph} {location : Location} {id : HandleId}
    {handle : Handle} (found : (graph.addHandle location).2.handle? id = some handle) :
    graph.handle? id = some handle ∨ handle.location = location := by
  have pushed : (graph.handles.push { location, schema := none })[id.index]? = some handle := found
  rw [Array.getElem?_push] at pushed
  split at pushed
  · cases pushed
    exact .inr rfl
  · exact .inl pushed

/-- All keys of a location that are in the cache are those of a handle at its place. -/
theorem IsTraced.lookupLocation (traced : session.IsTraced)
    (unambiguous : Unambiguous session.documents) {location : Location}
    (known : IsKnown session.documents location) {id : HandleId}
    (found : session.cache.lookupLocation location = .ok (some id)) :
    session.StandsAt id location.place := by
  unfold Cache.lookupLocation at found
  obtain ⟨keys, listed, found⟩ := except_bind_ok found
  obtain ⟨key, mem, entry⟩ := List.exists_of_findSome?_eq_some (Except.ok.inj found)
  obtain ⟨place, stands, names⟩ := traced.entries _ (Members.mem_of_lookup entry)
  rw [unambiguous.names_unique (known.names unambiguous listed mem) (names unambiguous)]
  exact stands

/-- A location is entered if its handle is found under one of its URIs. -/
def Enters (session : Session) (location : Location) : Prop :=
  ∃ id, session.cache.lookupLocation location = .ok (some id)

/-- A location is entered if one of its URIs has a handle. -/
theorem enters_of_mem {location : Location} {keys : List String} {key : String}
    (listed : location.cacheKeys = .ok keys) (mem : key ∈ keys)
    (known : session.cache.handles.lookup key ≠ none) : session.Enters location := by
  unfold Enters Cache.lookupLocation
  rw [listed]
  cases found : keys.findSome? fun key => session.cache.handles.lookup key with
  | some id => exact ⟨id, by rw [← found]; rfl⟩
  | none => exact absurd (List.findSome?_eq_none_iff.1 found key mem) known

theorem Enters.mono (grown : session.Grown later) {location : Location}
    (enters : session.Enters location) : later.Enters location := by
  obtain ⟨id, found⟩ := enters
  unfold Cache.lookupLocation at found
  obtain ⟨keys, listed, found⟩ := except_bind_ok found
  obtain ⟨key, mem, entry⟩ := List.exists_of_findSome?_eq_some (Except.ok.inj found)
  refine enters_of_mem listed mem (fun missing => ?_)
  rw [grown.entries key missing] at entry
  cases entry

theorem mem_enter_keys {cache : Cache} {uris : List String} {id : HandleId}
    {entry : String × HandleId} (mem : entry ∈ (cache.enter uris id).handles) :
    entry ∈ cache.handles ∨ entry.1 ∈ uris ∧ entry.2 = id := by
  unfold Cache.enter at mem
  dsimp only at mem
  generalize cache.handles = handles at mem ⊢
  induction uris generalizing handles with
  | nil => exact .inl mem
  | cons uri rest ih =>
    rcases ih _ mem with early | ⟨listed, same⟩
    · rcases Members.mem_putNew early with old | rfl
      · exact .inl old
      · exact .inr ⟨List.mem_cons_self, rfl⟩
    · exact .inr ⟨List.mem_cons_of_mem _ listed, same⟩

theorem Step.isTraced (step : Step session later) (traced : session.IsTraced) :
    later.IsTraced := by
  have grown := step.grown
  have entries : ∀ entry ∈ session.cache.handles, ∃ place, later.StandsAt entry.2 place ∧
      (Unambiguous later.documents → Names later.documents entry.1 place) := by
    intro entry mem
    obtain ⟨place, stands, names⟩ := traced.entries entry mem
    exact ⟨place, stands.mono grown, fun unambiguous =>
      (names (unambiguous.anti grown.documents)).mono grown.documents⟩
  cases step with
  | work cache size handles issues =>
    have same : later.documents = session.documents := congrArg Cache.documents cache
    refine ⟨?_, ?_, ?_, ?_⟩
    · rw [same]
      exact traced.distinct
    · rw [same]
      exact traced.sound
    · intro id handle' found'
      have inside : id.index < session.graph.handles.size := by
        rw [← size]
        rcases Nat.lt_or_ge id.index later.graph.handles.size with inside | outside
        · exact inside
        · have none : later.graph.handle? id = none := Array.getElem?_eq_none outside
          rw [none] at found'
          cases found'
      have found : session.graph.handle? id = some session.graph.handles[id.index] :=
        Array.getElem?_eq_getElem inside
      obtain ⟨handle, again, location, _⟩ := handles id _ found
      rw [found'] at again
      cases again
      rw [location, same]
      exact traced.handles id _ found
    · rw [cache]
      exact entries
  | store place absent proper =>
    refine ⟨Members.nodup_put _ _ traced.distinct, ⟨?_, ?_⟩, ?_, entries⟩
    · intro uri stored found
      rcases Members.mem_put (Members.mem_of_lookup found) with same | old
      · cases same
        exact place
      · exact traced.sound.places uri stored (Members.lookup_of_mem traced.distinct old)
    · intro uri stored found
      rcases Members.mem_put (Members.mem_of_lookup found) with same | old
      · cases same
        exact proper
      · exact traced.sound.values uri stored (Members.lookup_of_mem traced.distinct old)
    · exact fun id handle found => (traced.handles id handle found).mono grown.documents
  | @start location members draft handle cache graph comes started =>
    obtain ⟨keys, listed, rfl, rfl, rfl⟩ := start_eq started
    have arises : Arises session.documents (location.ofObject draft members) :=
      ⟨location, _, draft, comes, .inr ⟨members, rfl, rfl⟩⟩
    refine ⟨traced.distinct, traced.sound, ?_, ?_⟩
    · intro id handle found
      rcases handle_addHandle_cases found with old | new
      · exact traced.handles id handle old
      · rw [new]
        exact arises
    · intro entry mem
      rcases mem_enter_keys mem with old | ⟨inside, same⟩
      · exact entries entry old
      · rw [same]
        exact ⟨_, standsAt_addHandle session _ _, fun unambiguous =>
          (arises.isKnown traced.sound).names unambiguous listed inside⟩
  | @enter source uri place stored value target draft id cache normal leads known found comes holds
      entered =>
    obtain ⟨key, keyed, rfl⟩ := enterUri_eq entered
    refine ⟨traced.distinct, traced.sound, traced.handles, ?_⟩
    intro entry mem
    rcases mem_enter_keys mem with old | ⟨inside, same⟩
    · exact entries entry old
    · rw [same, List.mem_singleton.1 inside]
      have stands : Unambiguous session.documents → session.StandsAt id target.place := by
        intro unambiguous
        rcases holds with looked | ⟨handle, held, at_target⟩
        · exact traced.lookupLocation unambiguous (comes.isKnown traced.sound) looked
        · exact ⟨handle, held, congrArg Location.place at_target⟩
      have some : ∃ place, session.StandsAt id place := by
        rcases holds with looked | ⟨handle, held, _⟩
        · unfold Cache.lookupLocation at looked
          obtain ⟨keys, _, looked⟩ := except_bind_ok looked
          obtain ⟨key, _, entry⟩ := List.exists_of_findSome?_eq_some (Except.ok.inj looked)
          obtain ⟨place, stands, _⟩ := traced.entries _ (Members.mem_of_lookup entry)
          exact ⟨place, stands⟩
        · exact ⟨_, handle, held, rfl⟩
      by_cases unambiguous : Unambiguous session.documents
      · obtain ⟨document, pointer⟩ :=
          ofDocument_place (traced.sound.places _ _ known) (valueAt_eq found).2
        have at_place : target.place = place := Prod.ext document pointer
        refine ⟨place, at_place ▸ stands unambiguous, fun _ => ?_⟩
        exact unambiguous.names_leads normal leads keyed
      · obtain ⟨place, stands⟩ := some
        exact ⟨place, stands, fun holds => absurd holds unambiguous⟩
  | @aside location value draft comes =>
    refine ⟨traced.distinct, traced.sound, ?_, entries⟩
    intro id handle found
    rcases handle_addHandle_cases found with old | new
    · exact traced.handles id handle old
    · rw [new]
      exact ⟨location, value, draft, comes, .inl rfl⟩

theorem Reachable.isTraced (reachable : session.Reachable) : session.IsTraced := by
  induction reachable with
  | refl =>
    refine ⟨List.nodup_nil, ⟨nofun, nofun⟩, ?_, nofun⟩
    intro id handle found
    cases found
  | tail _ step ih => exact step.isTraced ih

end Session

end JsonSchema
