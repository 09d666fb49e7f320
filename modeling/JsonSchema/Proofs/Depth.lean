import JsonSchema.Proofs.Documents
import JsonSchema.Proofs.Lookup

/-!
# The depth of loading

Loading ends, and the bound on its depth has no part in that: reading a document never runs out of
it, and with a larger one it does the same (`Load.readSchema_finishes`). Two computations last from a
session (`Load.Lasts`) if they run alike and do not run out. Loading a value at most `depth` deep and
deeper lasts from a session in which fewer than `depth` of the keys in reach have no handle yet
(`Session.Fits`). For the handle of an object is entered under its absolute URI before what stands
below it is loaded (`Load.lasts_loadObject`), and no handle is ever taken away.
-/

namespace JsonSchema

/-! ## Room -/

namespace Session

variable {keys : Set String} {depth : Nat} {session later : Session}

/-- The documents have their keys among given ones, of which fewer than a number have no handle. -/
structure Fits (keys : Set String) (depth : Nat) (session : Session) : Prop where
  keyed : ∀ entry ∈ session.cache.documents, entry.2.document.value.IsKeyed keys entry.1 []
  room : ∃ free : List String, free.length < depth ∧
    ∀ key ∈ keys, session.cache.handles.lookup key = none → key ∈ free

/-- A later session has the same documents, nothing was fetched, and no handle was taken away. -/
structure Advances (session later : Session) : Prop where
  documents : later.cache.documents = session.cache.documents
  fetched : later.fetched = session.fetched
  entered : ∀ key, later.cache.handles.lookup key = none →
    session.cache.handles.lookup key = none

theorem advances_of_cache (same : later.cache = session.cache)
    (fetched : later.fetched = session.fetched) : session.Advances later :=
  ⟨by rw [same], fetched, fun key missing => by rwa [same] at missing⟩

theorem Advances.trans {last : Session} (first : session.Advances later)
    (second : later.Advances last) : session.Advances last :=
  ⟨second.documents.trans first.documents, second.fetched.trans first.fetched,
    fun key missing => first.entered key (second.entered key missing)⟩

theorem Fits.advance (fits : session.Fits keys depth) (advances : session.Advances later) :
    later.Fits keys depth := by
  obtain ⟨free, fewer, all⟩ := fits.room
  refine ⟨fun entry mem => fits.keyed entry (advances.documents ▸ mem), free, fewer, ?_⟩
  exact fun key mem missing => all key mem (advances.entered key missing)

theorem Fits.deeper (fits : session.Fits keys depth) : session.Fits keys (depth + 1) := by
  obtain ⟨free, fewer, all⟩ := fits.room
  exact ⟨fits.keyed, free, Nat.lt_succ_of_lt fewer, all⟩

/-- A key that gets a handle takes room. -/
theorem Fits.entered {key : String} (fits : session.Fits keys (depth + 1))
    (advances : session.Advances later) (mem : key ∈ keys)
    (before : session.cache.handles.lookup key = none)
    (after : later.cache.handles.lookup key ≠ none) : later.Fits keys depth := by
  obtain ⟨free, fewer, all⟩ := fits.room
  have present : key ∈ free := all key mem before
  refine ⟨(fits.advance advances).keyed, free.erase key, ?_, fun other inside missing => ?_⟩
  · have positive : 0 < free.length := List.length_pos_of_mem present
    rw [List.length_erase_of_mem present]
    omega
  · have different : other ≠ key := by
      rintro rfl
      exact after missing
    exact (List.mem_erase_of_ne different).2 (all other inside (advances.entered other missing))

end Session

namespace Load

variable {α β : Type} {keys : Set String} {depth : Nat} {session later : Session}

/-! ## Computations that last -/

/-- From a session two computations run alike and do not run out of a recursion bound. `I` holds of
the session at the end, and `Q` of the value. -/
structure Lasts (I : Session → Prop) (act act' : Load α) (Q : α → Prop) (session : Session) :
    Prop where
  same : act'.run.run session = act.run.run session
  ends : (act.run.run session).1 ≠ .error (.fault .exhausted)
  later : I (act.run.run session).2
  value : ∀ a, (act.run.run session).1 = .ok a → Q a

/-- Two computations last from every session with `I`. -/
@[irreducible]
def AlwaysLasts (I : Session → Prop) (act act' : Load α) (Q : α → Prop) : Prop :=
  ∀ session, I session → Lasts I act act' Q session

section Rules

variable {I : Session → Prop} {Q : α → Prop} {Q' : β → Prop}

theorem Lasts.bind {act act' : Load α} {next next' : α → Load β} (first : Lasts I act act' Q session)
    (rest : ∀ a later, act.run.run session = (.ok a, later) → I later → Q a →
      Lasts I (next a) (next' a) Q' later) : Lasts I (act >>= next) (act' >>= next') Q' session := by
  obtain ⟨same, ends, holds, value⟩ := first
  cases run : act.run.run session with
  | mk result later =>
    rw [run] at same ends holds value
    cases result with
    | ok a =>
      obtain ⟨same', ends', holds', value'⟩ := rest a later run holds (value a rfl)
      constructor
      · rw [run_bind_ok run, run_bind_ok same, same']
      · rwa [run_bind_ok run]
      · rwa [run_bind_ok run]
      · rwa [run_bind_ok run]
    | error stop =>
      constructor
      · rw [run_bind_error run, run_bind_error same]
      · rw [run_bind_error run]
        intro out
        exact ends (congrArg Except.error (Except.error.inj out))
      · rwa [run_bind_error run]
      · rw [run_bind_error run]
        exact nofun

/-- What is caught is not that the computation ran out. -/
theorem Lasts.tryCatch {act act' : Load α} {handle : Stop → Load α}
    (body : Lasts I act act' Q session) (rescue : ∀ stop later, stop ≠ .fault .exhausted →
      I later → Lasts I (handle stop) (handle stop) Q later) :
    Lasts I (tryCatch act handle) (tryCatch act' handle) Q session := by
  obtain ⟨same, ends, holds, value⟩ := body
  cases run : act.run.run session with
  | mk result later =>
    rw [run] at same ends holds value
    cases result with
    | ok a =>
      constructor
      · rw [run_tryCatch_ok run, run_tryCatch_ok same]
      · rw [run_tryCatch_ok run]
        exact nofun
      · rwa [run_tryCatch_ok run]
      · rwa [run_tryCatch_ok run]
    | error stop =>
      have other : stop ≠ .fault .exhausted := fun out => ends (congrArg Except.error out)
      obtain ⟨_, ends', holds', value'⟩ := rescue stop later other holds
      constructor
      · rw [run_tryCatch_error run, run_tryCatch_error same]
      · rwa [run_tryCatch_error run]
      · rwa [run_tryCatch_error run]
      · rwa [run_tryCatch_error run]

theorem AlwaysLasts.bind {act act' : Load α} {next next' : α → Load β}
    (first : AlwaysLasts I act act' Q) (rest : ∀ a, Q a → AlwaysLasts I (next a) (next' a) Q') :
    AlwaysLasts I (act >>= next) (act' >>= next') Q' := by
  unfold AlwaysLasts at first rest ⊢
  exact fun session holds =>
    (first session holds).bind (fun a later _ holds' value => rest a value later holds')

end Rules

/-! ## Tame computations -/

/-- From every session the computation does not run out, fetches nothing and leaves documents and
handles in place. -/
def IsTame (act : Load α) : Prop :=
  ∀ session, (act.run.run session).1 ≠ .error (.fault .exhausted) ∧
    session.Advances (act.run.run session).2

theorem isTame_of_cache {act : Load α}
    (ends : ∀ session, (act.run.run session).1 ≠ .error (.fault .exhausted))
    (same : ∀ session, (act.run.run session).2.cache = session.cache)
    (fetched : ∀ session, (act.run.run session).2.fetched = session.fetched) : IsTame act :=
  fun session => ⟨ends session, Session.advances_of_cache (same session) (fetched session)⟩

theorem isTame_pure (a : α) : IsTame (pure a) :=
  isTame_of_cache (fun _ => nofun) (fun _ => rfl) (fun _ => rfl)

theorem isTame_throw {stop : Stop} (other : stop ≠ .fault .exhausted) :
    IsTame (throw stop : Load α) :=
  isTame_of_cache (fun _ same => other (Except.error.inj same)) (fun _ => rfl) (fun _ => rfl)

theorem isTame_get : IsTame (get : Load Session) :=
  isTame_of_cache (fun _ => nofun) (fun _ => rfl) (fun _ => rfl)

theorem isTame_check {x : Except Fault α} (finishes : Finishes x) : IsTame (check x) := by
  cases x with
  | ok a => exact isTame_pure a
  | error fault =>
    refine isTame_throw (fun same => finishes ?_)
    cases same
    rfl

theorem isTame_checkUri (x : Except Uri.UriFault α) : IsTame (checkUri x) :=
  isTame_check (finishes_badUri x)

theorem isTame_bind {act : Load α} {next : α → Load β} (first : IsTame act)
    (rest : ∀ a, IsTame (next a)) : IsTame (act >>= next) := by
  intro session
  obtain ⟨ends, advances⟩ := first session
  cases run : act.run.run session with
  | mk result later =>
    rw [run] at ends advances
    cases result with
    | ok a =>
      rw [run_bind_ok run]
      exact ⟨(rest a later).1, advances.trans (rest a later).2⟩
    | error stop =>
      rw [run_bind_error run]
      exact ⟨fun out => ends (congrArg Except.error (Except.error.inj out)), advances⟩

/-! ### Operations -/

theorem advances_enter {graph : SchemaGraph} {uris : List String} {handle : HandleId} :
    session.Advances { session with cache := session.cache.enter uris handle, graph } :=
  ⟨rfl, rfl, fun _ missing => (Cache.lookup_enter_none missing).1⟩

theorem isTame_start (location : Location) : IsTame (start location) := by
  intro session
  rw [run_start]
  cases started : session.cache.start session.graph location with
  | ok made =>
    obtain ⟨handle, cache, graph⟩ := made
    obtain ⟨uris, _, rfl, rfl, rfl⟩ := Session.start_eq started
    exact ⟨nofun, advances_enter⟩
  | error fault => exact ⟨nofun, Session.advances_of_cache rfl rfl⟩

theorem isTame_bindHandle (handle : HandleId) (schema : Schema) : IsTame (bind handle schema) := by
  intro session
  have finishes := session.graph.finishes_bindHandle handle schema
  rw [run_bind]
  cases bound : session.graph.bind handle schema with
  | ok graph => exact ⟨nofun, Session.advances_of_cache rfl rfl⟩
  | error fault =>
    refine ⟨fun out => finishes ?_, Session.advances_of_cache rfl rfl⟩
    rw [bound]
    cases out
    rfl

theorem isTame_enterUri (uri : String) (handle : HandleId) : IsTame (enterUri uri handle) := by
  intro session
  change ((checkUri (session.cache.enterUri uri handle) >>= _).run.run session).1 ≠ _ ∧
    session.Advances ((checkUri (session.cache.enterUri uri handle) >>= _).run.run session).2
  cases entered : session.cache.enterUri uri handle with
  | ok cache =>
    obtain ⟨key, _, rfl⟩ := Session.enterUri_eq entered
    exact ⟨nofun, advances_enter⟩
  | error fault => exact ⟨nofun, Session.advances_of_cache rfl rfl⟩

theorem isTame_addNode (location : Location) (draft : Draft)
    (keywords : List (Keyword × KeywordValue)) : IsTame (addNode location draft keywords) :=
  isTame_of_cache (fun _ => nofun) (fun _ => rfl) (fun _ => rfl)

theorem isTame_addBound (location : Location) (schema : Schema) :
    IsTame (addBound location schema) := by
  intro session
  have rest := isTame_bind (isTame_bindHandle (session.graph.addHandle location).1 schema)
    (fun _ => isTame_pure (session.graph.addHandle location).1)
  let opened := { session with graph := (session.graph.addHandle location).2 }
  have same : session.Advances opened := Session.advances_of_cache rfl rfl
  exact ⟨(rest opened).1, same.trans (rest opened).2⟩

theorem isTame_referTo (handle : HandleId) (location : Location) (draft : Draft) :
    IsTame (referTo handle location draft) := by
  refine isTame_bind isTame_get (fun session => ?_)
  split
  · refine isTame_bind (isTame_checkUri _) (fun ref => ?_)
    exact isTame_bind (isTame_checkUri _) (fun uri => isTame_addNode _ _ _)
  · exact isTame_throw nofun

theorem IsStep.isTame {act : Load α} (isStep : IsStep act) : IsTame act := by
  cases isStep with
  | get => exact isTame_get
  | lookup uri => exact isTame_bind isTame_get (fun _ => isTame_checkUri _)
  | lookupLocation location => exact isTame_bind isTame_get (fun _ => isTame_checkUri _)
  | findById uri =>
    exact isTame_bind isTame_get (fun session => isTame_check (session.cache.finishes_findById uri))
  | enterUri uri handle => exact isTame_enterUri uri handle
  | addBound location schema => exact isTame_addBound location schema
  | referTo handle location draft => exact isTame_referTo handle location draft

theorem IsMaking.isTame {act : Load α} (making : IsMaking act) : IsTame act := by
  cases making with
  | start location => exact isTame_start location
  | addNode location draft keywords => exact isTame_addNode location draft keywords
  | bind handle schema => exact isTame_bindHandle handle schema

/-! ### Issues -/

theorem isTame_record (strict : Bool) (issue : Issue) : IsTame (record strict issue) := by
  intro session
  rw [run_record]
  split
  · exact ⟨nofun, Session.advances_of_cache rfl rfl⟩
  · exact ⟨nofun, Session.advances_of_cache rfl rfl⟩

theorem isTame_issueAt (code : IssueCode) (level : IssueLevel) (location : Location)
    (problem : Problem) : IsTame (issueAt code level location problem) :=
  isTame_bind (isTame_checkUri _) (fun _ => isTame_pure _)

theorem isTame_recordError (loader : Loader) (code : IssueCode) (location : Location)
    (problem : Problem) : IsTame (recordError loader code location problem) :=
  isTame_bind (isTame_issueAt _ _ _ _) (fun _ => isTame_record _ _)

theorem isTame_recordWarning (loader : Loader) (code : IssueCode) (location : Location)
    (problem : Problem) : IsTame (recordWarning loader code location problem) :=
  isTame_bind (isTame_issueAt _ _ _ _) (fun _ => isTame_record _ _)

theorem isTame_recordUnknown (loader : Loader) (key : String) (location : Location) :
    IsTame (recordUnknown loader key location) := by
  unfold recordUnknown
  split
  · split
    · exact isTame_recordError _ _ _ _
    · exact isTame_recordWarning _ _ _ _
  · exact isTame_pure _

theorem isTame_failAt (code : IssueCode) (location : Location) (problem : Problem) :
    IsTame (failAt code location problem : Load α) :=
  isTame_bind (isTame_issueAt _ _ _ _)
    (fun _ => isTame_of_cache (fun _ => nofun) (fun _ => rfl) (fun _ => rfl))

/-! ## One object -/

/-- The documents that a loader may fetch have their keys among given ones. -/
def AreServedWithin (keys : Set String) (loader : Loader) : Prop :=
  ∀ uri document key, loader.client.fetch uri = .ok document →
    Uri.withoutFragment uri = .ok key → document.value.IsKeyed keys key []

theorem lasts_tame {act : Load α} (tame : IsTame act) {Q : α → Prop}
    (fits : session.Fits keys depth) (value : ∀ a, (act.run.run session).1 = .ok a → Q a) :
    Lasts (Session.Fits keys depth) act act Q session :=
  ⟨rfl, (tame session).1, fits.advance (tame session).2, value⟩

theorem alwaysLasts_tame {act : Load α} (tame : IsTame act) {Q : α → Prop}
    (value : ∀ session a, (act.run.run session).1 = .ok a → Q a) :
    AlwaysLasts (Session.Fits keys depth) act act Q := by
  unfold AlwaysLasts
  exact fun session fits => lasts_tame tame fits (value session)

theorem alwaysLasts_document (uri : String) :
    AlwaysLasts (Session.Fits keys depth) (document? uri) (document? uri) fun found =>
      ∀ stored key, found = some stored → Uri.withoutFragment uri = .ok key →
        stored.document.value.IsKeyed keys key [] := by
  have tame : IsTame (document? uri) := isTame_bind isTame_get (fun _ => isTame_checkUri _)
  unfold AlwaysLasts
  intro session fits
  refine lasts_tame tame fits ?_
  rintro _ ends stored key rfl place
  cases run : (document? uri).run.run session with
  | mk result later =>
  rw [run] at ends
  cases ends
  obtain ⟨found, _⟩ := run_document run
  obtain ⟨key', place', found⟩ := except_bind_ok found
  rw [place] at place'
  cases place'
  exact fits.keyed (key, stored) (Members.mem_of_lookup (Except.ok.inj found))

/-- A document is stored under its URI without fragment. -/
theorem addDocument_eq {cache cache' : Cache} {uri : String} {document : Document} {draft : Draft}
    (ok : cache.addDocument uri document draft = .ok cache') :
    ∃ key, Uri.withoutFragment uri = .ok key ∧
      cache' = { cache with documents := Members.put cache.documents key { document, draft } } := by
  obtain ⟨key, place, ok⟩ := except_bind_ok ok
  refine ⟨key, mapError_ok place, ?_⟩
  dsimp only at ok
  split at ok
  · split at ok
    · exact (Except.ok.inj ok).symm
    · cases ok
  · exact (Except.ok.inj ok).symm

theorem addDocument_ends (uri : String) (document : Document) (draft : Draft)
    (session : Session) :
    ((addDocument uri document draft).run.run session).1 ≠ .error (.fault .exhausted) := by
  have finishes := session.cache.finishes_addDocument uri document draft
  change ((check (session.cache.addDocument uri document draft) >>= _).run.run session).1 ≠ _
  cases added : session.cache.addDocument uri document draft with
  | ok cache => exact nofun
  | error fault =>
    rw [added] at finishes
    intro out
    cases out
    exact finishes rfl

theorem alwaysLasts_addDocument {uri : String} {document : Document} (draft : Draft)
    (keyed : ∀ key, Uri.withoutFragment uri = .ok key → document.value.IsKeyed keys key []) :
    AlwaysLasts (Session.Fits keys depth) (addDocument uri document draft)
      (addDocument uri document draft) fun _ => True := by
  unfold AlwaysLasts
  intro session fits
  refine ⟨rfl, addDocument_ends _ _ _ _, ?_, fun _ _ => trivial⟩
  change Session.Fits keys depth
    ((check (session.cache.addDocument uri document draft) >>= _).run.run session).2
  cases added : session.cache.addDocument uri document draft with
  | ok cache =>
    obtain ⟨key, place, rfl⟩ := addDocument_eq added
    refine ⟨fun entry mem => ?_, fits.room⟩
    rcases Members.mem_put mem with rfl | old
    · exact keyed key place
    · exact fits.keyed entry old
  | error fault => exact fits

theorem alwaysLasts_fetching (uri : String) : AlwaysLasts (Session.Fits keys depth)
    (modify fun session => { session with fetched := session.fetched ++ [uri] } : Load PUnit)
    (modify fun session => { session with fetched := session.fetched ++ [uri] } : Load PUnit)
    fun _ => True := by
  unfold AlwaysLasts
  exact fun session fits => ⟨rfl, nofun, ⟨fits.keyed, fits.room⟩, fun _ _ => trivial⟩

/-- A fault that is caught becomes an issue or is thrown again. -/
theorem alwaysLasts_recordingFaults (loader : Loader) (location : Location) {act act' : Load α}
    (lasts : AlwaysLasts (Session.Fits keys depth) act act' fun _ => True) :
    AlwaysLasts (Session.Fits keys depth) (recordingFaults loader location act)
      (recordingFaults loader location act') fun _ => True := by
  have body : AlwaysLasts (Session.Fits keys depth) (some <$> act) (some <$> act')
      fun _ => True := by
    rw [map_eq_pure_bind, map_eq_pure_bind]
    exact lasts.bind (fun a _ => alwaysLasts_tame (isTame_pure _) (fun _ _ _ => trivial))
  unfold AlwaysLasts at body ⊢
  intro session fits
  refine (body session fits).tryCatch (fun stop later other fits => ?_)
  refine lasts_tame ?_ fits (fun _ _ => trivial)
  split
  · split
    · refine isTame_bind (isTame_checkUri _) (fun place => ?_)
      exact isTame_bind (isTame_record _ _) (fun _ => isTame_pure _)
    · exact isTame_throw other
  · exact isTame_throw nofun

theorem compatible_lasts (loader : Loader) :
    Compatible keys loader loader.options.strict loader.options.strict
      (AlwaysLasts (Session.Fits keys depth)) where
  pure holds := alwaysLasts_tame (isTame_pure _) (fun _ _ same => Except.ok.inj same ▸ holds)
  bind := AlwaysLasts.bind
  step isStep := alwaysLasts_tame isStep.isTame (fun _ _ _ => trivial)
  throw {_ _ _} other := by
    refine alwaysLasts_tame (isTame_throw (fun same => other ?_)) (fun _ _ => nofun)
    cases same
    rfl
  check {_ x} finishes := by
    refine alwaysLasts_tame (isTame_check finishes) (fun session a ends => ?_)
    cases x with
    | ok b => exact congrArg Except.ok (Except.ok.inj ends)
    | error fault => cases ends
  document uri := alwaysLasts_document uri
  error _ _ _ := alwaysLasts_tame (isTame_recordError _ _ _ _) (fun _ _ _ => trivial)
  siblings _ _ := alwaysLasts_tame (isTame_recordWarning _ _ _ _) (fun _ _ _ => trivial)
  unknown _ _ := alwaysLasts_tame (isTame_recordUnknown _ _ _) (fun _ _ _ => trivial)
  fail code location problem _ := alwaysLasts_tame (isTame_failAt code location problem)
    (fun session a ends => (run_failAt (Prod.ext ends rfl)).elim)
  recording location _ _ lasts := alwaysLasts_recordingFaults _ location lasts

theorem congruence_lasts {loader : Loader} (served : AreServedWithin keys loader) :
    Congruence keys loader loader.options.strict loader.options.strict
      (AlwaysLasts (Session.Fits keys depth)) :=
  (compatible_lasts loader).congruence
    (fun {uri document} ok =>
      alwaysLasts_addDocument _ (fun key place => served uri document key ok place))
    alwaysLasts_fetching

section Nodes

variable {loader : Loader} {load load' : NodeLoader}

theorem Lasts.deeper {act act' : Load α} {Q : α → Prop}
    (lasts : Lasts (Session.Fits keys depth) act act' Q session) :
    Lasts (Session.Fits keys (depth + 1)) act act' Q session :=
  ⟨lasts.same, lasts.ends, lasts.later.deeper, lasts.value⟩

/-- An identifier changes nothing but the report. -/
theorem run_applyIdentifier {identifier : Json} {location named : Location}
    (run : (applyIdentifier loader identifier location).run.run session = (.ok named, later)) :
    later.cache = session.cache ∧ named.documentUri = location.documentUri ∧
      named.pointer = location.pointer := by
  unfold applyIdentifier at run
  split at run
  · split at run
    · next ok =>
      cases run
      exact ⟨rfl, withId_place ok⟩
    · obtain ⟨_, s₁, recorded, run⟩ := run_bind_eq_ok run
      cases run
      unfold recordError at recorded
      rw [bind_issueAt] at recorded
      obtain ⟨place, s₂, checked, added⟩ := run_bind_eq_ok recorded
      obtain ⟨_, rfl⟩ := run_checkUri checked
      rw [run_record] at added
      split at added
      · cases added
      · cases added
        exact ⟨rfl, rfl, rfl⟩
  · cases run
    exact ⟨rfl, rfl, rfl⟩

theorem isTame_applyIdentifier (identifier : Json) (location : Location) :
    IsTame (applyIdentifier loader identifier location) := by
  unfold applyIdentifier
  split
  · split
    · exact isTame_pure _
    · exact isTame_bind (isTame_recordError _ _ _ _) (fun _ => isTame_pure _)
  · exact isTame_pure _

variable (served : AreServedWithin keys loader)
  (loads : ∀ value location draft, IsPlaced keys value location →
    AlwaysLasts (Session.Fits keys depth) (load value location draft) (load' value location draft)
      fun _ => True)

include served loads

/-- The handle of an object that was not met before takes room, so what stands below the object has
one level less. -/
theorem lasts_started {members : List (String × Json)} {location : Location}
    (fits : session.Fits keys (depth + 1))
    (keyed : (Json.object members).IsKeyed keys location.documentUri location.pointer)
    (new : ∀ key, location.absoluteUri = .ok key → session.cache.handles.lookup key = none)
    (draft : Draft) :
    Lasts (Session.Fits keys (depth + 1))
      (start location >>= loadStarted loader load members draft location)
      (start location >>= loadStarted loader load' members draft location) (fun _ => True)
      session := by
  refine (lasts_tame (isTame_start location) (Q := fun _ => True) fits fun _ _ => trivial).bind
    (fun handle later run _ _ => ?_)
  have advances := (isTame_start location session).2
  rw [run] at advances
  rw [run_start] at run
  split at run
  · next started =>
    cases run
    obtain ⟨uris, listed, rfl, rfl, rfl⟩ := Session.start_eq started
    obtain ⟨key, place⟩ := absoluteUri_ok listed
    have inside : key ∈ uris := absoluteUri_mem listed place
    have room : Session.Fits keys depth _ :=
      fits.entered advances (keyed.mem place) (new key place)
        (fun missing => (Cache.lookup_enter_none missing).2 inside)
    have body := (congruence_lasts served).loadStarted loads
      (fun making => alwaysLasts_tame making.isTame (fun _ _ _ => trivial)) keyed draft
      ⟨session.graph.handles.size⟩
    unfold AlwaysLasts at body
    exact (body _ room).deeper
  · cases run

theorem lasts_loadObject {members : List (String × Json)} {location : Location}
    (fits : session.Fits keys (depth + 1))
    (keyed : (Json.object members).IsKeyed keys location.documentUri location.pointer)
    (new : ∀ key, location.absoluteUri = .ok key → session.cache.handles.lookup key = none)
    (draft : Draft) :
    Lasts (Session.Fits keys (depth + 1)) (loadObject loader load members location draft)
      (loadObject loader load' members location draft) (fun _ => True) session := by
  have started : ∀ {named : Location} {later : Session}, later.Fits keys (depth + 1) →
      later.cache = session.cache → named.documentUri = location.documentUri →
      named.pointer = location.pointer →
      Lasts (Session.Fits keys (depth + 1))
        (start named >>= loadStarted loader load members draft named)
        (start named >>= loadStarted loader load' members draft named) (fun _ => True) later := by
    intro named later fits' same document pointer
    have place : named.absoluteUri = location.absoluteUri := by
      unfold Location.absoluteUri Location.fragment
      rw [document, pointer]
    refine lasts_started served loads fits' ?_ (fun key here => ?_) draft
    · rw [document, pointer]
      exact keyed
    · rw [same]
      exact new key (place ▸ here)
  rw [loadObject_eq, loadObject_eq]
  split
  · refine (lasts_tame (isTame_applyIdentifier _ _) (Q := fun _ => True) fits
      (fun _ _ => trivial)).bind (fun named later run fits' _ => ?_)
    obtain ⟨same, document, pointer⟩ := run_applyIdentifier run
    exact started fits' same document pointer
  · rw [pure_bind, pure_bind]
    exact started fits rfl rfl rfl

theorem alwaysLasts_nodeWith {value : Json} {location : Location}
    (placed : IsPlaced keys value location) (draft : Draft) :
    AlwaysLasts (Session.Fits keys (depth + 1)) (nodeWith loader load value location draft)
      (nodeWith loader load' value location draft) fun _ => True := by
  have tame : ∀ {act : Load Schema}, IsTame act →
      AlwaysLasts (Session.Fits keys (depth + 1)) act act fun _ => True :=
    fun tame => alwaysLasts_tame tame (fun _ _ _ => trivial)
  unfold nodeWith
  split
  · exact tame (isTame_pure _)
  · next members =>
    have looked : IsTame (lookupLocation location) :=
      isTame_bind isTame_get (fun _ => isTame_checkUri _)
    unfold AlwaysLasts
    intro session fits
    refine (lasts_tame looked (Q := fun _ => True) fits (fun _ _ => trivial)).bind
      (fun found later run fits' _ => ?_)
    obtain ⟨found', rfl⟩ := run_checkUri run
    cases found with
    | none =>
      refine lasts_loadObject served loads fits' (placed members rfl) (fun key place => ?_) draft
      obtain ⟨listed, places, missing⟩ := except_bind_ok found'
      exact List.findSome?_eq_none_iff.1 (Except.ok.inj missing) key (absoluteUri_mem places place)
    | some handle =>
      refine lasts_tame (isTame_bind isTame_get (fun session => ?_)) fits' (fun _ _ => trivial)
      split
      · exact isTame_pure _
      · exact isTame_referTo _ _ _
  · exact tame (isTame_bind (isTame_recordError _ _ _ _) (fun _ => isTame_pure _))

omit loads in
/-- Loading with room for the depth does the same as loading deeper. -/
theorem alwaysLasts_loadNode (depth extra : Nat) {value : Json} {location : Location}
    (placed : IsPlaced keys value location) (draft : Draft) :
    AlwaysLasts (Session.Fits keys depth) (loadNode loader depth value location draft)
      (loadNode loader (depth + extra) value location draft) fun _ => True := by
  induction depth generalizing value location draft with
  | zero =>
    unfold AlwaysLasts
    rintro session ⟨_, free, fewer, _⟩
    exact absurd fewer (Nat.not_lt_zero _)
  | succ depth ih =>
    rw [Nat.add_right_comm]
    exact alwaysLasts_nodeWith served (fun value location draft placed => ih placed draft) placed
      draft

end Nodes

/-! ## Whole documents -/

variable {loader : Loader}

/-- Two computations last, whatever is said of sessions and values. -/
abbrev Last (act act' : Load α) (session : Session) : Prop :=
  Lasts (fun _ => True) act act' (fun _ => True) session

theorem last_refl {act : Load α} (ends : (act.run.run session).1 ≠ .error (.fault .exhausted)) :
    Last act act session :=
  ⟨rfl, ends, trivial, fun _ _ => trivial⟩

theorem last_tame {act : Load α} (tame : IsTame act) : Last act act session :=
  last_refl (tame session).1

theorem isTame_finalize : IsTame finalize := by
  refine isTame_bind isTame_get (fun session => ?_)
  dsimp only
  split
  · exact isTame_throw nofun
  · exact isTame_pure _

/-- The depth that loading allows is enough for any value at any location. -/
theorem last_loadNode (value : Json) (location : Location) (draft : Draft) (extra : Nat) :
    Last (loadNode loader (depthBound loader session.cache value) value location draft)
      (loadNode loader (depthBound loader session.cache value + extra) value location draft)
      session := by
  have fits : session.Fits (· ∈ reach loader session.cache value location)
      (depthBound loader session.cache value) :=
    ⟨fun _ mem => keyed_stored loader value location mem, _,
      length_reach loader session.cache value location, fun key mem _ => mem⟩
  have placed : IsPlaced (· ∈ reach loader session.cache value location) value location :=
    isPlaced_of_isKeyed fun _ inside => List.mem_append_left _ (List.mem_append_left _ inside)
  have loads := alwaysLasts_loadNode
    (fun _ _ _ served place => keyed_served session.cache value location served place)
    (depthBound loader session.cache value) extra placed draft
  unfold AlwaysLasts at loads
  obtain ⟨same, ends, _, _⟩ := loads session fits
  exact ⟨same, ends, trivial, fun _ _ => trivial⟩

variable (document : Document) (extra : Cache → Nat)

theorem last_loadWithin (location : Location) :
    Last (loadWithin loader (depthBound loader · document.value) document location)
      (loadWithin loader (fun cache => depthBound loader cache document.value + extra cache) document
        location) session := by
  have walked : ∀ (draft : Draft) (session : Session), Last (do
      loadNode loader (depthBound loader (← get).cache document.value) document.value location draft)
      (do
        let cache := (← get).cache
        loadNode loader (depthBound loader cache document.value + extra cache) document.value
          location draft) session := by
    intro draft session
    refine (last_tame isTame_get).bind (fun found later run _ _ => ?_)
    cases run
    exact last_loadNode _ _ _ _
  have looked : IsTame (document? location.documentUri) :=
    isTame_bind isTame_get (fun _ => isTame_checkUri _)
  unfold loadWithin
  refine (last_tame looked).bind (fun stored later _ _ _ => ?_)
  split
  · exact (last_tame (isTame_pure _)).bind (fun draft later _ _ _ => walked draft later)
  · dsimp only
    split
    · refine (last_refl (addDocument_ends _ _ _ _)).bind (fun _ later _ _ _ => ?_)
      exact (last_tame (isTame_pure _)).bind (fun draft later _ _ _ => walked draft later)
    · exact (last_tame (isTame_pure _)).bind (fun draft later _ _ _ => walked draft later)

theorem last_readAt (uri : String) :
    Last (readAt loader (depthBound loader · document.value) document uri)
      (readAt loader (fun cache => depthBound loader cache document.value + extra cache) document
        uri) session := by
  have loaded : ∀ (location : Location) (session : Session), Last (do
      let schema ← loadWithin loader (depthBound loader · document.value) document location
      let _ ← finalize
      return schema) (do
      let schema ← loadWithin loader
        (fun cache => depthBound loader cache document.value + extra cache) document location
      let _ ← finalize
      return schema) session := by
    intro location session
    refine (last_loadWithin document extra location).bind (fun schema later _ _ _ => ?_)
    exact last_tame (isTame_bind isTame_finalize (fun _ => isTame_pure _))
  have looked : ∀ uri : String, IsTame (document? uri) :=
    fun uri => isTame_bind isTame_get (fun _ => isTame_checkUri _)
  unfold readAt
  refine (last_tame (isTame_checkUri _)).bind (fun uri later _ _ _ => ?_)
  refine (last_tame (looked uri)).bind (fun stored later _ _ _ => ?_)
  dsimp only
  split
  · refine (last_refl (addDocument_ends _ _ _ _)).bind (fun _ later _ _ _ => ?_)
    exact (last_tame (isTame_checkUri _)).bind (fun location later _ _ _ => loaded location later)
  · exact (last_tame (isTame_checkUri _)).bind (fun location later _ _ _ => loaded location later)

theorem last_readIn (baseUri : Option String) :
    Last (readIn loader (depthBound loader · document.value) document baseUri)
      (readIn loader (fun cache => depthBound loader cache document.value + extra cache) document
        baseUri) session := by
  unfold readIn
  split
  · exact (last_tame (isTame_pure _)).bind (fun uri later _ _ _ => last_readAt document extra uri)
  · exact (last_tame (isTame_checkUri _)).bind
      (fun uri later _ _ _ => last_readAt document extra uri)

theorem newSession_ends (loader : Loader) (session : Session) :
    ((newSession loader).run.run session).1 ≠ .error (.fault .exhausted) := by
  have added : ∀ (entries : List (String × Document)) (session : Session),
      Last (entries.forM fun entry =>
          addDocument entry.1 entry.2 (draftOf loader entry.2.value))
        (entries.forM fun entry =>
          addDocument entry.1 entry.2 (draftOf loader entry.2.value)) session := by
    intro entries
    induction entries with
    | nil => exact fun session => last_tame (isTame_pure _)
    | cons entry rest ih =>
      exact fun session =>
        (last_refl (addDocument_ends _ _ _ _)).bind (fun _ later _ _ _ => ih later)
  exact (added loader.preloaded { session with cache := .empty, report := .empty }).ends

/-- Reading a document ends, for every loader and every document: the bound on the depth is never the
reason for a stop, and reading with any larger bound does the same. -/
theorem readSchema_finishes (loader : Loader) (document : Document) (baseUri : Option String)
    (session : Session) :
    ((readSchema loader document baseUri).run.run session).1 ≠ .error (.fault .exhausted) ∧
    ∀ extra : Cache → Nat,
      (reading loader (fun cache => depthBound loader cache document.value + extra cache) document
        baseUri).run.run session =
      (reading loader (depthBound loader · document.value) document baseUri).run.run session := by
  have lasts : ∀ extra : Cache → Nat, Last
      (reading loader (depthBound loader · document.value) document baseUri)
      (reading loader (fun cache => depthBound loader cache document.value + extra cache) document
        baseUri) session := fun extra =>
    (last_refl (newSession_ends loader session)).bind
      (fun _ later _ _ _ => last_readIn document extra baseUri)
  rw [readSchema_eq]
  exact ⟨(lasts fun _ => 0).ends, fun extra => (lasts extra).same⟩

end Load

end JsonSchema
