import JsonSchema.Proofs.Lookup
import JsonSchema.Proofs.Within

/-!
# Calls in place

Whenever a value is loaded, it stands where its location says: the session keeps the document of the
location under the draft that it is loaded in, and the pointer leads to the value (`IsInPlace`). A
watched loader looks at this at every call, and gives up at the first one that is out of place
(`watchedNode`). Reading a document with it is the same as reading it without
(`watchedReading_eq`): for the rules of `Track` hold of the watched loader too, and no track is a
session that was given up.

So every schema that a document leads to has the place and the draft of the object that it was made
for, and what is recorded is recorded at a place that there is (`reading_keeps_places`). Only a fault
in additional items is recorded at the items of the same object, which may be missing.
-/

namespace JsonSchema.Load

variable {α β : Type} {loader : Loader}

/-! ## Watched calls -/

/-- A value stands in a session where its location says, and its document has the draft. -/
def IsInPlace (session : Session) (value : Json) (location : Location) (draft : Draft) : Prop :=
  ∃ stored, session.documents.lookup location.documentUri = some stored ∧ stored.draft = draft ∧
    Pointer.resolve stored.document.value location.pointer = .ok value

/-- A session that was given up. No loading comes to it, since no document is kept under a URI with a
fragment. -/
def givenUp : Session :=
  let stored := { document := { id := ⟨0⟩, value := .null }, draft := .draft6 }
  { Session.empty with cache := { Cache.empty with documents := [("#", stored)] } }

open Classical in
/-- Loads what is in place, and gives the session up at anything else. -/
noncomputable def watched (load : NodeLoader) : NodeLoader := fun value location draft => do
  if IsInPlace (← get) value location draft then load value location draft
  else
    set givenUp
    throw (.fault .exhausted)

/-- Loads a value as `loadNode` does, with every call watched. -/
noncomputable def watchedNode (loader : Loader) : Nat → NodeLoader
  | 0 => loadNode loader 0
  | depth + 1 => watched (nodeWith loader (watchedNode loader depth))

/-- Reads a document as `reading` does, with every call watched. -/
noncomputable def watchedReading (loader : Loader) (document : Document)
    (baseUri : Option String) : Load Schema :=
  readingVia loader (fun cache => watchedNode loader (depthBound loader cache document.value))
    document baseUri

theorem run_watched {load : NodeLoader} {session : Session} {value : Json} {location : Location}
    {draft : Draft} (inPlace : IsInPlace session value location draft) :
    (watched load value location draft).run.run session =
      (load value location draft).run.run session := by
  unfold watched
  rw [run_bind_ok (show (get : Load Session).run.run session = (.ok session, session) from rfl),
    if_pos inPlace]

theorem run_watched_of_not {load : NodeLoader} {session : Session} {value : Json}
    {location : Location} {draft : Draft} (away : ¬ IsInPlace session value location draft) :
    (watched load value location draft).run.run session =
      (.error (.fault .exhausted), givenUp) := by
  unfold watched
  rw [run_bind_ok (show (get : Load Session).run.run session = (.ok session, session) from rfl),
    if_neg away]
  rfl

/-! ## With and without a watch -/

/-- The second computation gives the session up or does the same as the first one, whose values have
`Q`. -/
structure Heeds (act act' : Load α) (Q : α → Prop) : Prop where
  runs : ∀ session, act'.run.run session = (.error (.fault .exhausted), givenUp) ∨
    act'.run.run session = act.run.run session
  value : ∀ session a later, act.run.run session = (.ok a, later) → Q a

section Rules

variable {act act' : Load α} {Q : α → Prop} {Q' : β → Prop}

theorem heeds_refl (value : ∀ session a later, act.run.run session = (.ok a, later) → Q a) :
    Heeds act act Q :=
  ⟨fun _ => .inr rfl, value⟩

theorem heeds_self (act : Load α) : Heeds act act fun _ => True :=
  heeds_refl fun _ _ _ _ => trivial

theorem Heeds.bind {next next' : α → Load β} (first : Heeds act act' Q)
    (rest : ∀ a, Q a → Heeds (next a) (next' a) Q') :
    Heeds (act >>= next) (act' >>= next') Q' := by
  constructor
  · intro session
    rcases first.runs session with gone | same
    · exact .inl (run_bind_error gone)
    · cases run : act.run.run session with
      | mk result later =>
        rw [run] at same
        cases result with
        | ok a =>
          rw [run_bind_ok run, run_bind_ok same]
          exact (rest a (first.value _ _ _ run)).runs later
        | error stop => exact .inr (by rw [run_bind_error run, run_bind_error same])
  · intro session b later run
    obtain ⟨a, s₁, run₁, run₂⟩ := run_bind_eq_ok run
    exact (rest a (first.value _ _ _ run₁)).value _ _ _ run₂

/-- A session that was given up is not taken up again. -/
theorem heeds_recordingFaults (location : Location) (heeds : Heeds act act' Q) :
    Heeds (recordingFaults loader location act) (recordingFaults loader location act')
      fun _ => True := by
  have kept : Heeds (some <$> act) (some <$> act') fun _ => True := by
    rw [map_eq_pure_bind, map_eq_pure_bind]
    exact heeds.bind (fun a _ => heeds_self _)
  refine ⟨fun session => ?_, fun _ _ _ _ => trivial⟩
  unfold recordingFaults
  rcases kept.runs session with gone | same
  · exact .inl (run_tryCatch_error gone)
  · cases run : (some <$> act).run.run session with
    | mk result later =>
      rw [run] at same
      cases result with
      | ok a => exact .inr (by rw [run_tryCatch_ok run, run_tryCatch_ok same])
      | error stop => exact .inr (by rw [run_tryCatch_error run, run_tryCatch_error same])

end Rules

theorem compatible_heeds (loader : Loader) :
    Compatible Set.univ loader loader.options.strict loader.options.strict @Heeds where
  pure holds := heeds_refl fun _ _ _ run => by
    cases run
    exact holds
  bind := Heeds.bind
  step _ := heeds_self _
  throw _ := heeds_refl fun _ _ _ run => by cases run
  check {_ x} _ := heeds_refl fun _ _ _ run => (run_check run).1
  document _ := heeds_refl fun _ _ _ _ _ _ _ _ => isKeyed_univ _ _ _
  error _ _ _ := heeds_self _
  siblings _ _ := heeds_self _
  unknown _ _ := heeds_self _
  fail _ _ _ := heeds_refl fun _ _ _ run => (run_failAt run).elim
  recording location _ _ heeds := heeds_recordingFaults location heeds

theorem congruence_heeds (loader : Loader) :
    Congruence Set.univ loader loader.options.strict loader.options.strict @Heeds :=
  (compatible_heeds loader).congruence (fun _ => heeds_self _) (fun _ => heeds_self _)

/-- A watched call gives the session up or does the same as one that is not watched. -/
theorem heeds_loadNode (loader : Loader) (depth : Nat) (value : Json) (location : Location)
    (draft : Draft) : Heeds (loadNode loader depth value location draft)
      (watchedNode loader depth value location draft) fun _ => True := by
  induction depth generalizing value location draft with
  | zero => exact heeds_self _
  | succ depth ih =>
    have node : Heeds (nodeWith loader (loadNode loader depth) value location draft)
        (nodeWith loader (watchedNode loader depth) value location draft) fun _ => True :=
      (congruence_heeds loader).nodeWith (fun value location draft _ => ih value location draft)
        (fun _ => heeds_self _) (isPlaced_of_isKeyed (isKeyed_univ _ _ _)) draft
    refine ⟨fun session => ?_, fun _ _ _ _ => trivial⟩
    by_cases inPlace : IsInPlace session value location draft
    · rw [watchedNode, run_watched inPlace]
      exact node.runs session
    · exact .inl (run_watched_of_not inPlace)

theorem heeds_reading (loader : Loader) (document : Document) (baseUri : Option String) :
    Heeds (reading loader (depthBound loader · document.value) document baseUri)
      (watchedReading loader document baseUri) fun _ => True := by
  have read := fun uri => (congruence_heeds loader).readAtVia (fun _ => heeds_self _)
    (fun cache => heeds_loadNode loader (depthBound loader cache document.value)) document uri
  rw [← readingVia_loadNode]
  unfold watchedReading readingVia
  refine (heeds_self _).bind (fun _ _ => ?_)
  split
  · exact (heeds_self _).bind (fun uri _ => read uri)
  · exact (heeds_self _).bind (fun uri _ => read uri)

/-! ## Every call is in place -/

section InPlace

variable {contents : String → Json} {w : Track contents} {document : Document} {root : Location}
  {baseUri : Option String}

theorem Comes.isInPlace {session : Session} {value : Json} {location : Location} {draft : Draft}
    (sound : AreSound session.documents) (comes : Comes session.documents location value draft) :
    IsInPlace session value location draft := by
  obtain ⟨_, _, stored, known, drafted, resolved⟩ := comes.found sound
  exact ⟨stored, known, drafted, resolved⟩

/-- Watched loading keeps up a track, as loading does. -/
theorem tracked_watchedNode (registry : loader.registry = .default)
    (delivers : Delivers contents loader) (depth : Nat) :
    LoadsTracked contents (watchedNode loader depth) := by
  induction depth with
  | zero => exact runs_loadNode registry delivers 0
  | succ depth ih =>
    intro w value location draft due
    unfold watchedNode watched
    refine after_get_bind ?_
    rw [if_pos (due.comes.isInPlace w.sound)]
    exact runs_nodeWith registry delivers ih w value location draft due

/-- No track is a session that was given up. -/
theorem Track.session_ne_givenUp (w : Track contents) : w.session ≠ givenUp := by
  intro same
  have known : ∃ stored, w.documents.lookup "#" = some stored := by
    change ∃ stored, w.session.documents.lookup "#" = some stored
    rw [same]
    exact ⟨_, rfl⟩
  obtain ⟨stored, known⟩ := known
  have fixed := w.sound.places "#" stored known
  have cut : Uri.withoutFragment "#" ≠ .ok "#" := by decide +kernel
  exact cut fixed

/-- A document is read with every call in place: watching the calls makes no difference. -/
theorem watchedReading_eq (ready : loader.IsReady)
    (agree : Agree contents loader [(document, root)])
    (place : rootOf loader document.value baseUri = .ok root) :
    (watchedReading loader document baseUri).run.run .empty =
      (reading loader (depthBound loader · document.value) document baseUri).run.run .empty := by
  refine ((heeds_reading loader document baseUri).runs .empty).resolve_left (fun gone => ?_)
  have tracked : Runs (watchedReading loader document baseUri) (Track.empty contents)
      (fun schema w' => w'.HasRead loader document.value root schema) :=
    runs_readingVia agree _ (fun _ => tracked_watchedNode ready.registry agree.delivered _) ready place
  obtain ⟨w, _, same⟩ := tracked.of_error gone
  exact w.session_ne_givenUp same

/-- Reading a document leaves a track, wherever it stops. -/
theorem exists_readTrack (ready : loader.IsReady)
    (agree : Agree contents loader [(document, root)])
    (place : rootOf loader document.value baseUri = .ok root) :
    ∃ w : Track contents, w.session = readSession loader document baseUri .empty := by
  have read := runs_reading ready agree place
  unfold readSession
  cases whole : (reading loader (depthBound loader · document.value) document baseUri).run.run
      .empty with
  | mk result session =>
    cases result with
    | ok schema =>
      obtain ⟨w, _, same, _⟩ := read.of_ok whole
      exact ⟨w, same⟩
    | error stop =>
      obtain ⟨w, _, same⟩ := read.of_error whole
      exact ⟨w, same⟩

/-! ## Schemas and issues in place -/

/-- A schema is the one of a truth value, or it has the place of an object and the draft of the
object's document. -/
def IsPlacedSchema (session : Session) (schema : Schema) : Prop :=
  schema = .always ∨ schema = .never ∨ ∃ location draft members,
    schema.location? = some location ∧ schema.draft? = some draft ∧
      IsInPlace session (.object members) location draft

/-- The keywords of a schema say what the members of an object say: they were read from them, or the
schema refers to another one. -/
def IsReadFrom (members : List (String × Json)) (draft : Draft) (schema : Schema) : Prop :=
  schema.isReference = true ∨
    members.lookup Builtin.ref.key = none ∧ Reads (fun _ _ _ => True) draft members schema.keywords

/-- The URI of an issue is the one of a place that there is, or of items that are missing. -/
def IsAddressedIssue (documents : Documents) (issue : Issue) : Prop :=
  ∃ base fragment pointer, Uri.splitFragment issue.location = .ok (base, fragment) ∧
    Pointer.parseFragment fragment = .ok pointer ∧ IsAddress documents (base, pointer)

theorem IsStationed.isInPlace {session : Session} {schema : Schema}
    (sound : AreSound session.documents) (stationed : IsStationed session.documents schema) :
    ∃ location draft members, schema.location? = some location ∧ schema.draft? = some draft ∧
      IsInPlace session (.object members) location draft := by
  obtain ⟨received, members, draft, node, location, keywords, comes, same, rfl, _⟩ := stationed
  obtain ⟨document, pointer⟩ := Prod.mk.inj same
  have inPlace := comes.isInPlace sound
  unfold IsInPlace at inPlace
  rw [← document, ← pointer] at inPlace
  exact ⟨location, draft, members, rfl, rfl, inPlace⟩

theorem Track.isPlaced_of_made (w : Track contents) {schema : Schema} (made : w.stock.Made schema) :
    IsPlacedSchema w.session schema :=
  made.imp_right (Or.imp_right fun mem => (w.stationed schema mem).isInPlace w.sound)

/-- What was made without errors says what its object says. -/
theorem Track.isReadFrom_of_made {schema : Schema} {location : Location} (clean : w.stock.IsClean)
    (made : w.stock.Made schema) (here : schema.location? = some location) :
    ∃ members draft, schema.draft? = some draft ∧
      IsInPlace w.session (.object members) location draft ∧ IsReadFrom members draft schema := by
  obtain ⟨received, members, draft, arrives, node⟩ := exists_arrival clean made here
  have inPlace := arrives.comes.isInPlace w.sound
  rcases node with ⟨rfl, id, node, ref, uri, rfl⟩ | ⟨rfl, node, keywords, rfl, built⟩
  · exact ⟨members, draft, rfl, inPlace, .inl rfl⟩
  · refine ⟨members, draft, rfl, ?_, ?_⟩
    · obtain ⟨document, pointer⟩ := Prod.mk.inj (Session.ofObject_place draft received members)
      unfold IsInPlace
      rw [document, pointer]
      exact inPlace
    · split at built
      · obtain ⟨text, uri, target, _, _, rfl, _⟩ := built
        exact .inl rfl
      · next plain => exact .inr ⟨plain, built.2.mono (fun _ _ _ _ => trivial)⟩

theorem IsPlacedIssue.isAddressed {documents : Documents} {issue : Issue}
    (normal : ∀ uri, (documents.lookup uri).isSome → Uri.IsNormal uri)
    (placed : IsPlacedIssue documents issue) : IsAddressedIssue documents issue := by
  obtain ⟨location, same, address⟩ := placed
  have known : (documents.lookup location.documentUri).isSome := by
    generalize there : location.place = place at address
    cases address with
    | value here =>
      obtain ⟨stored, known, _⟩ := here
      rw [← there] at known
      exact Option.isSome_iff_exists.2 ⟨stored, known⟩
    | missing here _ _ =>
      obtain ⟨stored, known, _⟩ := here
      rw [← (Prod.mk.inj there).1] at known
      exact Option.isSome_iff_exists.2 ⟨stored, known⟩
  exact ⟨location.documentUri, _, location.pointer, Location.split_fragmentOf (normal _ known) same,
    Pointer.parseFragment_encode _, address⟩

/-- All that is said about places of the session in which a document is read. -/
structure KeepsPlaces (loader : Loader) (document : Document) (baseUri : Option String) :
    Prop where
  /-- Every value that is loaded stands at its location, under the draft that it is loaded in. -/
  calls : (watchedReading loader document baseUri).run.run .empty =
    (reading loader (depthBound loader · document.value) document baseUri).run.run .empty
  /-- Every schema in the graph has the place of an object, even if errors were recorded. -/
  graph : ∀ id schema,
    (readSession loader document baseUri .empty).graph.schema? id = some schema →
    IsPlacedSchema (readSession loader document baseUri .empty) schema
  /-- The schemas that the document leads to have places, and say what stands there. -/
  schemas : ∀ schema after other,
    (readSchema loader document baseUri).run.run .empty = (.ok schema, after) →
    Relation.ReflTransGen (Schema.LeadsTo after.graph) schema other →
    other = .always ∨ other = .never ∨ ∃ location members draft,
      other.location? = some location ∧ other.draft? = some draft ∧
      IsInPlace (readSession loader document baseUri .empty) (.object members) location draft ∧
      IsReadFrom members draft other
  /-- Issues are recorded at places. -/
  issues : ∀ issue ∈ (readSession loader document baseUri .empty).report.issues,
    IsAddressedIssue (readSession loader document baseUri .empty).documents issue

/-- Reading a document keeps places, if no other document is preloaded or served under its URI and
the URIs of the documents are normal. -/
theorem reading_keeps_places (ready : loader.IsReady)
    (agree : Agree contents loader [(document, root)])
    (place : rootOf loader document.value baseUri = .ok root)
    (normal : ∀ uri, ((readSession loader document baseUri .empty).documents.lookup uri).isSome →
      Uri.IsNormal uri) : KeepsPlaces loader document baseUri := by
  obtain ⟨w, same⟩ := exists_readTrack ready agree place
  refine ⟨watchedReading_eq ready agree place, ?_, ?_, ?_⟩
  · rw [← same]
    exact fun id schema bound => w.isPlaced_of_made (w.made id schema bound)
  · intro schema after other run leads
    obtain ⟨w, same, graph, read⟩ := exists_hasRead ready agree place run
    rw [← same]
    rw [← graph] at leads
    have made : w.stock.Made schema := read.stands.loaded.1
    have made := Track.made_leads read.clean made leads
    rcases w.isPlaced_of_made made with always | never | ⟨location, _, _, here, _⟩
    · exact .inl always
    · exact .inr (.inl never)
    · obtain ⟨members, draft, rest⟩ := Track.isReadFrom_of_made read.clean made here
      exact .inr (.inr ⟨location, members, draft, here, rest⟩)
  · rw [← same] at normal ⊢
    exact fun issue mem => (w.placed issue mem).isAddressed normal

/-- The list is read with everything in place. -/
theorem linked_keeps_places :
    KeepsPlaces Linked.loader Linked.document (some Linked.root.documentUri) := by
  refine reading_keeps_places Linked.isReady Linked.agree (by decide +kernel) (fun uri known => ?_)
  have keys : Members.keys (readSession Linked.loader Linked.document
      (some Linked.root.documentUri) .empty).documents = [Linked.root.documentUri] := by
    decide +kernel
  obtain ⟨stored, found⟩ := Option.isSome_iff_exists.1 known
  have mem := List.mem_map_of_mem (f := Prod.fst) (Members.mem_of_lookup found)
  change uri ∈ Members.keys _ at mem
  rw [keys, List.mem_singleton] at mem
  rw [mem]
  decide +kernel

end InPlace

end JsonSchema.Load
