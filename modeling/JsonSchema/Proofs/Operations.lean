import JsonSchema.Proofs.Fragment
import JsonSchema.Proofs.World

/-!
# The operations of a session

What each operation on the session of a loading computation does to a world, as a rule about
`After`. Reading leaves the world as it is. Issues are added to the report and nothing else changes.
A schema that is started has an unbound handle until it is bound, so between the two the world only
extends the one before (`World.Opens`); binding closes the gap (`Load.run_bind`).
-/

namespace JsonSchema

/-! ## Handles of a graph -/

theorem HandleId.ext {a b : HandleId} (same : a.index = b.index) : a = b := by
  cases a
  cases b
  cases same
  rfl

namespace SchemaGraph

variable {graph : SchemaGraph} {location : Location} {id : HandleId}

theorem handle_addHandle (old : id.index < graph.handles.size) :
    (graph.addHandle location).2.handle? id = graph.handle? id := by
  have new : id.index ≠ graph.handles.size := by omega
  show (graph.handles.push _)[id.index]? = graph.handles[id.index]?
  rw [Array.getElem?_push, if_neg new]

theorem size_addHandle :
    (graph.addHandle location).2.handles.size = graph.handles.size + 1 :=
  Array.size_push _

theorem schema_addHandle : (graph.addHandle location).2.schema? id = graph.schema? id := by
  show ((graph.handles.push _)[id.index]?).bind _ = (graph.handles[id.index]?).bind _
  rw [Array.getElem?_push]
  split
  · next new =>
    rw [new, Array.getElem?_size]
    rfl
  · rfl

/-- A new handle is not bound. -/
theorem schema_addHandle_new (graph : SchemaGraph) (location : Location) :
    (graph.addHandle location).2.schema? ⟨graph.handles.size⟩ = none := by
  rw [schema_addHandle]
  show (graph.handles[graph.handles.size]?).bind _ = none
  rw [Array.getElem?_size]
  rfl

/-- Binding an unbound handle changes what is found under it and nothing else. -/
theorem exists_bind (schema : Schema) (inside : id.index < graph.handles.size)
    (unbound : graph.schema? id = none) :
    ∃ graph', graph.bind id schema = .ok graph' ∧ graph'.handles.size = graph.handles.size ∧
      (∀ other : HandleId, other ≠ id → graph'.handle? other = graph.handle? other) ∧
      graph'.schema? id = some schema := by
  unfold bind
  rw [unbound]
  refine ⟨_, rfl, Array.size_modify, fun other different => ?_, ?_⟩
  · show (graph.handles.modify id.index _)[other.index]? = graph.handles[other.index]?
    have elsewhere : id.index ≠ other.index := fun equal => different (HandleId.ext equal.symm)
    rw [Array.getElem?_modify, if_neg elsewhere]
  · show ((graph.handles.modify id.index _)[id.index]?).bind _ = some schema
    rw [Array.getElem?_modify, if_pos rfl, Array.getElem?_eq_getElem inside]
    rfl

end SchemaGraph

/-! ## Keys of a cache -/

theorem Members.mem_putNew {α : Type} {members : List (String × α)} {key : String} {value : α}
    {entry : String × α} (mem : entry ∈ putNew members key value) :
    entry ∈ members ∨ entry = (key, value) := by
  unfold putNew at mem
  split at mem
  · exact .inl mem
  · exact (List.mem_append.1 mem).imp_right List.mem_singleton.1

theorem Members.mem_put {κ α : Type} [DecidableEq κ] {members : List (κ × α)} {key : κ} {value : α}
    {entry : κ × α} (mem : entry ∈ put members key value) :
    entry = (key, value) ∨ entry ∈ members := by
  induction members with
  | nil => exact .inl (List.mem_singleton.1 mem)
  | cons first rest ih =>
    obtain ⟨other, old⟩ := first
    rw [put] at mem
    split at mem
    · rcases List.mem_cons.1 mem with same | later
      · exact .inl same
      · exact .inr (List.mem_cons_of_mem _ later)
    · rcases List.mem_cons.1 mem with same | later
      · rw [same]
        exact .inr List.mem_cons_self
      · exact (ih later).imp_right (List.mem_cons_of_mem _)

theorem Members.mem_keys_put {α : Type} {members : List (String × α)} {key other : String}
    {value : α} (mem : other ∈ keys (put members key value)) :
    other = key ∨ other ∈ keys members := by
  obtain ⟨entry, listed, rfl⟩ := List.mem_map.1 mem
  rcases mem_put listed with rfl | old
  · exact .inl rfl
  · exact .inr (List.mem_map_of_mem old)

theorem Members.nodup_put {α : Type} {members : List (String × α)} (key : String) (value : α)
    (nodup : (keys members).Nodup) : (keys (put members key value)).Nodup := by
  induction members with
  | nil => exact List.nodup_cons.2 ⟨List.not_mem_nil, List.nodup_nil⟩
  | cons first rest ih =>
    obtain ⟨other, old⟩ := first
    obtain ⟨outside, nodup⟩ := List.nodup_cons.1 nodup
    rw [put]
    split
    · next same =>
      subst same
      exact List.nodup_cons.2 ⟨outside, nodup⟩
    · next different =>
      refine List.nodup_cons.2 ⟨fun mem => ?_, ih nodup⟩
      rcases mem_keys_put mem with same | inside
      · exact different same
      · exact outside inside

/-- What is there stays, and a key that had no value gets the new one. -/
theorem Members.lookup_putNew {α : Type} (members : List (String × α)) (key other : String)
    (value : α) : (putNew members key value).lookup other =
      (members.lookup other).or (if other = key then some value else none) := by
  unfold putNew
  split
  · next old found =>
    by_cases same : other = key
    · rw [same, found]
      rfl
    · rw [if_neg same, Option.or_none]
  · rw [List.lookup_append]
    by_cases same : other = key
    · rw [if_pos same, same, List.lookup_cons_self]
    · rw [if_neg same, List.lookup_cons, beq_eq_false_iff_ne.2 same]
      rfl

namespace Cache

variable {cache : Cache} {uris : List String} {handle : HandleId}

theorem mem_enter {entry : String × HandleId} (mem : entry ∈ (cache.enter uris handle).handles) :
    entry ∈ cache.handles ∨ entry.2 = handle := by
  unfold enter at mem
  dsimp only at mem
  generalize cache.handles = handles at mem ⊢
  induction uris generalizing handles with
  | nil => exact .inl mem
  | cons uri rest ih =>
    rcases ih _ mem with early | new
    · rcases Members.mem_putNew early with old | rfl
      · exact .inl old
      · exact .inr rfl
    · exact .inr new

/-- What has a handle keeps it, and what has none gets the new one where it is entered. -/
theorem lookup_enter (cache : Cache) (uris : List String) (handle : HandleId) (key : String) :
    (cache.enter uris handle).handles.lookup key =
      (cache.handles.lookup key).or (if key ∈ uris then some handle else none) := by
  unfold enter
  dsimp only
  generalize cache.handles = handles
  induction uris generalizing handles with
  | nil => rw [if_neg List.not_mem_nil, Option.or_none, List.foldl_nil]
  | cons uri rest ih =>
    rw [List.foldl_cons, ih, Members.lookup_putNew, Option.or_assoc]
    congr 1
    by_cases first : key = uri
    · rw [if_pos first, Option.some_or, first, if_pos List.mem_cons_self]
    · simp only [List.mem_cons, first, if_false, Option.none_or, false_or]

/-- A key that has no handle had none before and was not entered. -/
theorem lookup_enter_none {key : String}
    (missing : (cache.enter uris handle).handles.lookup key = none) :
    cache.handles.lookup key = none ∧ key ∉ uris := by
  rw [lookup_enter, Option.or_eq_none_iff] at missing
  exact ⟨missing.1, fun mem => by simp [mem] at missing⟩

end Cache

/-- A world with one handle more, which is not bound yet. -/
structure World.Opens {keys : Set String} (w : World keys) (handle : HandleId) (w' : World keys) :
    Prop where
  index : handle.index = w.size
  size : w'.size = w.size + 1
  extended : w.session.Extends w'.session
  unbound : w'.session.graph.schema? handle = none

namespace Load

variable {keys : Set String} {w : World keys} {α : Type}
  {stop : World keys → Stop → Session → Prop}

/-- Loading a schema ends in a world above with `Q`, or stops as it may. -/
abbrev Ends (act : Load α) (w : World keys) (Q : α → World keys → Prop) : Prop :=
  After World.session World.Stops act w Q

/-- Loading the value of a keyword ends in a world above with `Q`, or stops as it may. -/
abbrev Yields (act : Load α) (w : World keys) (Q : α → World keys → Prop) : Prop :=
  After World.session World.Breaks act w Q

/-- A run from a session that extends a world, seen from that world. -/
theorem outcome_rebase {w' : World keys} {act : Load α} {Q : α → World keys → Prop}
    (h : Ends act w' (fun a w'' => w ≤ w'' ∧ Q a w''))
    (extended : w.session.Extends w'.session) :
    Outcome World.session World.Stops w Q (act.run.run w'.session) := by
  cases run : act.run.run w'.session with
  | mk result s =>
    cases result with
    | ok a =>
      obtain ⟨w'', _, same, up, holds⟩ := h.of_ok run
      exact ⟨w'', up, same, holds⟩
    | error stop =>
      obtain ⟨w'', same, extended', allowed⟩ := h.of_error run
      exact ⟨w'', same, extended.trans extended', allowed⟩

/-! ## Checks and reading -/

theorem absoluteUri_ok {location : Location} {listed : List String}
    (places : location.cacheKeys = .ok listed) : ∃ key, location.absoluteUri = .ok key := by
  obtain ⟨key, place, _⟩ := except_bind_ok places
  exact ⟨key, place⟩

/-- The absolute URI of a location is one of its keys. -/
theorem absoluteUri_mem {location : Location} {listed : List String} {key : String}
    (places : location.cacheKeys = .ok listed) (place : location.absoluteUri = .ok key) :
    key ∈ listed := by
  unfold Location.cacheKeys at places
  obtain ⟨absolute, same, places⟩ := except_bind_ok places
  rw [place] at same
  cases same
  obtain ⟨canonical, _, places⟩ := except_bind_ok places
  obtain ⟨identifier, _, places⟩ := except_bind_ok places
  cases places
  split <;> split <;> simp

theorem after_check {x : Except Fault α} {Q : α → World keys → Prop}
    (error : ∀ fault, x = .error fault → stop w (.fault fault) w.session)
    (ok : ∀ a, x = .ok a → Q a w) : After World.session stop (check x) w Q := by
  cases x with
  | ok a => exact after_pure (ok a rfl)
  | error fault => exact after_throw (error fault rfl)

theorem after_checkUri {x : Except Uri.UriFault α} {Q : α → World keys → Prop}
    (ok : ∀ a, x = .ok a → Q a w) : Ends (checkUri x) w Q := by
  refine after_check (fun fault fails => ?_) (fun a same => ok a (mapError_ok same))
  obtain ⟨_, _, rfl⟩ := mapError_error fails
  exact World.stops_fault trivial

theorem after_check_bind [Descending stop] {β : Type} {x : Except Fault α} {next : α → Load β}
    {Q : β → World keys → Prop}
    (error : ∀ fault, x = .error fault → stop w (.fault fault) w.session)
    (rest : ∀ a, x = .ok a → After World.session stop (next a) w Q) :
    After World.session stop (check x >>= next) w Q := by
  cases x with
  | ok a => exact rest a rfl
  | error fault => exact after_of_error (run_bind_error rfl) (error fault rfl)

theorem after_checkUri_bind {β : Type} {x : Except Uri.UriFault α} {next : α → Load β}
    {Q : β → World keys → Prop}
    (rest : ∀ a, x = .ok a → Ends (next a) w Q) :
    Ends (checkUri x >>= next) w Q := by
  refine after_check_bind (fun fault fails => ?_) (fun a same => rest a (mapError_ok same))
  obtain ⟨_, _, rfl⟩ := mapError_error fails
  exact World.stops_fault trivial

/-- Reading the session and checking something about it. -/
theorem after_read {read : Session → Except Uri.UriFault α} {Q : α → World keys → Prop}
    (ok : ∀ a, read w.session = .ok a → Q a w) :
    Ends (do checkUri (read (← get))) w Q := by
  exact after_get_bind (after_checkUri ok)

theorem after_lookup (uri : String) : Ends (lookup uri) w
    (fun found w' => ∀ id, found = some id → id.index < w'.size) := by
  refine after_read (fun found ok id same => ?_)
  obtain ⟨key, _, ok⟩ := except_bind_ok ok
  cases ok
  exact w.sound.entries _ (Members.mem_of_lookup same)

theorem after_lookupLocation (location : Location) :
    Ends (lookupLocation location) w (fun found w' => w' = w ∧
      (∀ id, found = some id → id.index < w.size) ∧
      (found = none → ∀ key, location.absoluteUri = .ok key →
        w.session.cache.handles.lookup key = none)) := by
  refine after_read (fun found ok => ?_)
  obtain ⟨listed, places, ok⟩ := except_bind_ok ok
  cases ok
  refine ⟨rfl, fun id same => ?_, fun missing key place => ?_⟩
  · obtain ⟨key, _, found⟩ := List.exists_of_findSome?_eq_some same
    exact w.sound.entries _ (Members.mem_of_lookup found)
  · refine List.findSome?_eq_none_iff.1 missing key ?_
    exact absoluteUri_mem places place

theorem after_document (uri : String) : Ends (document? uri) w
    (fun found w' => w' = w ∧ ∃ key, Uri.withoutFragment uri = .ok key ∧
      w.session.cache.documents.lookup key = found) := by
  refine after_read (fun found ok => ?_)
  obtain ⟨key, place, ok⟩ := except_bind_ok ok
  cases ok
  exact ⟨rfl, key, place, rfl⟩

/-! ## Issues -/

theorem hasErrors_add {report : LoadReport} {issue : Issue} (error : issue.isError = true) :
    (report.add issue).hasErrors = true :=
  List.any_eq_true.2 ⟨issue, List.mem_append_right _ List.mem_cons_self, error⟩

/-- An issue at a location, as far as this has a URI. -/
theorem bind_issueAt (code : IssueCode) (level : IssueLevel) (location : Location)
    (problem : Problem) (next : Issue → Load α) :
    issueAt code level location problem >>= next =
      checkUri location.absoluteUri >>= fun place =>
        next { code, level, location := place, problem } := by
  unfold issueAt
  rw [bind_assoc]
  rfl

/-- An issue may end the session; if not, it is in the report. -/
theorem after_record {strict : Bool} {issue : Issue}
    (serious : issue.isFatal = true → issue.isError = true) :
    Ends (record strict issue) w
      (fun _ w' => w' = w.withReport (w.session.report.add issue)) := by
  refine after_modify_bind (w.le_add issue) rfl ?_
  split
  · next ends =>
    have error : issue.isError = true := by
      rcases Bool.or_eq_true_iff.1 ends with fatal | strict
      · exact serious fatal
      · exact (Bool.and_eq_true_iff.1 strict).1
    exact after_get_bind (after_throw ⟨_, rfl, .refl _, hasErrors_add error⟩)
  · exact after_pure rfl

theorem after_fail {issue : Issue} {Q : α → World keys → Prop} (error : issue.isError = true) :
    Ends (fail issue) w Q := by
  refine after_modify_bind (w.le_add issue) rfl ?_
  exact after_get_bind (after_throw ⟨_, rfl, .refl _, hasErrors_add error⟩)

theorem after_issueAt (code : IssueCode) (level : IssueLevel) (location : Location)
    (problem : Problem) : Ends (issueAt code level location problem) w
      (fun issue _ => issue.code = code ∧ issue.level = level) := by
  refine after_bind (Q := fun _ _ => True) (after_checkUri (fun _ _ => trivial)) ?_
  exact fun _ _ _ _ => after_pure ⟨rfl, rfl⟩

theorem after_recordError (loader : Loader) (code : IssueCode) (location : Location)
    (problem : Problem) :
    Ends (recordError loader code location problem) w
      (fun _ _ => True) := by
  refine after_bind (after_issueAt code .error location problem) ?_
  rintro issue w' _ ⟨_, level⟩
  have error : issue.isError = true := decide_eq_true level
  exact after_mono (after_record (fun _ => error)) (fun _ _ _ _ => trivial)

theorem after_recordWarning (loader : Loader) {code : IssueCode} (mild : code.isFatal = false)
    (location : Location) (problem : Problem) :
    Ends (recordWarning loader code location problem) w
      (fun _ _ => True) := by
  refine after_bind (after_issueAt code .warn location problem) ?_
  rintro issue w' _ ⟨same, _⟩
  refine after_mono (after_record (fun fatal => ?_)) (fun _ _ _ _ => trivial)
  rw [Issue.isFatal, same, mild] at fatal
  cases fatal

theorem after_failAt (code : IssueCode) (location : Location) (problem : Problem)
    {Q : α → World keys → Prop} :
    Ends (failAt code location problem) w Q := by
  refine after_bind (after_issueAt code .error location problem) ?_
  rintro issue w' _ ⟨_, level⟩
  exact after_fail (decide_eq_true level)

/-! ## Faults of values -/

theorem ofFault_isError (place : String) (fault : Fault) :
    (Issue.ofFault place fault).isError = true := by
  unfold Issue.ofFault
  split <;> rfl

/-- The world after a fault about a value was recorded: it is broken, if the fault may have left a
schema unfinished. -/
theorem le_recorded {w' : World keys} {fault : Fault} (unusable : fault.isValueFault = true)
    (extended : w.session.Extends w'.session) (allowed : fault.Escapes ∨ w ≤ w') (place : String) :
    w ≤ w'.withReport (w'.session.report.add (.ofFault place fault)) := by
  rcases allowed with escapes | up
  · refine ⟨extended.trans (w'.extends_add _), .inr ?_⟩
    cases fault with
    | badUri reason =>
      exact ⟨_, List.mem_append_right _ List.mem_cons_self, ofFault_isError place _, reason, rfl⟩
    | badPointer _ => cases unusable
    | notAPattern _ => cases unusable
    | _ => exact escapes.elim
  · exact le_trans up (w'.le_add _)

/-- Faults about a value become issues. -/
theorem after_recordingFaults {act : Load α} {Q : α → World keys → Prop} (loader : Loader)
    (location : Location) (body : Yields act w Q) :
    Ends (recordingFaults loader location act) w
      (fun result w' => ∀ a, result = some a → Q a w') := by
  have kept : Yields (some <$> act) w
      (fun result w' => ∀ a, result = some a → Q a w') := by
    refine after_map (after_mono body (fun a w' _ holds => ?_))
    rintro _ ⟨⟩
    exact holds
  refine after_tryCatch kept ?_
  rintro stop s ⟨w', rfl, extended, allowed⟩
  cases stop with
  | rejected report => exact ⟨w', rfl, extended, allowed⟩
  | fault fault =>
    dsimp only
    split
    · next unusable =>
      have handled : Ends (do
            record loader.options.strict (.ofFault (← checkUri location.absoluteUri) fault)
            return none : Load (Option α)) w'
          (fun result w'' => w ≤ w'' ∧ ∀ a, result = some a → Q a w'') := by
        refine after_bind (Q := fun _ w'' => w'' = w') (after_checkUri (fun _ _ => rfl)) ?_
        rintro place _ _ rfl
        refine after_bind (after_record (fun _ => ofFault_isError place fault)) ?_
        rintro _ _ _ rfl
        refine after_pure ⟨le_recorded unusable extended (allowed.imp_right And.right) place, ?_⟩
        exact fun _ same => nomatch same
      exact outcome_rebase handled extended
    · next other =>
      rcases allowed with escapes | ⟨unusable, _⟩
      · exact ⟨w', rfl, extended, escapes⟩
      · exact absurd unusable other

/-! ## Starting and binding -/

theorem extends_addHandle {session : Session} {cache : Cache} {location : Location}
    (entered : ∀ key, cache.handles.lookup key = none →
      session.cache.handles.lookup key = none) :
    session.Extends { session with cache, graph := (session.graph.addHandle location).2 } where
  handles _ old := SchemaGraph.handle_addHandle old
  size := by
    show _ ≤ (session.graph.addHandle location).2.handles.size
    rw [SchemaGraph.size_addHandle]
    exact Nat.le_succ _
  entered := entered
  issues _ mem := mem

/-- A new handle is given out, and is put into the cache or not. -/
theorem exists_opens (w : World keys) (location : Location) (cache : Cache)
    (documents : cache.documents = w.session.cache.documents)
    (entries : ∀ entry ∈ cache.handles, entry ∈ w.session.cache.handles ∨ entry.2 = ⟨w.size⟩)
    (entered : ∀ key, cache.handles.lookup key = none →
      w.session.cache.handles.lookup key = none) :
    ∃ w' : World keys, w'.session = { w.session with
      cache, graph := (w.session.graph.addHandle location).2 } ∧ w.Opens ⟨w.size⟩ w' := by
  have size : (w.session.graph.addHandle location).2.handles.size = w.size + 1 :=
    SchemaGraph.size_addHandle
  have graph : (w.session.graph.addHandle location).2.IsSound := by
    intro id schema found
    rw [SchemaGraph.schema_addHandle] at found
    rw [size]
    exact (w.sound.graph id schema found).mono (Nat.le_succ _)
  have inside : ∀ entry ∈ cache.handles,
      entry.2.index < (w.session.graph.addHandle location).2.handles.size := by
    intro entry mem
    rw [size]
    rcases entries entry mem with old | new
    · exact Nat.lt_succ_of_lt (w.sound.entries entry old)
    · rw [new]
      exact Nat.lt_succ_self _
  refine ⟨⟨_, graph, inside, ?_, ?_, ?_⟩, rfl, rfl, size, extends_addHandle entered, ?_⟩
  · exact documents ▸ w.sound.places
  · exact documents ▸ w.sound.values
  · exact documents ▸ w.sound.keyed
  · exact SchemaGraph.schema_addHandle_new _ _

theorem run_checkUri_eq {x : Except Uri.UriFault α} {a : α} {session : Session} (ok : x = .ok a) :
    (checkUri x).run.run session = (.ok a, session) := by
  rw [ok]
  rfl

/-- Looking a location up leaves the session as it is. -/
theorem run_lookupLocation_eq {session : Session} {location : Location} {found : Option HandleId}
    (met : session.cache.lookupLocation location = .ok found) :
    (lookupLocation location).run.run session = (.ok found, session) :=
  run_checkUri_eq met

theorem run_start (session : Session) (location : Location) :
    (start location).run.run session =
      match session.cache.start session.graph location with
      | .ok (handle, cache, graph) => (.ok handle, { session with cache, graph })
      | .error fault => (.error (.fault (.badUri fault)), session) := by
  change (checkUri (session.cache.start session.graph location) >>= _).run.run session = _
  cases session.cache.start session.graph location with
  | ok started => rfl
  | error fault => rfl

theorem run_bind (session : Session) (handle : HandleId) (schema : Schema) :
    (bind handle schema).run.run session =
      match session.graph.bind handle schema with
      | .ok graph => (.ok ⟨⟩, { session with graph })
      | .error fault => (.error (.fault fault), session) := by
  change (check (session.graph.bind handle schema) >>= _).run.run session = _
  cases session.graph.bind handle schema with
  | ok graph => rfl
  | error fault => rfl

/-- Starting a schema opens a gap, which the rest has to close. -/
theorem after_start_bind {location : Location} {next : HandleId → Load α}
    {Q : α → World keys → Prop}
    (rest : ∀ (handle : HandleId) (w₁ : World keys), w.Opens handle w₁ →
      (∃ key, location.absoluteUri = .ok key ∧
        (w₁.session.cache.handles.lookup key).isSome) →
      Outcome World.session World.Stops w Q ((next handle).run.run w₁.session)) :
    Ends (start location >>= next) w Q := by
  cases places : location.cacheKeys with
  | error fault =>
    have run : (start location).run.run w.session
        = (.error (.fault (.badUri fault)), w.session) := by
      rw [run_start, Cache.start, places]
      rfl
    exact after_of_error (run_bind_error run) (World.stops_fault trivial)
  | ok listed =>
    obtain ⟨w₁, session, opened⟩ := exists_opens w location
      (w.session.cache.enter listed ⟨w.size⟩) rfl (fun _ mem => Cache.mem_enter mem)
      (fun _ missing => (Cache.lookup_enter_none missing).1)
    have run : (start location).run.run w.session = (.ok ⟨w.size⟩, w₁.session) := by
      rw [run_start, Cache.start, places, session]
      rfl
    unfold Ends After
    rw [run_bind_ok run]
    obtain ⟨key, place⟩ := absoluteUri_ok places
    refine rest _ w₁ opened ⟨key, place, ?_⟩
    rw [session]
    cases missing : (w.session.cache.enter listed ⟨w.size⟩).handles.lookup key with
    | some handle => rfl
    | none => exact absurd (absoluteUri_mem places place) (Cache.lookup_enter_none missing).2

/-- Binding the handle of a schema that was started closes the gap. -/
theorem exists_run_bind {handle : HandleId} {w₁ w₂ : World keys} {schema : Schema}
    (opened : w.Opens handle w₁) (up : w₁ ≤ w₂) (within : schema.IsWithin w₂.size) :
    ∃ w₃ : World keys, (bind handle schema).run.run w₂.session = (.ok ⟨⟩, w₃.session) ∧
      w ≤ w₃ ∧ w₃.size = w₂.size := by
  have inside : handle.index < w₁.size := by
    rw [opened.index, opened.size]
    exact Nat.lt_succ_self _
  have later : handle.index < w₂.size := Nat.lt_of_lt_of_le inside (World.size_le up)
  have unbound : w₂.session.graph.schema? handle = none := by
    rw [up.1.schema? inside, opened.unbound]
  obtain ⟨graph, bound, size, others, found⟩ :=
    SchemaGraph.exists_bind schema later unbound
  have kept : ∀ other : HandleId, other ≠ handle →
      graph.schema? other = w₂.session.graph.schema? other := by
    intro other different
    unfold SchemaGraph.schema?
    rw [others other different]
  have sound : graph.IsSound := by
    intro id other bound
    rw [size]
    by_cases same : id = handle
    · rw [same, found] at bound
      cases bound
      exact within
    · rw [kept id same] at bound
      exact w₂.sound.graph id other bound
  have entries : ∀ entry ∈ w₂.session.cache.handles, entry.2.index < graph.handles.size := by
    rw [size]
    exact w₂.sound.entries
  have extended := opened.extended.trans up.1
  refine ⟨⟨{ w₂.session with graph }, sound, entries, w₂.sound.places, w₂.sound.values,
    w₂.sound.keyed⟩, ?_, ⟨⟨?_, ?_, extended.entered, extended.issues⟩, ?_⟩, size⟩
  · rw [run_bind, bound]
  · intro id old
    have different : id ≠ handle := by
      rintro rfl
      rw [opened.index] at old
      exact Nat.lt_irrefl _ old
    show graph.handle? id = _
    rw [others id different, extended.handles id old]
  · exact le_of_le_of_eq extended.size size.symm
  · refine up.2.imp (fun settled id new inside' => ?_) (fun broken => broken)
    show (graph.schema? id).isSome
    by_cases same : id = handle
    · rw [same, found]
      rfl
    · rw [kept id same]
      refine settled id ?_ (lt_of_lt_of_eq inside' size)
      have different : id.index ≠ w.size := by
        rw [← opened.index]
        exact fun equal => same (HandleId.ext equal)
      show w₁.size ≤ id.index
      rw [opened.size]
      exact Nat.lt_of_le_of_ne new (Ne.symm different)

/-- The rest of a schema that was started, up to the binding of its handle. -/
theorem outcome_opened {handle : HandleId} {w₁ : World keys} {act : Load Schema}
    (opened : w.Opens handle w₁)
    (body : Ends act w₁ (fun schema w' => schema.IsWithin w'.size)) :
    Outcome World.session World.Stops w (fun schema w' => schema.IsWithin w'.size)
      ((do let schema ← act; bind handle schema; return schema : Load Schema).run.run
        w₁.session) := by
  cases run : act.run.run w₁.session with
  | mk result s =>
    cases result with
    | ok schema =>
      obtain ⟨w₂, up, rfl, within⟩ := body.of_ok run
      obtain ⟨w₃, bound, up', size⟩ := exists_run_bind opened up within
      rw [run_bind_ok run, run_bind_ok bound]
      refine ⟨w₃, up', rfl, ?_⟩
      show schema.IsWithin w₃.size
      rw [size]
      exact within
    | error stop =>
      obtain ⟨w₂, same, extended, allowed⟩ := body.of_error run
      rw [run_bind_error run]
      exact ⟨w₂, same, opened.extended.trans extended, allowed⟩

theorem after_addBound {location : Location} {schema : Schema} (within : schema.IsWithin w.size) :
    Ends (addBound location schema) w
      (fun id w' => id.index < w'.size) := by
  obtain ⟨w₁, session, opened⟩ := exists_opens w location w.session.cache rfl
    (fun _ mem => .inl mem) (fun _ missing => missing)
  have larger : schema.IsWithin w₁.size := within.mono (opened.size ▸ Nat.le_succ _)
  obtain ⟨w₂, bound, up, size⟩ := exists_run_bind opened le_rfl larger
  refine after_of_ok (a := ⟨w.size⟩) (s := w₂.session) ?_ up rfl ?_
  · rw [session] at bound
    exact run_bind_ok bound
  · show w.size < w₂.size
    rw [size, opened.size]
    exact Nat.lt_succ_self _

theorem after_addNode {location : Location} {draft : Draft}
    {keywords : List (Keyword × KeywordValue)} (within : AreWithin w.size keywords) :
    Ends (addNode location draft keywords) w
      (fun schema w' => schema.IsWithin w'.size) := by
  let graph : SchemaGraph := { w.session.graph with nextNode := w.session.graph.nextNode + 1 }
  let w' : World keys := ⟨{ w.session with graph }, w.sound.graph, w.sound.entries,
    w.sound.places, w.sound.values, w.sound.keyed⟩
  have up : w ≤ w' := World.le_of_same rfl (fun _ missing => missing) rfl
  refine after_get_bind (after_set_bind up rfl (after_pure ?_))
  exact Schema.isWithin_iff.2 within

theorem after_enterUri {uri : String} {handle : HandleId} (inside : handle.index < w.size) :
    Ends (enterUri uri handle) w (fun _ _ => True) := by
  refine after_get_bind (after_checkUri_bind (fun cache ok => ?_))
  obtain ⟨key, _, same⟩ := except_bind_ok ok
  cases same
  have entries : ∀ entry ∈ (w.session.cache.enter [key] handle).handles,
      entry.2.index < w.size := by
    intro entry mem
    rcases Cache.mem_enter mem with old | new
    · exact w.sound.entries entry old
    · rw [new]
      exact inside
  let w' : World keys := ⟨{ w.session with cache := w.session.cache.enter [key] handle },
    w.sound.graph, entries, w.sound.places, w.sound.values, w.sound.keyed⟩
  have up : w ≤ w' :=
    World.le_of_same rfl (fun _ missing => (Cache.lookup_enter_none missing).1) rfl
  exact after_set (Q := fun _ _ => True) up rfl trivial

/-- A document can be stored where none is. -/
theorem after_addDocument {uri key : String} {document : Document} {draft : Draft}
    (place : Uri.withoutFragment uri = .ok key)
    (absent : w.session.cache.documents.lookup key = none) (proper : document.value.IsProper)
    (keyed : document.value.IsKeyed keys key []) :
    Ends (addDocument uri document draft) w
      (fun _ w' => (w'.session.cache.documents.lookup key).isSome ∧
        ∀ other, other ≠ key → w'.session.cache.documents.lookup other
          = w.session.cache.documents.lookup other) := by
  let cache : Cache := { w.session.cache with
    documents := Members.put w.session.cache.documents key { document, draft } }
  have stored : w.session.cache.addDocument uri document draft = .ok cache := by
    unfold Cache.addDocument
    rw [place]
    change ((pure key : Except Fault String) >>= _) = _
    rw [pure_bind]
    dsimp only
    rw [absent]
    rfl
  have found : cache.documents.lookup key = some { document, draft } := by
    rw [Members.lookup_put, if_pos rfl]
  have entry : ∀ entry ∈ cache.documents,
      entry = (key, { document, draft }) ∨ entry ∈ w.session.cache.documents :=
    fun entry mem => Members.mem_put mem
  refine after_get_bind (after_check_bind (fun fault fails => ?_) (fun cache' ok => ?_))
  · rw [stored] at fails
    cases fails
  rw [stored] at ok
  cases ok
  have sound : Session.IsSound keys { w.session with cache } := by
    refine ⟨w.sound.graph, w.sound.entries, ?_, ?_, ?_⟩
    · intro other mem
      rcases entry other mem with rfl | old
      · exact Uri.withoutFragment_eq place
      · exact w.sound.places other old
    · intro other mem
      rcases entry other mem with rfl | old
      · exact proper
      · exact w.sound.values other old
    · intro other mem
      rcases entry other mem with rfl | old
      · exact keyed
      · exact w.sound.keyed other old
  have up : w ≤ ⟨{ w.session with cache }, sound⟩ :=
    World.le_of_same rfl (fun _ missing => missing) rfl
  refine after_set up rfl ⟨?_, fun other different => ?_⟩
  · show (cache.documents.lookup key).isSome
    rw [found]
    rfl
  · show cache.documents.lookup other = _
    rw [Members.lookup_put, if_neg different]

end Load

end JsonSchema
