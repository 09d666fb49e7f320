import JsonSchema.Proofs.Reference
import JsonSchema.Proofs.Ways
import JsonSchema.Loading.Session

/-!
# The sessions that loading goes through

A session is sound if its handles and references stay inside its graph and the values of its
documents have their keys among given ones. Loading only adds to a session (`Session.Extends`). A
world is a sound session; a world above another extends it, and every handle that it has in addition
is bound (`Session.Settles`), unless a fault of a URI has been recorded as an issue of a keyword
value (`Session.IsBroken`). Such a fault leaves the schema unfinished that stands there.

`Stops` says how loading a schema may stop: with a report that has errors, or with one of the faults
that no issue is made of (`Fault.Escapes`). `Breaks` also allows the faults about a value, which
loading a keyword turns into issues (`Load.after_recordingFaults`).
-/

namespace JsonSchema

/-- The faults with which loading can stop without a report. -/
def Fault.Escapes : Fault → Prop
  | .badUri _ | .badPointer _ | .notAPattern .hugeRepetition => True
  | _ => False

/-! ## Sound sessions -/

/-- Handles and references stay inside the graph, and the documents have their keys among some. -/
structure Session.IsSound (keys : Set String) (session : Session) : Prop where
  graph : session.graph.IsSound
  entries : ∀ entry ∈ session.cache.handles, entry.2.index < session.graph.handles.size
  places : ∀ entry ∈ session.cache.documents, Uri.withoutFragment entry.1 = .ok entry.1
  values : ∀ entry ∈ session.cache.documents, entry.2.document.value.IsProper
  keyed : ∀ entry ∈ session.cache.documents, entry.2.document.value.IsKeyed keys entry.1 []

namespace Session

/-- What a session had is there later. -/
structure Extends (session later : Session) : Prop where
  handles : ∀ id : HandleId, id.index < session.graph.handles.size →
    later.graph.handle? id = session.graph.handle? id
  size : session.graph.handles.size ≤ later.graph.handles.size
  entered : ∀ key, later.cache.handles.lookup key = none →
    session.cache.handles.lookup key = none
  issues : ∀ issue ∈ session.report.issues, issue ∈ later.report.issues

/-- All later handles are bound. -/
def Settles (session later : Session) : Prop :=
  ∀ id : HandleId, session.graph.handles.size ≤ id.index →
    id.index < later.graph.handles.size → (later.graph.schema? id).isSome

/-- A fault of a URI has become an issue. -/
def IsSpoiled (session : Session) : Prop :=
  ∃ issue ∈ session.report.issues, ∃ fault, issue.problem = .faulty (.badUri fault)

/-- A fault of a URI has become an error. -/
def IsBroken (session : Session) : Prop :=
  ∃ issue ∈ session.report.issues, issue.isError = true ∧
    ∃ fault, issue.problem = .faulty (.badUri fault)

variable {session middle last : Session}

theorem Extends.refl (session : Session) : session.Extends session where
  handles _ _ := rfl
  size := Nat.le_refl _
  entered _ missing := missing
  issues _ mem := mem

theorem Extends.trans (first : session.Extends middle) (second : middle.Extends last) :
    session.Extends last where
  handles id old := by
    rw [second.handles id (Nat.lt_of_lt_of_le old first.size), first.handles id old]
  size := Nat.le_trans first.size second.size
  entered key missing := first.entered key (second.entered key missing)
  issues issue mem := second.issues issue (first.issues issue mem)

theorem Extends.schema? (extended : session.Extends last) {id : HandleId}
    (old : id.index < session.graph.handles.size) :
    last.graph.schema? id = session.graph.schema? id := by
  unfold SchemaGraph.schema?
  rw [extended.handles id old]

theorem Settles.trans (second : middle.Extends last) (settled : session.Settles middle)
    (settled' : middle.Settles last) : session.Settles last := by
  intro id new inside
  rcases Nat.lt_or_ge id.index middle.graph.handles.size with early | late
  · rw [second.schema? early]
    exact settled id new early
  · exact settled' id late inside

theorem IsBroken.later (extended : session.Extends last) (broken : session.IsBroken) :
    last.IsBroken := by
  obtain ⟨issue, mem, fault⟩ := broken
  exact ⟨issue, extended.issues issue mem, fault⟩

theorem IsBroken.isSpoiled (broken : session.IsBroken) : session.IsSpoiled := by
  obtain ⟨issue, mem, _, fault⟩ := broken
  exact ⟨issue, mem, fault⟩

theorem IsBroken.hasErrors (broken : session.IsBroken) : session.report.hasErrors = true := by
  obtain ⟨issue, mem, error, _⟩ := broken
  exact List.any_eq_true.2 ⟨issue, mem, error⟩

/-- A session with the same handles settles nothing. -/
theorem Settles.of_size (same : last.graph.handles.size = session.graph.handles.size) :
    session.Settles last := by
  intro id new inside
  omega

end Session

/-! ## Worlds -/

/-- A sound session. -/
structure World (keys : Set String) where
  session : Session
  sound : session.IsSound keys

namespace World

variable {keys : Set String}

instance : Preorder (World keys) where
  le w w' :=
    w.session.Extends w'.session ∧ (w.session.Settles w'.session ∨ w'.session.IsBroken)
  le_refl w := ⟨.refl _, .inl (.of_size rfl)⟩
  le_trans w w' w'' := by
    rintro ⟨extended, settled⟩ ⟨extended', settled'⟩
    refine ⟨extended.trans extended', ?_⟩
    rcases settled with settled | broken
    · rcases settled' with settled' | broken
      · exact .inl (settled.trans extended' settled')
      · exact .inr broken
    · exact .inr (broken.later extended')

variable {w w' : World keys}

/-- A world with the same handles is above. -/
theorem le_of_same (graph : w'.session.graph.handles = w.session.graph.handles)
    (entered : ∀ key, w'.session.cache.handles.lookup key = none →
      w.session.cache.handles.lookup key = none)
    (report : w'.session.report = w.session.report) : w ≤ w' := by
  refine ⟨⟨fun id _ => ?_, le_of_eq (congrArg Array.size graph.symm), entered, ?_⟩,
    .inl (.of_size (congrArg Array.size graph))⟩
  · unfold SchemaGraph.handle?
    rw [graph]
  · rw [report]
    exact fun _ mem => mem

/-- The number of handles. -/
def size (w : World keys) : Nat :=
  w.session.graph.handles.size

theorem size_le (up : w ≤ w') : w.size ≤ w'.size :=
  up.1.size

/-- Fewer than a number of keys have no handle yet. -/
def HasRoom (w : World keys) (depth : Nat) : Prop :=
  ∃ free : List String, free.length < depth ∧
    ∀ key ∈ keys, w.session.cache.handles.lookup key = none → key ∈ free

theorem HasRoom.later {depth : Nat} (room : w.HasRoom depth) (up : w ≤ w') :
    w'.HasRoom depth := by
  obtain ⟨free, fewer, all⟩ := room
  exact ⟨free, fewer, fun key mem missing => all key mem (up.1.entered key missing)⟩

/-- A key that gets a handle takes room. -/
theorem HasRoom.entered {depth : Nat} {key : String} (room : w.HasRoom (depth + 1))
    (extended : w.session.Extends w'.session) (mem : key ∈ keys)
    (before : w.session.cache.handles.lookup key = none)
    (after : (w'.session.cache.handles.lookup key).isSome) : w'.HasRoom depth := by
  obtain ⟨free, fewer, all⟩ := room
  have present : key ∈ free := all key mem before
  refine ⟨free.erase key, ?_, fun other inside missing => ?_⟩
  · have positive : 0 < free.length := List.length_pos_of_mem present
    rw [List.length_erase_of_mem present]
    omega
  · have different : other ≠ key := by
      rintro rfl
      rw [missing] at after
      cases after
    exact (List.mem_erase_of_ne different).2 (all other inside (extended.entered other missing))

/-- A world with another report. -/
def withReport (w : World keys) (report : LoadReport) : World keys where
  session := { w.session with report }
  sound := ⟨w.sound.graph, w.sound.entries, w.sound.places, w.sound.values, w.sound.keyed⟩

theorem extends_add (w : World keys) (issue : Issue) :
    w.session.Extends (w.withReport (w.session.report.add issue)).session where
  handles _ _ := rfl
  size := Nat.le_refl _
  entered _ missing := missing
  issues _ mem := List.mem_append_left _ mem

theorem le_add (w : World keys) (issue : Issue) :
    w ≤ w.withReport (w.session.report.add issue) :=
  ⟨w.extends_add issue, .inl (.of_size rfl)⟩

/-- How loading a schema may stop. -/
def Stops (w : World keys) (stop : Stop) (session : Session) : Prop :=
  ∃ w' : World keys, w'.session = session ∧ w.session.Extends session ∧
    match stop with
    | .rejected report => report.hasErrors = true
    | .fault fault => fault.Escapes

/-- How loading the value of a keyword may stop. -/
def Breaks (w : World keys) (stop : Stop) (session : Session) : Prop :=
  ∃ w' : World keys, w'.session = session ∧ w.session.Extends session ∧
    match stop with
    | .rejected report => report.hasErrors = true
    | .fault fault => fault.Escapes ∨ fault.isValueFault = true ∧ w ≤ w'

instance : Descending (@Stops keys) where
  down := by
    rintro w w' stop session up ⟨w'', same, extended, allowed⟩
    exact ⟨w'', same, up.1.trans extended, allowed⟩

instance : Descending (@Breaks keys) where
  down := by
    rintro w w' stop session up ⟨w'', same, extended, allowed⟩
    refine ⟨w'', same, up.1.trans extended, ?_⟩
    cases stop with
    | rejected report => exact allowed
    | fault fault => exact allowed.imp_right (fun ⟨unusable, up'⟩ => ⟨unusable, le_trans up up'⟩)

theorem breaks_of_stops {stop : Stop} {session : Session} (h : w.Stops stop session) :
    w.Breaks stop session := by
  obtain ⟨w', same, extended, allowed⟩ := h
  refine ⟨w', same, extended, ?_⟩
  cases stop with
  | rejected report => exact allowed
  | fault fault => exact .inl allowed

theorem stops_fault {fault : Fault} (escapes : fault.Escapes) : w.Stops (.fault fault) w.session :=
  ⟨w, rfl, .refl _, escapes⟩

theorem breaks_fault {fault : Fault} (unusable : fault.isValueFault = true) :
    w.Breaks (.fault fault) w.session :=
  ⟨w, rfl, .refl _, .inr ⟨unusable, le_refl w⟩⟩

end World

end JsonSchema
