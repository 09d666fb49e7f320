import JsonSchema.Proofs.Sessions
import JsonSchema.Proofs.Settings

/-!
# Tracking a session

A track is a session that steps lead to, together with the schemas of its nodes. As long as no error
was recorded, every node was built for an object that loading came to or refers back to a handle,
and every handle is bound to what was built or loaded at its location (`Track`). Each function that
loads keeps this up, wherever it stops. The rules for the single operations are here.
-/

namespace JsonSchema.Load

/-- What a node was made for: an object, or a handle that was not bound yet. -/
def IsNodeFor (stock : Stock) (schema : Schema) : Prop :=
  ∃ location members draft, Arrives stock.documents location (.object members) draft ∧
    ((∃ id, RefersBack location draft id schema) ∨ Built stock location members draft schema)

/-- What a handle with a location is bound to: what was built for the object there, or what was
loaded for a value that is no object. -/
def IsBoundAt (stock : Stock) (location : Location) (schema : Schema) : Prop :=
  (∃ received members draft, Arrives stock.documents received (.object members) draft ∧
    location = received.ofObject draft members ∧ Built stock received members draft schema) ∨
  ∃ value draft, Arrives stock.documents location value draft ∧
    (∀ members, value ≠ .object members) ∧ Loaded stock location value draft schema

/-- A session that steps lead to, with the schemas of its nodes. The documents are the ones that are
expected under their URIs; nodes stand where loading came to, and issues are placed. -/
structure Track (contents : String → Json) where
  stock : Stock
  reachable : stock.session.Reachable
  contained : ∀ uri stored, stock.documents.lookup uri = some stored →
    stored.document.value = contents uri
  made : ∀ id schema, stock.session.graph.schema? id = some schema → stock.Made schema
  bound : stock.IsClean → ∀ id handle schema, stock.session.graph.handle? id = some handle →
    handle.schema = some schema → IsBoundAt stock handle.location schema
  numbered : ∀ schema ∈ stock.nodes, ∃ id, schema.id? = some id ∧
    id.index < stock.session.graph.nextNode
  distinct : ∀ schema ∈ stock.nodes, ∀ other ∈ stock.nodes, schema.id? = other.id? →
    schema = other
  nodes : stock.IsClean → ∀ schema ∈ stock.nodes, IsNodeFor stock schema
  stationed : ∀ schema ∈ stock.nodes, IsStationed stock.documents schema
  placed : ∀ issue ∈ stock.session.report.issues, IsPlacedIssue stock.documents issue

theorem IsNodeFor.mono {stock later : Stock} {schema : Schema} (grown : stock.Grown later)
    (node : IsNodeFor stock schema) : IsNodeFor later schema := by
  obtain ⟨location, members, draft, arrives, content⟩ := node
  exact ⟨location, members, draft, arrives.mono grown.session.documents,
    content.imp_right (Built.mono grown)⟩

theorem IsBoundAt.mono {stock later : Stock} {location : Location} {schema : Schema}
    (grown : stock.Grown later) (bound : IsBoundAt stock location schema) :
    IsBoundAt later location schema := by
  rcases bound with ⟨received, members, draft, arrives, same, built⟩ |
    ⟨value, draft, arrives, other, loaded⟩
  · exact .inl ⟨received, members, draft, arrives.mono grown.session.documents, same,
      built.mono grown⟩
  · exact .inr ⟨value, draft, arrives.mono grown.session.documents, other, loaded.mono grown⟩

namespace Track

variable {contents : String → Json} {w w' : Track contents}

/-- The session of a track. -/
abbrev session (w : Track contents) : Session :=
  w.stock.session

/-- The documents of a track. -/
abbrev documents (w : Track contents) : Documents :=
  w.stock.documents

instance : Preorder (Track contents) where
  le w w' := w.session.Later w'.session ∧ ∀ schema ∈ w.stock.nodes, schema ∈ w'.stock.nodes
  le_refl w := ⟨.refl, fun _ mem => mem⟩
  le_trans w w' w'' := by
    rintro ⟨steps, more⟩ ⟨steps', more'⟩
    exact ⟨steps.trans steps', fun schema mem => more' schema (more schema mem)⟩

theorem grown (up : w ≤ w') : w.stock.Grown w'.stock :=
  ⟨up.1.grown, up.2⟩

theorem sound (w : Track contents) : AreSound w.documents :=
  w.reachable.isTraced.sound

theorem comes_later (up : w ≤ w') {location : Location} {value : Json} {draft : Draft}
    (comes : Comes w.documents location value draft) : Comes w'.documents location value draft :=
  comes.mono (grown up).session.documents

/-- A step after which the same schemas are bound. -/
theorem exists_step (w : Track contents) {later : Session} (step : Session.Step w.session later)
    (schemas : ∀ id, later.graph.schema? id = w.session.graph.schema? id)
    (next : later.graph.nextNode = w.session.graph.nextNode)
    (contained : ∀ uri stored, later.documents.lookup uri = some stored →
      stored.document.value = contents uri)
    (issues : ∀ issue ∈ later.report.issues, issue ∈ w.session.report.issues ∨
      IsPlacedIssue w.documents issue) :
    ∃ w' : Track contents, w'.stock = ⟨later, w.stock.nodes⟩ ∧ w ≤ w' := by
  have grown : w.stock.Grown ⟨later, w.stock.nodes⟩ := ⟨step.grown, fun _ mem => mem⟩
  have bound : Stock.IsClean ⟨later, w.stock.nodes⟩ → ∀ id handle schema,
      later.graph.handle? id = some handle → handle.schema = some schema →
      IsBoundAt ⟨later, w.stock.nodes⟩ handle.location schema := by
    intro clean id handle schema found same
    have before : w.session.graph.schema? id = some schema := by
      rw [← schemas id]
      exact Option.bind_eq_some_iff.2 ⟨handle, found, same⟩
    obtain ⟨old, oldFound, oldSame⟩ := Option.bind_eq_some_iff.1 before
    obtain ⟨new, newFound, location, _⟩ := grown.session.handles id old oldFound
    rw [found] at newFound
    cases newFound
    rw [location]
    exact (w.bound (clean.anti grown) id old schema oldFound oldSame).mono grown
  refine ⟨⟨⟨later, w.stock.nodes⟩, w.reachable.tail step, contained, ?_, bound, ?_, w.distinct, ?_,
    ?_, ?_⟩, rfl, .single step, fun _ mem => mem⟩
  · intro id schema found
    rw [schemas id] at found
    exact (w.made id schema found).mono grown
  · intro schema mem
    obtain ⟨id, same, small⟩ := w.numbered schema mem
    exact ⟨id, same, lt_of_lt_of_eq small next.symm⟩
  · exact fun clean schema mem => (w.nodes (clean.anti grown) schema mem).mono grown
  · exact fun schema mem => (w.stationed schema mem).mono grown.session.documents
  · intro issue mem
    have placed : IsPlacedIssue w.documents issue := (issues issue mem).elim (w.placed issue) id
    exact placed.mono grown.session.documents

/-- A step that leaves the graph and the documents as they are. -/
theorem exists_same (w : Track contents) {later : Session} (step : Session.Step w.session later)
    (graph : later.graph = w.session.graph) (documents : later.documents = w.documents)
    (issues : ∀ issue ∈ later.report.issues, issue ∈ w.session.report.issues ∨
      IsPlacedIssue w.documents issue) :
    ∃ w' : Track contents, w'.stock = ⟨later, w.stock.nodes⟩ ∧ w ≤ w' := by
  refine w.exists_step step ?_ ?_ ?_ issues
  · rw [graph]
    exact fun _ => rfl
  · rw [graph]
  · rw [documents]
    exact w.contained

/-- A session with one issue more. -/
theorem exists_add (w : Track contents) {issue : Issue} (placed : IsPlacedIssue w.documents issue) :
    ∃ w' : Track contents,
    w'.session = { w.session with report := w.session.report.add issue } ∧ w ≤ w' := by
  have step : w.session.Step { w.session with report := w.session.report.add issue } :=
    .work rfl rfl (Session.keepsHandles_refl _) (fun _ mem => List.mem_append_left _ mem)
  have issues : ∀ other ∈ (w.session.report.add issue).issues,
      other ∈ w.session.report.issues ∨ IsPlacedIssue w.documents other := by
    intro other mem
    refine (List.mem_append.1 mem).imp_right (fun new => ?_)
    rw [List.mem_singleton.1 new]
    exact placed
  obtain ⟨w', same, up⟩ := w.exists_same step rfl rfl issues
  exact ⟨w', congrArg Stock.session same, up⟩

end Track

/-- A value is to be loaded: loading comes to it, and arrives at it if no error was recorded. -/
structure IsDue {contents : String → Json} (w : Track contents) (location : Location) (value : Json)
    (draft : Draft) : Prop where
  comes : Comes w.documents location value draft
  arrives : w.stock.IsClean → Arrives w.documents location value draft

theorem IsDue.later {contents : String → Json} {w w' : Track contents} {location : Location}
    {value : Json} {draft : Draft} (up : w ≤ w') (due : IsDue w location value draft) :
    IsDue w' location value draft where
  comes := Track.comes_later up due.comes
  arrives clean := (due.arrives (clean.anti (Track.grown up))).mono (Track.grown up).session.documents

/-- Objects are read in tracks. -/
instance {contents : String → Json} : Setting (Track contents) where
  session := Track.session
  IsDue := IsDue
  IsLoaded w := Loaded w.stock
  Admits w := IsAddress w.documents
  issues up := (Track.grown up).session.issues
  due := IsDue.later
  loaded up := Loaded.mono (Track.grown up)
  admits up here := here.mono (Track.grown up).session.documents
  record here place := Track.exists_add _ ⟨_, place, here⟩

/-! ## Operations -/

/-- The run of a loading computation from a track ends in one above with `Q`, or stops in one. -/
abbrev Runs {α : Type} {contents : String → Json} (act : Load α) (w : Track contents)
    (Q : α → Track contents → Prop) : Prop :=
  After Track.session Setting.Halts act w Q

variable {contents : String → Json} {w : Track contents} {loader : Loader} {α β : Type}

theorem runs_throw {Q : α → Track contents → Prop} (stop : Stop) :
    Runs (throw stop) w Q :=
  works_throw stop

theorem runs_check {x : Except Fault α} {Q : α → Track contents → Prop}
    (ok : ∀ a, x = .ok a → Q a w) : Runs (check x) w Q :=
  works_check ok

theorem runs_check_bind {x : Except Fault α} {next : α → Load β} {Q : β → Track contents → Prop}
    (rest : ∀ a, x = .ok a → Runs (next a) w Q) : Runs (check x >>= next) w Q :=
  works_check_bind rest

theorem runs_checkUri_bind {x : Except Uri.UriFault α} {next : α → Load β}
    {Q : β → Track contents → Prop} (rest : ∀ a, x = .ok a → Runs (next a) w Q) :
    Runs (checkUri x >>= next) w Q :=
  works_checkUri_bind rest

/-- Reading the session and checking something about it. -/
theorem runs_read {read : Session → Except Uri.UriFault α} {Q : α → Track contents → Prop}
    (ok : ∀ a, read w.session = .ok a → Q a w) : Runs (do checkUri (read (← get))) w Q :=
  after_get_bind (runs_check (fun a same => ok a (mapError_ok same)))

theorem runs_lookup (uri : String) :
    Runs (lookup uri) w (fun found w' => w' = w ∧ w.session.cache.lookup uri = .ok found) :=
  runs_read (fun _ ok => ⟨rfl, ok⟩)

theorem runs_lookupLocation (location : Location) : Runs (lookupLocation location) w
    (fun found w' => w' = w ∧ w.session.cache.lookupLocation location = .ok found) :=
  runs_read (fun _ ok => ⟨rfl, ok⟩)

theorem runs_document (uri : String) : Runs (document? uri) w (fun found w' => w' = w ∧
    ∃ key, Uri.withoutFragment uri = .ok key ∧ w.documents.lookup key = found) := by
  refine runs_read (fun found ok => ⟨rfl, ?_⟩)
  obtain ⟨key, place, ok⟩ := except_bind_ok ok
  cases ok
  exact ⟨key, place, rfl⟩

/-! ## Issues -/

theorem runs_recordError (code : IssueCode) {location : Location} (problem : Problem)
    (here : IsAddress w.documents location.place) :
    Runs (recordError loader code location problem) w (fun _ w' => ¬ w'.stock.IsClean) :=
  works_recordError code problem here

theorem runs_recordWarning (code : IssueCode) {location : Location} (problem : Problem)
    (here : IsAddress w.documents location.place) :
    Runs (recordWarning loader code location problem) w (fun _ _ => True) :=
  works_recordWarning code problem here

theorem runs_failAt {Q : α → Track contents → Prop} (code : IssueCode) {location : Location}
    (problem : Problem) (here : IsAddress w.documents location.place) :
    Runs (failAt code location problem) w Q := by
  unfold failAt
  rw [bind_issueAt]
  refine runs_checkUri_bind (fun uri place => ?_)
  have placed : IsPlacedIssue w.documents { code, level := .error, location := uri, problem } :=
    ⟨location, place, here⟩
  obtain ⟨w', same, up⟩ := w.exists_add placed
  exact after_modify_bind up same (after_get_bind (runs_throw _))

theorem runs_failAt_bind {Q : β → Track contents → Prop} {code : IssueCode} {location : Location}
    {problem : Problem} {next : α → Load β} (here : IsAddress w.documents location.place) :
    Runs (failAt code location problem >>= next) w Q :=
  after_bind (Q := fun _ _ => False) (runs_failAt code problem here)
    (fun _ _ _ never => never.elim)

/-! ## Starting schemas -/

/-- A handle has a location. -/
def HasLocation (stock : Stock) (id : HandleId) (location : Location) : Prop :=
  ∃ handle, stock.session.graph.handle? id = some handle ∧ handle.location = location

theorem HasLocation.mono {stock later : Stock} {id : HandleId} {location : Location}
    (grown : stock.Grown later) (has : HasLocation stock id location) :
    HasLocation later id location := by
  obtain ⟨handle, found, same⟩ := has
  obtain ⟨handle', found', location', _⟩ := grown.session.handles id handle found
  exact ⟨handle', found', location'.trans same⟩

theorem HasLocation.standsAt {stock : Stock} {id : HandleId} {location : Location}
    (has : HasLocation stock id location) : stock.session.StandsAt id location.place := by
  obtain ⟨handle, found, rfl⟩ := has
  exact ⟨handle, found, rfl⟩

theorem handle_addHandle_new (graph : SchemaGraph) (location : Location) :
    (graph.addHandle location).2.handle? ⟨graph.handles.size⟩ =
      some { location, schema := none } := by
  show (graph.handles.push _)[graph.handles.size]? = _
  rw [Array.getElem?_push_size]

theorem runs_start {location : Location} {members : List (String × Json)} {draft : Draft}
    (comes : Comes w.documents location (.object members) draft) :
    Runs (start (location.ofObject draft members)) w
      (fun id w' => HasLocation w'.stock id (location.ofObject draft members) ∧
        ∀ keys, location.cacheKeys = .ok keys → w'.session.Enters location) := by
  refine after_get_bind (runs_checkUri_bind ?_)
  rintro ⟨id, cache, graph⟩ started
  have step : w.session.Step { w.session with cache, graph } := .start comes started
  obtain ⟨keys, own, rfl, rfl, rfl⟩ := Session.start_eq started
  obtain ⟨w', same, up⟩ := w.exists_step step (fun _ => SchemaGraph.schema_addHandle) rfl
    w.contained (fun _ mem => .inl mem)
  have session := congrArg Stock.session same
  refine after_set_bind up session (after_pure ⟨?_, fun listed ok => ?_⟩)
  · rw [same]
    exact ⟨_, handle_addHandle_new _ _, rfl⟩
  · -- the URI of the place is the same with and without the identifier of the object
    obtain ⟨key, absolute, mem⟩ := Location.absoluteUri_mem ok
    obtain ⟨key', absolute', mem'⟩ := Location.absoluteUri_mem own
    rw [Location.absoluteUri_place (Session.ofObject_place draft location members), absolute]
      at absolute'
    cases absolute'
    refine Session.enters_of_mem ok mem (fun missing => ?_)
    change w'.session = _ at session
    rw [session] at missing
    exact (Cache.lookup_enter_none missing).2 mem'

/-! ## Binding -/

/-- Binding an unbound handle gives it the schema. -/
theorem handle_bind {graph : SchemaGraph} {id : HandleId} {handle : Handle} (schema : Schema)
    (found : graph.handle? id = some handle) (unbound : handle.schema = none) :
    ∃ graph', graph.bind id schema = .ok graph' ∧
      graph'.handles.size = graph.handles.size ∧ graph'.nextNode = graph.nextNode ∧
      graph'.handle? id = some { handle with schema := some schema } ∧
      ∀ other : HandleId, other ≠ id → graph'.handle? other = graph.handle? other := by
  have none : graph.schema? id = none := by
    unfold SchemaGraph.schema?
    rw [found]
    exact unbound
  unfold SchemaGraph.bind
  rw [none]
  refine ⟨_, rfl, Array.size_modify, rfl, ?_, fun other different => ?_⟩
  · show (graph.handles.modify id.index _)[id.index]? = _
    have here : graph.handles[id.index]? = some handle := found
    rw [Array.getElem?_modify, if_pos rfl, here]
    rfl
  · show (graph.handles.modify id.index _)[other.index]? = graph.handles[other.index]?
    have elsewhere : id.index ≠ other.index := fun equal => different (HandleId.ext equal.symm)
    rw [Array.getElem?_modify, if_neg elsewhere]

theorem handle_bound {graph graph' : SchemaGraph} {id : HandleId} {handle : Handle}
    {schema : Schema} (ok : graph.bind id schema = .ok graph') (found : graph.handle? id = some handle)
    (unbound : handle.schema = none) :
    graph'.handle? id = some { handle with schema := some schema } ∧
      ∀ other : HandleId, other ≠ id → graph'.handle? other = graph.handle? other := by
  obtain ⟨_, same, _, _, bound⟩ := handle_bind schema found unbound
  rw [ok] at same
  cases same
  exact bound

theorem keepsHandles_bind {graph graph' : SchemaGraph} {id : HandleId} {handle : Handle}
    {schema : Schema} (ok : graph.bind id schema = .ok graph') (found : graph.handle? id = some handle)
    (unbound : handle.schema = none) : Session.KeepsHandles graph graph' := by
  obtain ⟨bound, others⟩ := handle_bound ok found unbound
  intro other old there
  by_cases same : other = id
  · subst same
    rw [found] at there
    cases there
    refine ⟨_, bound, rfl, fun _ already => ?_⟩
    rw [unbound] at already
    cases already
  · rw [others other same]
    exact ⟨old, there, rfl, fun _ same => same⟩

theorem schema_of_handle {graph : SchemaGraph} {id : HandleId} {handle : Handle}
    (found : graph.handle? id = some handle) : graph.schema? id = handle.schema := by
  unfold SchemaGraph.schema?
  rw [found]
  rfl

/-- A handle is bound to a schema that fits its location, unless it is bound already. -/
theorem runs_bind {id : HandleId} {location : Location} {schema : Schema}
    (has : HasLocation w.stock id location) (made : w.stock.Made schema)
    (fits : w.stock.IsClean → IsBoundAt w.stock location schema)
    (fresh : ∀ old, w.session.graph.schema? id = some old → old.isSame schema = false) :
    Runs (bind id schema) w (fun _ w' => w'.session.graph.schema? id = some schema) := by
  obtain ⟨handle, found, rfl⟩ := has
  refine after_get_bind (runs_check_bind (fun graph ok => ?_))
  cases unbound : handle.schema with
  | some old =>
    have before : w.session.graph.schema? id = some old := by
      rw [schema_of_handle found, unbound]
    unfold SchemaGraph.bind at ok
    rw [before] at ok
    dsimp only at ok
    rw [if_neg (by rw [fresh old before]; decide)] at ok
    obtain ⟨_, _, ok⟩ := except_bind_ok ok
    cases ok
  | none =>
    obtain ⟨graph', ok', size, next, bound, others⟩ := handle_bind schema found unbound
    have same := ok.symm.trans ok'
    cases same
    have kept : Session.KeepsHandles w.session.graph graph := keepsHandles_bind ok found unbound
    have step : w.session.Step { w.session with graph } :=
      .work rfl size kept (fun _ mem => mem)
    have grown : w.stock.Grown ⟨{ w.session with graph }, w.stock.nodes⟩ :=
      ⟨step.grown, fun _ mem => mem⟩
    let w' : Track contents := {
      stock := ⟨{ w.session with graph }, w.stock.nodes⟩
      reachable := w.reachable.tail step
      contained := w.contained
      made := by
        intro other schema' found'
        by_cases same : other = id
        · subst same
          have here : some schema = some schema' := (schema_of_handle bound).symm.trans found'
          cases here
          exact made.mono grown
        · have here : w.session.graph.schema? other = some schema' := by
            unfold SchemaGraph.schema? at found' ⊢
            rw [← others other same]
            exact found'
          exact (w.made other schema' here).mono grown
      bound := by
        intro clean other old schema' oldFound same'
        by_cases same : other = id
        · subst same
          have here : some _ = some old := bound.symm.trans oldFound
          cases here
          cases same'
          exact (fits clean).mono grown
        · have here : w.session.graph.handle? other = some old := by
            rw [← others other same]
            exact oldFound
          exact (w.bound clean other old schema' here same').mono grown
      numbered := by
        intro schema' mem
        obtain ⟨number, same, small⟩ := w.numbered schema' mem
        exact ⟨number, same, lt_of_lt_of_eq small next.symm⟩
      distinct := w.distinct
      nodes := fun clean schema' mem => (w.nodes clean schema' mem).mono grown
      stationed := w.stationed
      placed := w.placed }
    have up : w ≤ w' := ⟨.single step, fun _ mem => mem⟩
    exact after_set (Q := fun _ w' => w'.session.graph.schema? id = some schema) up rfl
      (schema_of_handle bound)

/-! ## Nodes -/

/-- A new node. -/
theorem exists_node (w : Track contents) (location : Location) (draft : Draft)
    (keywords : List (Keyword × KeywordValue))
    (node : w.stock.IsClean → ∀ id, IsNodeFor w.stock (.node id (some location) draft keywords))
    (stationed : ∀ id, IsStationed w.documents (.node id (some location) draft keywords)) :
    ∃ w' : Track contents, w'.stock = ⟨{ w.session with
        graph := (w.session.graph.addNode (some location) draft keywords).2 },
        w.stock.nodes ++ [(w.session.graph.addNode (some location) draft keywords).1]⟩ ∧
      w ≤ w' := by
  let later : Session := { w.session with
    graph := (w.session.graph.addNode (some location) draft keywords).2 }
  let schema : Schema := (w.session.graph.addNode (some location) draft keywords).1
  have step : w.session.Step later :=
    .work rfl rfl (Session.keepsHandles_refl _) (fun _ mem => mem)
  have grown : w.stock.Grown ⟨later, w.stock.nodes ++ [schema]⟩ :=
    ⟨step.grown, fun _ mem => List.mem_append_left _ mem⟩
  have number : schema.id? = some ⟨w.session.graph.nextNode⟩ := rfl
  have old : ∀ other ∈ w.stock.nodes, schema.id? ≠ other.id? := by
    intro other mem same
    obtain ⟨id, found, small⟩ := w.numbered other mem
    rw [number, found] at same
    cases same
    exact Nat.lt_irrefl _ small
  refine ⟨⟨⟨later, w.stock.nodes ++ [schema]⟩, w.reachable.tail step, w.contained, ?_, ?_, ?_, ?_,
    ?_, ?_, w.placed⟩, rfl, .single step, fun _ mem => List.mem_append_left _ mem⟩
  · exact fun id bound found => (w.made id bound found).mono grown
  · exact fun clean id handle bound found same => (w.bound clean id handle bound found same).mono grown
  · intro other mem
    rcases List.mem_append.1 mem with before | new
    · obtain ⟨id, same, small⟩ := w.numbered other before
      exact ⟨id, same, Nat.lt_succ_of_lt small⟩
    · cases List.mem_singleton.1 new
      exact ⟨_, number, Nat.lt_succ_self _⟩
  · intro first mem second mem' same
    rcases List.mem_append.1 mem with before | new
    · rcases List.mem_append.1 mem' with before' | new'
      · exact w.distinct first before second before' same
      · cases List.mem_singleton.1 new'
        exact absurd same.symm (old first before)
    · cases List.mem_singleton.1 new
      rcases List.mem_append.1 mem' with before' | new'
      · exact absurd same (old second before')
      · exact (List.mem_singleton.1 new').symm
  · intro clean other mem
    rcases List.mem_append.1 mem with before | new
    · exact (w.nodes clean other before).mono grown
    · cases List.mem_singleton.1 new
      exact (node clean _).mono grown
  · intro other mem
    rcases List.mem_append.1 mem with before | new
    · exact w.stationed other before
    · cases List.mem_singleton.1 new
      exact stationed _

theorem runs_referTo {location : Location} {members : List (String × Json)} {draft : Draft}
    (id : HandleId) (due : IsDue w location (.object members) draft)
    (addressed : ∃ uri, location.absoluteUri = .ok uri) :
    Runs (referTo id location draft) w (fun schema w' => w'.stock.Made schema ∧
      RefersBack location draft id schema) := by
  refine after_get_bind ?_
  split
  · refine runs_checkUri_bind (fun ref _ => runs_checkUri_bind (fun uri _ => ?_))
    obtain ⟨w', same, up⟩ := exists_node w location draft [(Builtin.ref, .reference ref uri id)]
      (fun clean node =>
        ⟨location, members, draft, due.arrives clean, .inl ⟨id, node, ref, uri, rfl⟩⟩)
      (fun node => ⟨location, members, draft, node, location, _, due.comes, rfl, rfl, addressed⟩)
    refine after_get_bind (after_set_bind up (congrArg Stock.session same) (after_pure ?_))
    refine ⟨.inr (.inr ?_), _, ref, uri, rfl⟩
    rw [same]
    exact List.mem_append_right _ List.mem_cons_self
  · exact runs_throw _

/-- The schema of an object that was started is finished. -/
theorem runs_finish {location : Location} {members : List (String × Json)} {draft : Draft}
    {id : HandleId} {keywords : List (Keyword × KeywordValue)}
    (due : IsDue w location (.object members) draft)
    (has : HasLocation w.stock id (location.ofObject draft members))
    (addressed : ∃ uri, location.absoluteUri = .ok uri)
    (built : w.stock.IsClean → ∀ node, Built w.stock location members draft
      (.node node (some (location.ofObject draft members)) draft keywords)) :
    Runs (do
      let schema ← addNode (location.ofObject draft members) draft keywords
      bind id schema
      return schema) w (fun schema w' => w'.stock.Made schema ∧
        (w'.stock.IsClean → Loaded w'.stock location (.object members) draft schema)) := by
  have place := Session.ofObject_place draft location members
  obtain ⟨w₁, same, up⟩ := exists_node w (location.ofObject draft members) draft keywords
    (fun clean node =>
      ⟨location, members, draft, due.arrives clean, .inr (built clean node)⟩)
    (fun node => ⟨location, members, draft, node, _, _, due.comes, place, rfl,
      by rw [Location.absoluteUri_place place]; exact addressed⟩)
  have started : Runs (addNode (location.ofObject draft members) draft keywords) w
      (fun schema w' => w' = w₁ ∧ schema =
        (w.session.graph.addNode (some (location.ofObject draft members)) draft keywords).1) :=
    after_get_bind (after_set_bind up (congrArg Stock.session same) (after_pure ⟨rfl, rfl⟩))
  refine after_bind started ?_
  rintro schema w₁ _ ⟨rfl, rfl⟩
  have made : w₁.stock.Made
      (w.session.graph.addNode (some (location.ofObject draft members)) draft keywords).1 := by
    rw [same]
    exact .inr (.inr (List.mem_append_right _ List.mem_cons_self))
  have clean : w₁.stock.IsClean → w.stock.IsClean := Stock.IsClean.anti (Track.grown up)
  refine after_bind (runs_bind (has.mono (Track.grown up)) made (fun clean₁ => ?_) ?_) ?_
  · exact .inl ⟨location, members, draft, (due.later up).arrives clean₁, rfl,
      (built (clean clean₁) _).mono (Track.grown up)⟩
  · intro old bound
    have before : w.session.graph.schema? id = some old := by
      have sessions := congrArg Stock.session same
      change w₁.session = _ at sessions
      rw [sessions] at bound
      exact bound
    rcases w.made id old before with rfl | rfl | mem
    · rfl
    · rfl
    · obtain ⟨number, numbered, small⟩ := w.numbered old mem
      cases old with
      | always => rfl
      | never => rfl
      | node other _ _ _ =>
        cases numbered
        refine decide_eq_false (fun equal => ?_)
        rw [equal] at small
        exact Nat.lt_irrefl _ small
  · intro _ w₂ up₂ bound
    have made₂ := made.mono (Track.grown up₂)
    have stands := ((has.mono (Track.grown up)).mono (Track.grown up₂)).standsAt
    rw [place] at stands
    exact after_pure ⟨made₂, fun _ => ⟨made₂, fun _ =>
      ⟨⟨_, rfl, place⟩, id, stands, .inl bound⟩⟩⟩

/-! ## Documents -/

theorem runs_addDocument {uri key : String} {document : Document} {draft : Draft}
    (place : Uri.withoutFragment uri = .ok key) (absent : w.documents.lookup key = none)
    (proper : document.value.IsProper) (content : document.value = contents key) :
    Runs (addDocument uri document draft) w (fun _ w' =>
      w'.documents.lookup key = some { document, draft } ∧
      (∀ other, other ≠ key → w'.documents.lookup other = w.documents.lookup other) ∧
      w'.session.fetched = w.session.fetched) := by
  let cache : Cache := { w.session.cache with
    documents := Members.put w.documents key { document, draft } }
  have stored : w.session.cache.addDocument uri document draft = .ok cache := by
    unfold Cache.addDocument
    rw [place]
    change ((pure key : Except Fault String) >>= _) = _
    rw [pure_bind]
    dsimp only
    rw [absent]
    rfl
  have step : w.session.Step { w.session with cache } :=
    .store (Uri.withoutFragment_eq place) absent proper
  obtain ⟨w', same, up⟩ := w.exists_step step (fun _ => rfl) rfl (by
    intro other known found
    rcases Members.mem_put (Members.mem_of_lookup found) with same | old
    · cases same
      exact content
    · exact w.contained other known
        (Members.lookup_of_mem w.reachable.isTraced.distinct old)) (fun _ mem => .inl mem)
  refine after_get_bind (runs_check_bind (fun cache' ok => ?_))
  rw [stored] at ok
  cases ok
  have sessions : w'.session = { w.session with cache } := congrArg Stock.session same
  have documents : w'.documents = Members.put w.documents key { document, draft } :=
    (congrArg Session.documents sessions).trans rfl
  refine after_set up sessions ⟨?_, fun other different => ?_,
    (congrArg Session.fetched sessions).trans rfl⟩
  · rw [documents, Members.lookup_put, if_pos rfl]
  · rw [documents, Members.lookup_put, if_neg different]

/-- The documents that a loader fetches are proper and the expected ones. -/
def Delivers (contents : String → Json) (loader : Loader) : Prop :=
  ∀ uri document key, loader.client.fetch uri = .ok document →
    Uri.withoutFragment uri = .ok key →
    document.value.IsProper ∧ document.value = contents key

theorem runs_fetch (delivers : Delivers contents loader) {uri key : String} {origin : Location}
    (here : IsAddress w.documents origin.place) (place : Uri.withoutFragment uri = .ok key)
    (absent : w.documents.lookup key = none) :
    Runs (fetch loader uri origin) w (fun _ w' => (w'.documents.lookup key).isSome ∧
      w'.session.fetched ≠ w.session.fetched) := by
  unfold fetch
  dsimp only
  split
  · exact runs_failAt_bind here
  · have step : w.session.Step { w.session with fetched := w.session.fetched ++ [uri] } :=
      .work rfl rfl (Session.keepsHandles_refl _) (fun _ mem => mem)
    obtain ⟨w₁, same, up⟩ := w.exists_same step rfl rfl (fun _ mem => .inl mem)
    have sessions : w₁.session = { w.session with fetched := w.session.fetched ++ [uri] } :=
      congrArg Stock.session same
    have documents : w₁.documents = w.documents :=
      (congrArg Session.documents sessions).trans rfl
    refine after_modify_bind up sessions ?_
    split
    · next document served =>
      obtain ⟨proper, content⟩ := delivers uri document key served place
      rw [← documents] at absent
      refine after_mono (runs_addDocument place absent proper content) ?_
      rintro _ w₂ _ ⟨found, _, fetched⟩
      refine ⟨by rw [found]; rfl, ?_⟩
      rw [fetched, sessions]
      intro equal
      have length := congrArg List.length equal
      simp at length
    · exact runs_failAt _ _ (here.mono (Track.grown up).session.documents)

/-! ## References -/

theorem runs_findById (uri : String) : Runs (findById uri) w
    (fun found w' => w' = w ∧ ∀ place, found = some place → Leads w.documents uri place) := by
  refine after_get_bind (runs_check (fun found ok => ⟨rfl, ?_⟩))
  rintro place rfl
  exact leads_of_findById w.reachable.isTraced.distinct ok

theorem runs_pointerOf (uri fragment : String) {origin : Location}
    (here : IsAddress w.documents origin.place) :
    Runs (pointerOf uri fragment origin) w (fun pointer w' => w' = w ∧
      Pointer.parseFragment fragment = .ok pointer) := by
  unfold pointerOf
  split
  · next parsed => exact after_pure ⟨rfl, parsed⟩
  · exact runs_failAt _ _ here

/-- A URI leads to where it is located; nothing changes unless a document is fetched. -/
theorem runs_locate (delivers : Delivers contents loader) (uri : String) {origin : Location}
    (here : IsAddress w.documents origin.place) :
    Runs (locate loader uri origin) w (fun place w' => Leads w'.documents uri place ∧
      (w' = w ∨ w'.session.fetched ≠ w.session.fetched)) := by
  unfold locate
  refine runs_checkUri_bind (fun both split => ?_)
  obtain ⟨base, fragment⟩ := both
  have plain : Uri.withoutFragment base = .ok base :=
    Uri.withoutFragment_of_plain (Uri.mark_not_mem_split split)
  refine after_bind (runs_document base) ?_
  rintro stored w₁ _ ⟨rfl, key, place, found⟩
  rw [plain] at place
  cases place
  dsimp only
  have byPointer : ∀ {w' : Track contents} {P : Prop}, IsAddress w'.documents origin.place →
      (w'.documents.lookup base).isSome → Cache.isPointerFragment fragment = true → P →
      Runs (do return (base, ← pointerOf uri fragment origin)) w'
        (fun place w'' => Leads w''.documents uri place ∧ w'' = w' ∧ P) := by
    intro w' P here known way holds
    refine after_bind (runs_pointerOf uri fragment here) ?_
    rintro pointer _ _ ⟨rfl, parsed⟩
    obtain ⟨stored, found⟩ := Option.isSome_iff_exists.1 known
    exact after_pure ⟨.document split found way parsed, rfl, holds⟩
  split
  · next known =>
    obtain ⟨isSome, way⟩ := Bool.and_eq_true_iff.1 known
    rw [← found] at isSome
    refine after_mono (byPointer here isSome way trivial) ?_
    rintro place w' _ ⟨leads, same, _⟩
    exact ⟨leads, .inl same⟩
  · refine after_bind (runs_findById uri) ?_
    rintro answer w₂ _ ⟨rfl, leads⟩
    cases answer with
    | some place => exact after_pure ⟨leads place rfl, .inl rfl⟩
    | none =>
      dsimp only
      split
      · exact runs_failAt_bind here
      · next unknown =>
        have absent : w₂.documents.lookup base = none := by
          rw [found]
          exact Option.not_isSome_iff_eq_none.1 unknown
        refine after_bind (runs_fetch delivers here plain absent) ?_
        rintro _ w₃ up ⟨isSome, fetched⟩
        have here := here.mono (Track.grown up).session.documents
        refine after_bind (runs_findById uri) ?_
        rintro answer w₄ _ ⟨rfl, leads⟩
        cases answer with
        | some place => exact after_pure ⟨leads place rfl, .inr fetched⟩
        | none =>
          dsimp only
          split
          · next way =>
            refine after_mono (byPointer here isSome way fetched) ?_
            rintro place w' _ ⟨reached, rfl, fetched⟩
            exact ⟨reached, .inr fetched⟩
          · exact runs_failAt _ _ here

/-- A handle outside the cache for what was loaded at a location. -/
theorem runs_addBound {location : Location} {value : Json} {draft : Draft} {schema : Schema}
    (due : IsDue w location value draft) (other : ∀ members, value ≠ .object members)
    (made : w.stock.Made schema)
    (loaded : w.stock.IsClean → Loaded w.stock location value draft schema) :
    Runs (addBound location schema) w (fun id w' => HasLocation w'.stock id location) := by
  have step : w.session.Step { w.session with graph := (w.session.graph.addHandle location).2 } :=
    .aside due.comes
  obtain ⟨w₁, same, up⟩ := w.exists_step step (fun _ => SchemaGraph.schema_addHandle) rfl
    w.contained (fun _ mem => .inl mem)
  have sessions : w₁.session = _ := congrArg Stock.session same
  have grown := Track.grown up
  have has : HasLocation w₁.stock ⟨w.session.graph.handles.size⟩ location := by
    rw [same]
    exact ⟨_, handle_addHandle_new _ _, rfl⟩
  refine after_get_bind (after_set_bind up sessions ?_)
  refine after_bind (runs_bind has (made.mono grown) (fun clean => ?_) ?_) ?_
  · exact .inr ⟨value, draft, (due.later up).arrives clean, other,
      (loaded (clean.anti grown)).mono grown⟩
  · intro old bound
    obtain ⟨handle, found, _⟩ := has
    rw [schema_of_handle found] at bound
    have new : w₁.session.graph.handle? ⟨w.session.graph.handles.size⟩ =
        some { location, schema := none } := by
      rw [sessions]
      exact handle_addHandle_new _ _
    rw [found] at new
    cases new
    cases bound
  · intro _ w₂ up₂ _
    exact after_pure (has.mono (Track.grown up₂))

/-- Putting a handle under the URI of a reference makes it the target of the URI. -/
theorem runs_enterUri {source uri : String} {place : String × Pointer} {stored : StoredDocument}
    {value : Json} {target : Location} {draft : Draft} {id : HandleId}
    (normal : Uri.normalize source = .ok uri) (leads : Leads w.documents uri place)
    (known : w.documents.lookup place.1 = some stored)
    (found : valueAt place.1 stored place.2 = .ok (value, target))
    (comes : Comes w.documents target value draft)
    (holds : w.session.cache.lookupLocation target = .ok (some id) ∨
      HasLocation w.stock id target) :
    Runs (enterUri uri id) w (fun _ w' => Targets w'.stock uri id) := by
  have next : ∀ cache, w.session.cache.enterUri uri id = .ok cache →
      ∃ key w', Uri.normalize uri = .ok key ∧ w'.session = { w.session with cache } ∧ w ≤ w' := by
    intro cache entered
    have step : w.session.Step { w.session with cache } :=
      .enter normal leads known found comes holds entered
    obtain ⟨key, keyed, rfl⟩ := Session.enterUri_eq entered
    obtain ⟨w', same, up⟩ := w.exists_same step rfl rfl (fun _ mem => .inl mem)
    exact ⟨key, w', keyed, congrArg Stock.session same, up⟩
  refine after_get_bind (runs_checkUri_bind (fun cache entered => ?_))
  obtain ⟨key, w', keyed, same, up⟩ := next cache entered
  refine after_set up same ⟨key, keyed, fun unambiguous => ?_⟩
  have grown := (Track.grown up).session
  have traced := w.reachable.isTraced
  have before := unambiguous.anti grown.documents
  obtain ⟨document, pointer⟩ := ofDocument_place (w.sound.places _ _ known) (valueAt_eq found).2
  have same : target.place = place := Prod.ext document pointer
  have stands : w.session.StandsAt id place := by
    rw [← same]
    rcases holds with looked | has
    · exact traced.lookupLocation before (comes.isKnown w.sound) looked
    · exact has.standsAt
  exact ⟨place, (before.names_leads normal leads keyed).mono grown.documents, stands.mono grown⟩

end JsonSchema.Load
