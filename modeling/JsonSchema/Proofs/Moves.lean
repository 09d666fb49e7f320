import JsonSchema.Proofs.Fetching

/-!
# Handles over a session

The handles of a session are changed by moves (`Load.Move`): an object is started under an absolute
URI that has no handle yet, and finished under it, a handle is put under one more URI, a schema gets
a handle of its own, and a node is made that refers to a handle. Loading any value is moves, one after
the other (`Load.Moves`), and a call finishes only objects that it started (`Load.Ventures`), so the
handle of an object is still unbound when its keywords are there.

A move only adds to what is there (`Load.Does.keeps`). Hence a session starts an object under each URI
at most once and finishes at most one, and what a request found at a location under its own URI is
what every later one finds there (`Load.session_builds_once`), be the requests successful or not.
-/

namespace JsonSchema

namespace Session

/-- The handles of a session: those under URIs, and the graph that gave them out. -/
def ledger (session : Session) : List (String × HandleId) × SchemaGraph :=
  (session.cache.handles, session.graph)

/-- What a session has under URIs and behind handles is there later. -/
structure Keeps (session later : Session) : Prop where
  entries : ∀ uri id, session.cache.handles.lookup uri = some id →
    later.cache.handles.lookup uri = some id
  handles : KeepsHandles session.graph later.graph

/-- A schema is finished under the URI that its document and pointer give a location. -/
def Owns (session : Session) (location : Location) (schema : Schema) : Prop :=
  ∃ uri id, location.absoluteUri = .ok uri ∧ session.cache.handles.lookup uri = some id ∧
    session.graph.schema? id = some schema

variable {session later : Session}

theorem keeps_of_ledger (same : later.ledger = session.ledger) : session.Keeps later := by
  obtain ⟨handles, graph⟩ := Prod.mk.inj same
  constructor
  · rw [handles]
    exact fun _ _ found => found
  · rw [graph]
    exact keepsHandles_refl _

theorem Keeps.trans {last : Session} (first : session.Keeps later) (second : later.Keeps last) :
    session.Keeps last :=
  ⟨fun uri id found => second.entries uri id (first.entries uri id found),
    first.handles.trans second.handles⟩

instance : Trans Keeps Keeps Keeps where
  trans := Keeps.trans

theorem KeepsHandles.size_le {graph graph' : SchemaGraph} (kept : KeepsHandles graph graph') :
    graph.handles.size ≤ graph'.handles.size := by
  by_contra fewer
  have inside : graph'.handles.size < graph.handles.size := Nat.lt_of_not_le fewer
  obtain ⟨_, found, _⟩ := kept ⟨graph'.handles.size⟩ _ (Array.getElem?_eq_getElem inside)
  have none : graph'.handle? ⟨graph'.handles.size⟩ = none := Array.getElem?_size
  rw [none] at found
  cases found

theorem KeepsHandles.schema {graph graph' : SchemaGraph} (kept : KeepsHandles graph graph')
    {id : HandleId} {schema : Schema} (bound : graph.schema? id = some schema) :
    graph'.schema? id = some schema := by
  obtain ⟨handle, found, same⟩ := Option.bind_eq_some_iff.1 bound
  obtain ⟨handle', found', _, keeps⟩ := kept id handle found
  exact Option.bind_eq_some_iff.2 ⟨handle', found', keeps schema same⟩

theorem keeps_enter (session : Session) (uris : List String) (id : HandleId)
    {graph : SchemaGraph} (handles : KeepsHandles session.graph graph) :
    session.Keeps { session with cache := session.cache.enter uris id, graph } := by
  refine ⟨fun uri other found => ?_, handles⟩
  rw [Cache.lookup_enter, found]
  rfl

theorem Owns.keep {location : Location} {schema : Schema} (owns : session.Owns location schema)
    (kept : session.Keeps later) : later.Owns location schema := by
  obtain ⟨uri, id, place, found, bound⟩ := owns
  exact ⟨uri, id, place, kept.entries uri id found, kept.handles.schema bound⟩

theorem Owns.congr {location location' : Location} {schema : Schema}
    (same : location'.absoluteUri = location.absoluteUri) (owns : session.Owns location schema) :
    session.Owns location' schema := by
  obtain ⟨uri, id, place, found⟩ := owns
  exact ⟨uri, id, same.trans place, found⟩

end Session

namespace Load

open Session

variable {α : Type} {loader : Loader} {session later : Session}

/-! ## Moves -/

/-- What is done to the handles of a session. -/
inductive Act where
  /-- An object is started under its absolute URI. -/
  | start (uri : String) (id : HandleId)
  /-- The object with a handle is finished, under its absolute URI. -/
  | finish (uri : String) (id : HandleId) (schema : Schema)
  /-- A handle is put under one more URI. -/
  | enter (uri : String) (id : HandleId)
  /-- A schema gets a handle that is under no URI yet. -/
  | aside (id : HandleId) (schema : Schema)
  /-- A node is made that refers back to a handle. -/
  | refer (id : HandleId) (schema : Schema)

/-- What an act does to a session. -/
inductive Does : Session → Act → Session → Prop
  | start {session : Session} {location : Location} {uri : String} {id : HandleId} {cache : Cache}
    {graph : SchemaGraph} (place : location.absoluteUri = .ok uri)
    (unmet : session.cache.handles.lookup uri = none)
    (started : session.cache.start session.graph location = .ok (id, cache, graph)) :
    Does session (.start uri id) { session with cache, graph }
  | finish {session : Session} {location : Location} {uri : String} {id : HandleId} {draft : Draft}
    {keywords : List (Keyword × KeywordValue)} {schema : Schema} {graph bound : SchemaGraph}
    (place : location.absoluteUri = .ok uri)
    (entered : session.cache.handles.lookup uri = some id)
    (pending : session.graph.handle? id = some { location, schema := none })
    (made : session.graph.addNode (some location) draft keywords = (schema, graph))
    (binds : graph.bind id schema = .ok bound) :
    Does session (.finish uri id schema) { session with graph := bound }
  | enter {session : Session} {uri : String} {id : HandleId} {cache : Cache}
    (entered : session.cache.enterUri uri id = .ok cache) :
    Does session (.enter uri id) { session with cache }
  | aside {session : Session} {location : Location} {schema : Schema} {id : HandleId}
    {graph bound : SchemaGraph} (added : session.graph.addHandle location = (id, graph))
    (binds : graph.bind id schema = .ok bound) :
    Does session (.aside id schema) { session with graph := bound }
  | refer {session : Session} {location : Location} {draft : Draft} {ref uri : String}
    {id : HandleId} {schema : Schema} {graph : SchemaGraph}
    (made : session.graph.addNode (some location) draft [(Builtin.ref, .reference ref uri id)] =
      (schema, graph)) :
    Does session (.refer id schema) { session with graph }

/-- An act in a session. -/
structure Move where
  before : Session
  act : Act
  after : Session
  does : Does before act after

namespace Move

/-- The URI under which a move starts an object. -/
def begun? (move : Move) : Option String :=
  match move.act with
  | .start uri _ => some uri
  | _ => none

/-- The URI under which a move finishes an object. -/
def built? (move : Move) : Option String :=
  match move.act with
  | .finish uri _ _ => some uri
  | _ => none

end Move

/-- Moves lead from a session to another one. Nothing changes the handles between two of them. -/
inductive Moves : Session → List Move → Session → Prop
  | rest {session later : Session} (same : later.ledger = session.ledger) : Moves session [] later
  | move {session later : Session} {move : Move} {moves : List Move}
    (same : move.before.ledger = session.ledger) (rest : Moves move.after moves later) :
    Moves session (move :: moves) later

/-- The sessions that moves go through. -/
def moments (session : Session) (moves : List Move) (later : Session) : List Session :=
  session :: moves.flatMap (fun move => [move.before, move.after]) ++ [later]

/-! ### One move -/

theorem Does.keeps {act : Act} (does : Does session act later) : session.Keeps later := by
  cases does with
  | start _ _ started =>
    obtain ⟨keys, _, _, rfl, rfl⟩ := start_eq started
    exact keeps_enter _ _ _ (keepsHandles_addHandle _ _)
  | finish _ _ pending made binds =>
    cases made
    have kept := keepsHandles_bind binds pending rfl
    exact ⟨fun _ _ found => found, kept⟩
  | enter entered =>
    obtain ⟨key, _, rfl⟩ := enterUri_eq entered
    exact keeps_enter _ _ _ (keepsHandles_refl _)
  | aside added binds =>
    cases added
    have kept := keepsHandles_bind binds (handle_addHandle_new session.graph _) rfl
    exact ⟨fun _ _ found => found, (keepsHandles_addHandle session.graph _).trans kept⟩
  | refer made =>
    cases made
    exact ⟨fun _ _ found => found, keepsHandles_refl _⟩

theorem Does.begins {uri : String} {id : HandleId} (does : Does session (.start uri id) later) :
    session.cache.handles.lookup uri = none ∧ later.cache.handles.lookup uri = some id := by
  cases does with
  | start place unmet started =>
    obtain ⟨keys, listed, rfl, rfl, rfl⟩ := start_eq started
    refine ⟨unmet, ?_⟩
    rw [Cache.lookup_enter, unmet, if_pos (absoluteUri_mem listed place)]
    rfl

theorem Does.builds {uri : String} {id : HandleId} {schema : Schema}
    (does : Does session (.finish uri id schema) later) :
    session.cache.handles.lookup uri = some id ∧ session.graph.schema? id = none ∧
      later.graph.schema? id = some schema := by
  cases does with
  | finish place entered pending made binds =>
    cases made
    exact ⟨entered, schema_of_handle pending, schema_of_handle (handle_bound binds pending rfl).1⟩

/-- A handle stays unbound while others are bound. -/
theorem Does.pending {act : Act} {id : HandleId} {location : Location}
    (does : Does session act later) (other : ∀ uri schema, act ≠ .finish uri id schema)
    (pending : session.graph.handle? id = some { location, schema := none }) :
    later.graph.handle? id = some { location, schema := none } := by
  have inside : id.index < session.graph.handles.size :=
    (Array.getElem?_eq_some_iff.1 pending).1
  cases does with
  | start _ _ started =>
    obtain ⟨keys, _, _, rfl, rfl⟩ := start_eq started
    exact (SchemaGraph.handle_addHandle inside).trans pending
  | finish _ _ held made binds =>
    cases made
    have others := (handle_bound binds held rfl).2
    rw [others id (fun same => other _ _ (by rw [same]))]
    exact pending
  | enter => exact pending
  | aside added binds =>
    cases added
    have others := (handle_bound binds (handle_addHandle_new _ _) rfl).2
    rw [others id (fun same => absurd inside (by rw [same]; exact Nat.lt_irrefl _))]
    exact (SchemaGraph.handle_addHandle inside).trans pending
  | refer made =>
    cases made
    exact pending

/-! ### Many moves -/

theorem Moves.append {moves moves' : List Move} {last : Session} (first : Moves session moves later)
    (second : Moves later moves' last) : Moves session (moves ++ moves') last := by
  induction first with
  | rest same =>
    cases second with
    | rest same' => exact .rest (same'.trans same)
    | move same' rest => exact .move (same'.trans same) rest
  | move same _ ih => exact .move same (ih second)

theorem Moves.keeps {moves : List Move} (moved : Moves session moves later) :
    session.Keeps later := by
  induction moved with
  | rest same => exact keeps_of_ledger same
  | @move _ _ move _ same _ ih => exact (keeps_of_ledger same).trans (move.does.keeps.trans ih)

/-- What a session has at one moment it has at every later one. -/
theorem Moves.pairwise_moments {moves : List Move} (moved : Moves session moves later) :
    (moments session moves later).Pairwise Keeps := by
  rw [← List.isChain_iff_pairwise]
  induction moved with
  | rest same => exact .cons_cons (keeps_of_ledger same) (.singleton _)
  | move same _ ih => exact .cons_cons (keeps_of_ledger same) (.cons_cons (Move.does _).keeps ih)

theorem Moves.pairwise {moves : List Move} (moved : Moves session moves later) :
    (∀ move ∈ moves, session.Keeps move.before) ∧
      moves.Pairwise fun move next => move.after.Keeps next.before := by
  induction moved with
  | rest => exact ⟨nofun, .nil⟩
  | @move _ _ move moves same _ ih =>
    refine ⟨fun other mem => ?_, List.pairwise_cons.2 ih⟩
    rcases List.mem_cons.1 mem with rfl | behind
    · exact keeps_of_ledger same
    · exact (keeps_of_ledger same).trans (move.does.keeps.trans (ih.1 other behind))

/-- An object is started where no handle is, so none is started twice. -/
theorem Moves.nodup_begun {moves : List Move} (moved : Moves session moves later) :
    (moves.filterMap Move.begun?).Nodup := by
  refine List.pairwise_filterMap.2 (moved.pairwise.2.imp ?_)
  rintro ⟨_, act, after, does⟩ ⟨before, act', _, does'⟩ keeps uri begun uri' begun' rfl
  cases act <;> cases begun
  cases act' <;> cases begun'
  have found := keeps.entries _ _ does.begins.2
  rw [does'.begins.1] at found
  cases found

/-- The object under a URI has one handle, which is bound once. -/
theorem Moves.nodup_built {moves : List Move} (moved : Moves session moves later) :
    (moves.filterMap Move.built?).Nodup := by
  refine List.pairwise_filterMap.2 (moved.pairwise.2.imp ?_)
  rintro ⟨before, act, after, does⟩ ⟨_, act', _, does'⟩ keeps uri built uri' built' rfl
  cases act <;> cases built
  cases act' <;> cases built'
  obtain ⟨found, _, bound⟩ := does.builds
  obtain ⟨found', unbound, _⟩ := does'.builds
  rw [(does.keeps.trans keeps).entries _ _ found] at found'
  cases found'
  rw [keeps.handles.schema bound] at unbound
  cases unbound

/-! ## Ventures -/

/-- A session comes to another one by moves, which finish objects only under handles from a number
on. -/
def Ventures (floor : Nat) (session later : Session) : Prop :=
  ∃ moves, Moves session moves later ∧
    ∀ move ∈ moves, ∀ uri id schema, move.act = .finish uri id schema → floor ≤ id.index

section Ventures

variable {floor : Nat}

theorem ventures_of_ledger (same : later.ledger = session.ledger) : Ventures floor session later :=
  ⟨[], .rest same, nofun⟩

theorem ventures_move {act : Act} (does : Does session act later)
    (above : ∀ uri id schema, act = .finish uri id schema → floor ≤ id.index) :
    Ventures floor session later := by
  refine ⟨[⟨session, act, later, does⟩], .move rfl (.rest rfl), fun move mem => ?_⟩
  rw [List.mem_singleton.1 mem]
  exact above

theorem Ventures.trans {last : Session} (first : Ventures floor session later)
    (second : Ventures floor later last) : Ventures floor session last := by
  obtain ⟨moves, moved, above⟩ := first
  obtain ⟨moves', moved', above'⟩ := second
  refine ⟨moves ++ moves', moved.append moved', fun move mem => ?_⟩
  exact (List.mem_append.1 mem).elim (above move) (above' move)

theorem Ventures.lower {floor' : Nat} (ventures : Ventures floor' session later)
    (le : floor ≤ floor') : Ventures floor session later := by
  obtain ⟨moves, moved, above⟩ := ventures
  exact ⟨moves, moved, fun move mem uri id schema same => le.trans (above move mem uri id schema same)⟩

theorem Ventures.keeps (ventures : Ventures floor session later) : session.Keeps later := by
  obtain ⟨_, moved, _⟩ := ventures
  exact moved.keeps

theorem Ventures.pending (ventures : Ventures floor session later) {id : HandleId}
    (below : id.index < floor) {location : Location}
    (pending : session.graph.handle? id = some { location, schema := none }) :
    later.graph.handle? id = some { location, schema := none } := by
  obtain ⟨moves, moved, above⟩ := ventures
  have here : ∀ {session later : Session}, later.ledger = session.ledger →
      session.graph.handle? id = some { location, schema := none } →
      later.graph.handle? id = some { location, schema := none } := by
    intro session later same pending
    have graph : later.graph = session.graph := congrArg Prod.snd same
    rwa [graph]
  induction moved with
  | rest same => exact here same pending
  | @move _ _ move moves same _ ih =>
    refine ih ?_ (fun other mem => above other (List.mem_cons_of_mem _ mem))
    refine move.does.pending (fun uri schema finish => ?_) (here same pending)
    exact absurd (above move List.mem_cons_self _ _ _ finish) (Nat.not_le_of_lt below)

end Ventures

/-- A call of loading finishes only objects that it started. -/
theorem isCourse_ventures :
    IsCourse fun session later => Ventures session.graph.handles.size session later where
  report _ _ := ventures_of_ledger rfl
  trans first second := first.trans (second.lower first.keeps.handles.size_le)

/-! ## Operations -/

theorem ventures_enterUri (uri : String) (id : HandleId) (session : Session) {floor : Nat} :
    Ventures floor session ((enterUri uri id).run.run session).2 := by
  change Ventures floor session
    ((checkUri (session.cache.enterUri uri id) >>= _).run.run session).2
  cases entered : session.cache.enterUri uri id with
  | ok cache => exact ventures_move (.enter entered) nofun
  | error fault => exact ventures_of_ledger rfl

/-- A handle that is bound from the start is a new one. -/
theorem run_addBound (location : Location) (schema : Schema) (session : Session) :
    ∃ graph, (session.graph.addHandle location).2.bind ⟨session.graph.handles.size⟩ schema =
        .ok graph ∧
      (addBound location schema).run.run session =
        (.ok ⟨session.graph.handles.size⟩, { session with graph }) := by
  obtain ⟨bound, binds, _⟩ :=
    handle_bind schema (handle_addHandle_new session.graph location) rfl
  have run : (bind ⟨session.graph.handles.size⟩ schema).run.run
      { session with graph := (session.graph.addHandle location).2 } =
      (.ok ⟨⟩, { session with graph := bound }) := by
    rw [run_bind, binds]
  refine ⟨bound, binds, ?_⟩
  change (do
    bind ⟨session.graph.handles.size⟩ schema
    return ⟨session.graph.handles.size⟩ : Load HandleId).run.run
      { session with graph := (session.graph.addHandle location).2 } = _
  rw [run_bind_ok run]
  rfl

theorem ventures_addBound (location : Location) (schema : Schema) (session : Session)
    {floor : Nat} : Ventures floor session ((addBound location schema).run.run session).2 := by
  obtain ⟨graph, binds, run⟩ := run_addBound location schema session
  rw [run]
  exact ventures_move (.aside rfl binds) nofun

theorem ventures_referTo (id : HandleId) (location : Location) (draft : Draft)
    (session : Session) :
    Ventures session.graph.handles.size session ((referTo id location draft).run.run session).2 := by
  have course := isCourse_ventures
  refine course.sequence (ventures_of_ledger rfl) (fun known s run => ?_)
  split
  · refine course.sequence ((course.checkUri _).later s) (fun ref s₁ _ => ?_)
    refine course.sequence ((course.checkUri _).later s₁) (fun uri s₂ _ => ?_)
    exact ventures_move (@Does.refer s₂ location draft ref uri id _ _ rfl) nofun
  · exact ventures_of_ledger rfl

theorem ventures_step {act : Load α} (isStep : IsStep act) (session : Session) :
    Ventures session.graph.handles.size session (act.run.run session).2 := by
  cases isStep with
  | get => exact ventures_of_ledger rfl
  | lookup uri => exact (isCourse_ventures.checkUri _).later session
  | lookupLocation location => exact (isCourse_ventures.checkUri _).later session
  | findById uri => exact (isCourse_ventures.check _).later session
  | enterUri uri id => exact ventures_enterUri uri id session
  | addBound location schema => exact ventures_addBound location schema session
  | referTo id location draft => exact ventures_referTo id location draft session

theorem ventures_addDocument (uri : String) (document : Document) (draft : Draft)
    (session : Session) : Ventures session.graph.handles.size session
      ((addDocument uri document draft).run.run session).2 := by
  change Ventures _ session
    ((check (session.cache.addDocument uri document draft) >>= _).run.run session).2
  cases added : session.cache.addDocument uri document draft with
  | ok cache =>
    obtain ⟨key, _, rfl⟩ := addDocument_eq added
    exact ventures_of_ledger rfl
  | error fault => exact ventures_of_ledger rfl

theorem congruence_ventures (loader : Loader) :
    Congruence Set.univ loader loader.options.strict loader.options.strict
      (Pursues fun session later => Ventures session.graph.handles.size session later) :=
  (isCourse_ventures.compatible loader ventures_step).congruence
    (fun _ => .unvalued (ventures_addDocument _ _ _))
    (fun _ => .unvalued fun _ => ventures_of_ledger rfl)

/-! ## Objects -/

/-- The outcome of making an object: what was done are moves, and a schema that it gives is finished
under the URI of the location. -/
structure Makes (location : Location) (session : Session) (outcome : Except Stop Schema × Session) :
    Prop where
  ventures : Ventures session.graph.handles.size session outcome.2
  owns : ∀ schema, outcome.1 = .ok schema → outcome.2.Owns location schema

theorem Makes.fail {location : Location} {stop : Stop}
    (ventures : Ventures session.graph.handles.size session later) :
    Makes location session (.error stop, later) :=
  ⟨ventures, nofun⟩

theorem Makes.from {location : Location} {outcome : Except Stop Schema × Session}
    (ventures : Ventures session.graph.handles.size session later)
    (makes : Makes location later outcome) : Makes location session outcome :=
  ⟨isCourse_ventures.trans ventures makes.ventures, makes.owns⟩

/-- An object that was started is finished with a node at its location. -/
theorem exists_finish {location : Location} {uri : String} {id : HandleId} (draft : Draft)
    (keywords : List (Keyword × KeywordValue)) (place : location.absoluteUri = .ok uri)
    (entered : session.cache.handles.lookup uri = some id)
    (pending : session.graph.handle? id = some { location, schema := none }) :
    ∃ schema later, (addNode location draft keywords >>= fun schema => bind id schema >>= fun _ =>
        pure schema : Load Schema).run.run session = (.ok schema, later) ∧
      Does session (.finish uri id schema) later := by
  let made := session.graph.addNode (some location) draft keywords
  obtain ⟨bound, binds, _⟩ := @handle_bind made.2 id _ made.1 pending rfl
  refine ⟨made.1, { session with graph := bound }, ?_, .finish place entered pending rfl binds⟩
  rw [run_bind_ok (show (addNode location draft keywords).run.run session =
    (.ok made.1, { session with graph := made.2 }) from rfl)]
  have run : (bind id made.1).run.run { session with graph := made.2 } =
      (.ok ⟨⟩, { session with graph := bound }) := by
    rw [run_bind, binds]
  rw [run_bind_ok run]
  rfl

section Below

variable {load : NodeLoader} (loads : ∀ value location draft,
  Pursues (fun session later => Ventures session.graph.handles.size session later)
    (load value location draft) (load value location draft) fun _ => True)

include loads

/-- An object whose absolute URI has no handle gets one, which waits until the object is there. -/
theorem makes_started {location : Location} {members : List (String × Json)}
    (unmet : ∀ uri, location.absoluteUri = .ok uri → session.cache.handles.lookup uri = none)
    (draft : Draft) :
    Makes location session
      ((start location >>= loadStarted loader load members draft location).run.run session) := by
  cases started : session.cache.start session.graph location with
  | error fault =>
    rw [run_bind_error (by rw [run_start, started])]
    exact .fail (ventures_of_ledger rfl)
  | ok made =>
    obtain ⟨id, cache, graph⟩ := made
    rw [run_bind_ok (by rw [run_start, started]), loadStarted_eq]
    obtain ⟨keys, listed, same, _, rfl⟩ := start_eq started
    obtain ⟨uri, place, _⟩ := Location.absoluteUri_mem listed
    have starts := Does.start place (unmet uri place) started
    have opened : Ventures session.graph.handles.size session _ := ventures_move starts nofun
    let s₁ : Session := { session with cache, graph := (session.graph.addHandle location).2 }
    have inside : id.index < s₁.graph.handles.size := by
      rw [same]
      exact Nat.lt_of_lt_of_eq (Nat.lt_succ_self _) SchemaGraph.size_addHandle.symm
    have pending : s₁.graph.handle? id = some { location, schema := none } := by
      rw [same]
      exact handle_addHandle_new _ _
    have keyed : (Json.object members).IsKeyed Set.univ location.documentUri location.pointer :=
      isKeyed_univ _ _ _
    have content : Ventures s₁.graph.handles.size s₁
        ((loadContent loader load members draft location).run.run s₁).2 :=
      ((congruence_ventures loader).loadContent
        (fun value location draft _ => loads value location draft) keyed draft).later s₁
    cases run : (loadContent loader load members draft location).run.run s₁ with
    | mk result s₂ =>
      rw [run] at content
      have before := opened.trans (content.lower starts.keeps.handles.size_le)
      cases result with
      | error stop =>
        rw [run_bind_error run]
        exact .fail before
      | ok builder =>
        rw [run_bind_ok run]
        have entered := content.keeps.entries _ _ starts.begins.2
        obtain ⟨schema, last, run', finishes⟩ := exists_finish draft builder.keywords place entered
          (content.pending inside pending)
        rw [run']
        have above : ∀ uri' id' schema', Act.finish uri id schema = .finish uri' id' schema' →
            session.graph.handles.size ≤ id'.index := by
          rintro _ _ _ ⟨⟩
          rw [same]
        refine ⟨before.trans (ventures_move finishes above), ?_⟩
        rintro _ ⟨⟩
        exact ⟨uri, id, place, finishes.keeps.entries _ _ entered, finishes.builds.2.2⟩

theorem makes_loadObject {location : Location} {members : List (String × Json)}
    (unmet : ∀ uri, location.absoluteUri = .ok uri → session.cache.handles.lookup uri = none)
    (draft : Draft) :
    Makes location session ((loadObject loader load members location draft).run.run session) := by
  rw [loadObject_eq]
  split
  · next identifier _ _ =>
    have applied : Ventures session.graph.handles.size session
        ((applyIdentifier loader identifier location).run.run session).2 :=
      ((congruence_ventures loader).applyIdentifier identifier location).later session
    cases run : (applyIdentifier loader identifier location).run.run session with
    | mk result later =>
      rw [run] at applied
      cases result with
      | error stop =>
        rw [run_bind_error run]
        exact .fail applied
      | ok named =>
        rw [run_bind_ok run]
        obtain ⟨same, document, pointer⟩ := run_applyIdentifier run
        have place : named.absoluteUri = location.absoluteUri := by
          unfold Location.absoluteUri Location.fragment
          rw [document, pointer]
        have makes : Makes named later
            ((start named >>= loadStarted loader load members draft named).run.run later) :=
          makes_started loads (fun uri here => same ▸ unmet uri (place ▸ here)) draft
        refine .from applied ⟨makes.ventures, fun schema ok => ?_⟩
        exact (makes.owns schema ok).congr place.symm
  · rw [pure_bind]
    exact makes_started loads unmet draft

/-- An object that has no handle under any of its URIs is made. -/
theorem makes_nodeWith {location : Location} {members : List (String × Json)}
    (unmet : session.cache.lookupLocation location = .ok none) (draft : Draft) :
    Makes location session
      ((nodeWith loader load (.object members) location draft).run.run session) := by
  unfold nodeWith
  dsimp only
  rw [run_bind_ok (run_lookupLocation_eq unmet)]
  refine makes_loadObject loads (fun uri place => ?_) draft
  obtain ⟨keys, listed, missing⟩ := except_bind_ok unmet
  exact List.findSome?_eq_none_iff.1 (Except.ok.inj missing) uri (absoluteUri_mem listed place)

theorem ventures_nodeWith (value : Json) (location : Location) (draft : Draft) :
    Pursues (fun session later => Ventures session.graph.handles.size session later)
      (nodeWith loader load value location draft) (nodeWith loader load value location draft)
      fun _ => True := by
  have course := isCourse_ventures
  cases value with
  | bool b => exact course.done _
  | object members =>
    refine .unvalued fun session => ?_
    cases looked : session.cache.lookupLocation location with
    | ok found =>
      cases found with
      | none => exact (makes_nodeWith loads looked draft).ventures
      | some id =>
        refine course.sequence (ventures_step (.lookupLocation location) session)
          (fun found later run => ?_)
        obtain ⟨same, rfl⟩ := run_checkUri run
        rw [looked] at same
        cases same
        refine course.sequence (ventures_step .get later) (fun known s run => ?_)
        split
        · exact ventures_of_ledger rfl
        · exact ventures_step (.referTo _ _ _) s
    | error fault =>
      refine course.sequence (ventures_step (.lookupLocation location) session)
        (fun found later run => ?_)
      rw [(run_checkUri run).1] at looked
      cases looked
  | _ => exact course.bind (course.recordError _ _ _) (fun _ _ => course.done _)

end Below

theorem ventures_loadNode (loader : Loader) (depth : Nat) (value : Json) (location : Location)
    (draft : Draft) :
    Pursues (fun session later => Ventures session.graph.handles.size session later)
      (loadNode loader depth value location draft) (loadNode loader depth value location draft)
      fun _ => True := by
  induction depth generalizing value location draft with
  | zero => exact isCourse_ventures.throw _
  | succ depth ih => exact ventures_nodeWith ih value location draft

theorem makes_loadNode {depth : Nat} {members : List (String × Json)} {location : Location}
    (unmet : session.cache.lookupLocation location = .ok none) (draft : Draft) :
    Makes location session
      ((loadNode loader (depth + 1) (.object members) location draft).run.run session) :=
  makes_nodeWith (ventures_loadNode loader depth) unmet draft

/-- An object is only loaded at a location whose URIs can be made. -/
theorem exists_cacheKeys {depth : Nat} {members : List (String × Json)} {location : Location}
    {draft : Draft} {schema : Schema}
    (ok : ((loadNode loader (depth + 1) (.object members) location draft).run.run session).1 =
      .ok schema) : ∃ keys, location.cacheKeys = .ok keys := by
  have run : (loadNode loader (depth + 1) (.object members) location draft).run.run session =
      (.ok schema, ((loadNode loader (depth + 1) (.object members) location draft).run.run
        session).2) := Prod.ext ok rfl
  obtain ⟨found, _, looked, _⟩ := run_bind_eq_ok run
  obtain ⟨keys, listed, _⟩ := except_bind_ok (run_checkUri looked).1
  exact ⟨keys, listed⟩

/-- A schema that is finished under the URI of the location is found again. -/
theorem run_loadNode_owned {depth : Nat} {members : List (String × Json)} {location : Location}
    {schema : Schema} {keys : List String} (owns : session.Owns location schema)
    (listed : location.cacheKeys = .ok keys) (draft : Draft) :
    (loadNode loader (depth + 1) (.object members) location draft).run.run session =
      (.ok schema, session) := by
  obtain ⟨uri, id, place, found, bound⟩ := owns
  obtain ⟨key, rest, first, rfl⟩ := Location.cacheKeys_eq_cons listed
  rw [place] at first
  cases first
  have met : session.cache.lookupLocation location = .ok (some id) := by
    unfold Cache.lookupLocation
    rw [listed]
    change Except.ok ((uri :: rest).findSome? _) = _
    rw [List.findSome?_cons, found]
  change (nodeWith loader (loadNode loader depth) (.object members) location draft).run.run
    session = _
  unfold nodeWith
  dsimp only
  rw [run_bind_ok (run_lookupLocation_eq met)]
  dsimp only
  rw [run_bind_ok (show (get : Load Session).run.run session = (.ok session, session) from rfl),
    bound]
  rfl

/-! ## Requests -/

/-- The schema that a request gets, or why it gets none. -/
def Request.answer (loader : Loader) (request : Request) (session : Session) :
    Except Stop Schema :=
  ((load (loader.withClient request.client) request.document request.location).run.run session).1

theorem ventures_run (loader : Loader) (request : Request) (session : Session) :
    Ventures session.graph.handles.size session (request.run loader session) := by
  unfold Request.run
  cases place : Uri.withoutFragment request.location.documentUri with
  | error fault =>
    rw [run_load_error place]
    exact ventures_of_ledger rfl
  | ok uri =>
    obtain ⟨depth, draft, run⟩ := run_load place session
    rw [run]
    have admitted : Ventures session.graph.handles.size session (request.admitted loader session) :=
      ventures_of_ledger rfl
    exact admitted.trans ((ventures_loadNode (loader.withClient request.client) (depth + 1) _ _
      draft).later (request.admitted loader session))

theorem exists_moves (loader : Loader) (session : Session) (requests : List Request) :
    ∃ moves, Moves session moves (answering loader session requests) := by
  induction requests generalizing session with
  | nil => exact ⟨[], .rest rfl⟩
  | cons request requests ih =>
    obtain ⟨moves, moved, _⟩ := ventures_run loader request session
    obtain ⟨moves', moved'⟩ := ih (request.run loader session)
    exact ⟨moves ++ moves', moved.append moved'⟩

/-- A schema that a request gets at a location whose URIs have no handle, or whose own URI has a
finished one, is finished under that URI. -/
theorem owns_of_answer {request : Request} {members : List (String × Json)} {schema : Schema}
    (object : request.document.value = .object members)
    (own : session.cache.lookupLocation request.location = .ok none ∨
      ∃ schema, session.Owns request.location schema)
    (answered : request.answer loader session = .ok schema) :
    (request.run loader session).Owns request.location schema ∧
      (∃ uri, Uri.withoutFragment request.location.documentUri = .ok uri) ∧
      ∃ keys, request.location.cacheKeys = .ok keys := by
  unfold Request.answer at answered
  unfold Request.run
  cases place : Uri.withoutFragment request.location.documentUri with
  | error fault =>
    rw [run_load_error place] at answered
    cases answered
  | ok uri =>
    obtain ⟨depth, draft, run⟩ := run_load place session
    rw [run, object] at answered ⊢
    obtain ⟨keys, listed⟩ := exists_cacheKeys answered
    refine ⟨?_, ⟨uri, rfl⟩, keys, listed⟩
    rcases own with unmet | ⟨old, owns⟩
    · have unmet : (request.admitted loader session).cache.lookupLocation request.location =
          .ok none := unmet
      exact (makes_loadNode unmet draft).owns schema answered
    · have owns : (request.admitted loader session).Owns request.location old := owns
      rw [run_loadNode_owned owns listed] at answered ⊢
      cases answered
      exact owns

/-- A request for an object that is finished under the URI of its location gets that schema. -/
theorem answer_owned {request : Request} {members : List (String × Json)} {schema : Schema}
    {uri : String} {keys : List String} (object : request.document.value = .object members)
    (owns : session.Owns request.location schema)
    (place : Uri.withoutFragment request.location.documentUri = .ok uri)
    (listed : request.location.cacheKeys = .ok keys) :
    request.answer loader session = .ok schema := by
  have owns : (request.admitted loader session).Owns request.location schema := owns
  obtain ⟨depth, draft, run⟩ := run_load place session
  unfold Request.answer
  rw [run, object, run_loadNode_owned owns listed]

/-- However many requests a session answers, and whether it can or not, it starts an object under
each absolute URI at most once, it finishes at most one under it, and what it has under a URI or
behind a handle at one moment it has at every later one. A request for an object at a location whose
URIs have no handle yet, or whose own URI has a finished one, gets the schema that all later requests
for an object there get. -/
theorem session_builds_once (loader : Loader) (session : Session) (requests : List Request) :
    (∃ moves, Moves session moves (answering loader session requests) ∧
      (moves.filterMap Move.begun?).Nodup ∧ (moves.filterMap Move.built?).Nodup ∧
      (moments session moves (answering loader session requests)).Pairwise Keeps) ∧
    ∀ (first second : Request) (members members' : List (String × Json)) (schema : Schema),
      first.document.value = .object members → second.document.value = .object members' →
      second.location = first.location →
      (session.cache.lookupLocation first.location = .ok none ∨
        ∃ schema, session.Owns first.location schema) →
      first.answer loader session = .ok schema →
      second.answer loader (answering loader (first.run loader session) requests) = .ok schema := by
  constructor
  · obtain ⟨moves, moved⟩ := exists_moves loader session requests
    exact ⟨moves, moved, moved.nodup_begun, moved.nodup_built, moved.pairwise_moments⟩
  · intro first second members members' schema object object' same own answered
    obtain ⟨owns, ⟨uri, place⟩, keys, listed⟩ := owns_of_answer object own answered
    obtain ⟨moves, moved⟩ := exists_moves loader (first.run loader session) requests
    have kept := owns.keep moved.keeps
    rw [← same] at kept place listed
    exact answer_owned object' kept place listed

/-- A request for the list. -/
def Linked.request : Request :=
  { client := Linked.loader.client, document := Linked.document, location := Linked.root }

/-- The list that is asked for three times is one schema. -/
theorem linked_builds_once : ∃ schema,
    Linked.request.answer Linked.loader (opening Linked.loader) = .ok schema ∧
    Linked.request.answer Linked.loader (answering Linked.loader
      (Linked.request.run Linked.loader (opening Linked.loader)) [Linked.request]) = .ok schema := by
  have ends : (Linked.request.answer Linked.loader (opening Linked.loader)).toOption.isSome := by
    decide +kernel
  have unmet : ((opening Linked.loader).cache.lookupLocation Linked.root).toOption = some none := by
    decide +kernel
  obtain ⟨schema, answered⟩ := Option.isSome_iff_exists.1 ends
  have answered := toOption_ok answered
  refine ⟨schema, answered, ?_⟩
  exact (session_builds_once Linked.loader (opening Linked.loader) [Linked.request]).2
    Linked.request Linked.request _ _ schema rfl rfl rfl (.inl (toOption_ok unmet)) answered

end Load

end JsonSchema
