import JsonSchema.Proofs.Moves
import JsonSchema.Proofs.Retaining
import JsonSchema.Proofs.Strict

/-!
# Keywords of loaded objects

Sessions alone are a setting (`Load.Moment`). An issue may be recorded anywhere, and later sessions
have the issues of earlier ones and what these have under URIs and behind handles
(`Session.Continues`). A session has a schema for each value that was loaded without errors
(`Session.HasSchema`, `Load.loadsIn_loadNode`). So what is known of keywords in any setting holds
whatever documents a session stores and however it came about: an object without `$ref` that was
loaded without errors has a schema that retains its members (`Load.loadObject_retains`).
-/

namespace JsonSchema

/-! ## Later sessions -/

namespace Session

variable {session later : Session} {graph graph' : SchemaGraph}

/-- A later session has the issues of an earlier one, and what that has under URIs and behind
handles. -/
structure Continues (session later : Session) : Prop where
  issues : ∀ issue ∈ session.report.issues, issue ∈ later.report.issues
  keeps : session.Keeps later

theorem Continues.refl (session : Session) : session.Continues session :=
  ⟨fun _ mem => mem, keeps_of_ledger rfl⟩

theorem Continues.trans {last : Session} (first : session.Continues later)
    (second : later.Continues last) : session.Continues last :=
  ⟨fun issue mem => second.issues issue (first.issues issue mem), first.keeps.trans second.keeps⟩

/-- Binding a handle keeps the others, and the handle if there was no other schema behind it. -/
theorem keepsHandles_of_bind {id : HandleId} {schema : Schema}
    (ok : graph.bind id schema = .ok graph') : KeepsHandles graph graph' := by
  unfold SchemaGraph.bind at ok
  split at ok
  · split at ok
    · cases ok
      exact keepsHandles_refl _
    · obtain ⟨_, _, thrown⟩ := except_bind_ok ok
      cases thrown
  · next unbound =>
    cases ok
    intro other old found
    have there : graph.handles[other.index]? = some old := found
    change ∃ handle', (graph.handles.modify id.index _)[other.index]? = some handle' ∧ _
    rw [Array.getElem?_modify, there]
    split
    · next same =>
      refine ⟨_, rfl, rfl, fun schema bound => ?_⟩
      rw [HandleId.ext same] at unbound
      have found : graph.schema? other = some schema :=
        Option.bind_eq_some_iff.2 ⟨old, found, bound⟩
      rw [unbound] at found
      cases found
    · exact ⟨old, rfl, rfl, fun _ bound => bound⟩

/-- A session has a schema for a value at a location: the one of the truth value, or for an object
the one behind a handle under a URI of the location, or a reference back to this handle. -/
def HasSchema (session : Session) (location : Location) (value : Json) (draft : Draft)
    (schema : Schema) : Prop :=
  match value with
  | .bool b => schema = .ofBool b
  | .object _ => ∃ uris uri id, location.cacheKeys = .ok uris ∧ uri ∈ uris ∧
      session.cache.handles.lookup uri = some id ∧
      (session.graph.schema? id = some schema ∨ Load.RefersBack location draft id schema)
  | _ => False

theorem HasSchema.keep {location : Location} {value : Json} {draft : Draft} {schema : Schema}
    (has : session.HasSchema location value draft schema) (kept : session.Keeps later) :
    later.HasSchema location value draft schema := by
  cases value with
  | bool b => exact has
  | object members =>
    obtain ⟨uris, uri, id, listed, mem, found, behind⟩ := has
    exact ⟨uris, uri, id, listed, mem, kept.entries uri id found,
      behind.imp_left kept.handles.schema⟩
  | _ => exact has

end Session

namespace Load

open Session

variable {α : Type} {loader : Loader} {load : NodeLoader} {location : Location} {draft : Draft}
  {value : Json} {schema : Schema} {members : List (String × Json)} {session later : Session}

/-! ## Sessions as a setting -/

/-- A moment of loading. -/
structure Moment where
  session : Session

instance : Preorder Moment where
  le w w' := w.session.Continues w'.session
  le_refl w := .refl w.session
  le_trans _ _ _ first second := first.trans second

/-- Any value may be loaded, and an issue recorded anywhere. -/
instance : Setting Moment where
  session := Moment.session
  IsDue _ _ _ _ := True
  IsLoaded w := w.session.HasSchema
  Admits _ _ := True
  issues up := up.issues
  due _ _ := trivial
  loaded up has := has.keep up.keeps
  admits _ _ := trivial
  record _ _ := ⟨⟨_⟩, rfl, fun _ mem => List.mem_append_left _ mem, keeps_of_ledger rfl⟩

variable {w : Moment}

/-- A computation that continues its session works. -/
theorem works_run {act : Load α} (continues : w.session.Continues (act.run.run w.session).2) :
    Works act w (fun a w' => act.run.run w.session = (.ok a, w'.session)) := by
  cases run : act.run.run w.session with
  | mk result s =>
    rw [run] at continues
    have up : w ≤ ⟨s⟩ := continues
    cases result with
    | ok a => exact after_of_ok run up rfl rfl
    | error stop => exact after_of_error run ⟨⟨s⟩, up, rfl⟩

theorem works_quiet {act : Load α} (quiet : IsQuiet act)
    (keeps : w.session.Keeps (act.run.run w.session).2) :
    Works act w (fun a w' => act.run.run w.session = (.ok a, w'.session)) :=
  works_run ⟨fun issue mem => by rwa [quiet w.session], keeps⟩

/-! ## Making an object -/

theorem keeps_start (location : Location) (session : Session) :
    session.Keeps ((start location).run.run session).2 := by
  rw [run_start]
  cases started : session.cache.start session.graph location with
  | error fault => exact keeps_of_ledger rfl
  | ok made =>
    obtain ⟨keys, _, _, entered, added⟩ := start_eq started
    dsimp only
    rw [entered, added]
    exact keeps_enter _ _ _ (keepsHandles_addHandle _ _)

theorem keeps_addNode (location : Location) (draft : Draft)
    (keywords : List (Keyword × KeywordValue)) (session : Session) :
    session.Keeps ((addNode location draft keywords).run.run session).2 :=
  ⟨fun _ _ found => found, keepsHandles_refl _⟩

theorem keeps_bind (id : HandleId) (schema : Schema) (session : Session) :
    session.Keeps ((bind id schema).run.run session).2 := by
  rw [run_bind]
  cases binds : session.graph.bind id schema with
  | error fault => exact keeps_of_ledger rfl
  | ok graph => exact ⟨fun _ _ found => found, keepsHandles_of_bind binds⟩

/-! ## Values -/

/-- A node that refers to a handle refers back to it. -/
theorem run_referTo {id : HandleId}
    (run : (referTo id location draft).run.run session = (.ok schema, later)) :
    RefersBack location draft id schema := by
  obtain ⟨_, _, got, run⟩ := run_bind_eq_ok run
  cases got
  split at run
  · obtain ⟨ref, s, _, run⟩ := run_bind_eq_ok run
    obtain ⟨uri, s', _, run⟩ := run_bind_eq_ok run
    cases run
    exact ⟨_, ref, uri, rfl⟩
  · cases run

/-- An object that was loaded has a schema in the session. -/
theorem hasSchema_object {depth : Nat}
    (run : (loadNode loader (depth + 1) (.object members) location draft).run.run session =
      (.ok schema, later)) : later.HasSchema location (.object members) draft schema := by
  have keeps := ((ventures_loadNode loader (depth + 1) (.object members) location draft).later
    session).keeps
  have whole := run
  obtain ⟨found, s, looked, run⟩ := run_bind_eq_ok run
  obtain ⟨lookup, rfl⟩ := run_checkUri looked
  obtain ⟨uris, listed, among⟩ := except_bind_ok lookup
  cases found with
  | none =>
    have makes := @makes_loadNode loader s depth members location lookup draft
    rw [whole] at makes
    obtain ⟨uri, id, place, entered, behind⟩ := makes.owns schema rfl
    exact ⟨uris, uri, id, listed, absoluteUri_mem listed place, entered, .inl behind⟩
  | some id =>
    rw [whole] at keeps
    obtain ⟨uri, mem, entered⟩ := List.exists_of_findSome?_eq_some (Except.ok.inj among)
    obtain ⟨_, _, got, run⟩ := run_bind_eq_ok run
    cases got
    refine ⟨uris, uri, id, listed, mem, keeps.entries uri id entered, ?_⟩
    split at run
    · next old behind =>
      cases run
      exact .inl behind
    · exact .inr (run_referTo run)

theorem loadsIn_loadNode (loader : Loader) (depth : Nat) :
    LoadsIn Moment (loadNode loader depth) := by
  intro w value location draft _
  cases depth with
  | zero => exact works_throw _
  | succ depth =>
    have other : Works (do
        recordError loader .schemaTypeMismatch location (.notASchema value.shapeName)
        return Schema.always) w (fun schema w' => Setting.IsClean w' →
          Setting.IsLoaded w' location value draft schema) :=
      after_bind (works_recordError _ _ trivial)
        (fun _ _ _ unclean => after_pure (fun clean => absurd clean unclean))
    cases value with
    | bool b => exact after_pure (fun _ => rfl)
    | object members =>
      have issues : ∀ issue ∈ w.session.report.issues, issue ∈
          ((loadNode loader (depth + 1) (.object members) location draft).run.run
            w.session).2.report.issues := by
        obtain ⟨more, same⟩ :=
          loadNode_extends loader (depth + 1) (.object members) location draft w.session
        rw [same]
        exact fun issue mem => List.mem_append_left _ mem
      have keeps := ((ventures_loadNode loader (depth + 1) (.object members) location draft).later
        w.session).keeps
      exact after_mono (works_run ⟨issues, keeps⟩) (fun _ _ _ run _ => hasSchema_object run)
    | _ => exact other

/-! ## Objects -/

/-- The members of an object, with schemas for its parts, are what a schema at a location says. -/
def HasKeywords (w : Moment) (location : Location) (draft : Draft)
    (members : List (String × Json)) (schema : Schema) : Prop :=
  ∃ node keywords, schema = .node node (some location) draft keywords ∧
    Reads (Setting.Below w location draft) draft members keywords ∧
    AreBounds draft members Builtin.minimum Builtin.exclusiveMinimum ∧
    AreBounds draft members Builtin.maximum Builtin.exclusiveMaximum

section Object

variable (loads : LoadsIn Moment load) (registry : loader.registry = .default)
  (distinct : (Members.keys members).Nodup) (plain : members.lookup Builtin.ref.key = none)

include loads registry distinct plain

theorem works_started (location : Location) :
    Works (start location >>= loadStarted loader load members draft location) w
      (fun schema w' => Setting.IsClean w' → HasKeywords w' location draft members schema) := by
  refine after_bind (works_quiet (isQuiet_start _) (keeps_start _ _)) (fun handle w₁ _ _ => ?_)
  rw [loadStarted_eq, loadContent, plain]
  refine after_bind (works_loadKeywords loads registry distinct trivial (fun _ _ => trivial)
    (fun _ => trivial) (fun _ _ => trivial)) (fun builder w₂ _ read => ?_)
  refine after_bind (works_quiet (isQuiet_addNode _ _ _) (keeps_addNode _ _ _ _))
    (fun schema w₃ up₃ added => ?_)
  refine after_bind (works_quiet (isQuiet_bindHandle _ _) (keeps_bind _ _ _))
    (fun _ w₄ up₄ _ => after_pure (fun clean => ?_))
  have up := le_trans up₃ up₄
  obtain ⟨reads, lower, upper⟩ := read (clean.anti up)
  have made := (Except.ok.inj (Prod.mk.inj added).1).symm
  exact ⟨_, _, made, reads.mono (fun _ _ _ => Setting.Below.mono up), lower, upper⟩

theorem works_loadObject : Works (loadObject loader load members location draft) w
    (fun schema w' => Setting.IsClean w' →
      HasKeywords w' (location.named draft.idKey members) draft members schema) := by
  rw [loadObject_eq, plain]
  cases found : members.lookup draft.idKey with
  | none =>
    have same : location.named draft.idKey members = location := by
      rw [Location.named, found]
    rw [same]
    exact works_started loads registry distinct plain location
  | some identifier =>
    refine after_bind (works_applyIdentifier trivial found) ?_
    rintro named w₁ _ ⟨rfl, _⟩
    exact works_started loads registry distinct plain _

end Object

/-- No keyword of an object is dropped, and none is invented. In whatever session an object without
`$ref` is loaded, if no error was recorded until then, its schema has the keywords of the draft that
the object has members for, each once: those that stand for themselves in the order of the members,
then the limits and what is said about items, which take in their companions. Each holds what its
member says, with the schemas that the session has for the parts of the object. -/
theorem loadObject_retains (registry : loader.registry = .default) {depth : Nat}
    (distinct : HasDistinctNames members) (plain : members.lookup Builtin.ref.key = none)
    (run : (loadObject loader (loadNode loader depth) members location draft).run.run session =
      (.ok schema, later)) (clean : later.report.hasErrors = false) :
    ∃ here node keywords, here = location.named draft.idKey members ∧
      schema = .node node (some here) draft keywords ∧
      Retains (fun way part inner => later.HasSchema (here.child way) part draft inner) draft
        members (retainedKeys draft members) keywords := by
  let start : Moment := ⟨session⟩
  have works := @works_loadObject loader _ location draft members start
    (loadsIn_loadNode loader depth) registry distinct.own plain
  obtain ⟨w', _, rfl, read⟩ := works.of_ok run
  obtain ⟨node, keywords, same, reads, lower, upper⟩ := read clean
  exact ⟨_, node, keywords, rfl, same, reads.retains distinct lower upper⟩

/-- Keywords of several kinds, with companions that come before what takes them in, and a member that
is no keyword. -/
def assorted : List (String × Json) :=
  [("exclusiveMinimum", .bool true), ("title", .string "assorted"),
    ("type", .array [.string "array", .string "integer"]), ("minimum", .number (.int 1)),
    ("additionalItems", .bool false), ("note", .null),
    ("dependencies", .object [("a", .array [.string "b"]), ("c", .object [])]),
    ("items", .array [.object [], .object [("type", .string "null")]])]

/-- Loading these members from an empty session. -/
def assortedLoading : Except Stop Schema × Session :=
  (loadObject Linked.loader (loadNode Linked.loader 2) assorted Linked.root .draft4).run.run .empty

theorem hasDistinctNames_assorted : HasDistinctNames assorted where
  own := by decide
  inner key entries mem := by
    simp only [assorted, List.mem_cons, Prod.mk.injEq, reduceCtorEq, and_false, false_or,
      List.not_mem_nil, or_false, Json.object.injEq] at mem
    rw [mem.2]
    decide

/-- The members make five keywords. -/
theorem assorted_retains : ∃ node keywords later,
    assortedLoading = (.ok (.node node (some Linked.root) .draft4 keywords), later) ∧
    (Members.keys keywords).map Keyword.key =
      ["title", "type", "dependencies", "minimum", "items"] ∧
    Retains (fun way part inner => later.HasSchema (Linked.root.child way) part .draft4 inner)
      .draft4 assorted (retainedKeys .draft4 assorted) keywords := by
  have ends : assortedLoading.1.toOption.isSome = true := by decide +kernel
  have clean : assortedLoading.2.report.hasErrors = false := by decide +kernel
  have keys : retainedKeys .draft4 assorted =
      ["title", "type", "dependencies", "minimum", "items"] := by
    decide +kernel
  cases run : assortedLoading with
  | mk result later =>
    rw [run] at ends clean
    cases result with
    | error stop => cases ends
    | ok schema =>
      unfold assortedLoading at run
      obtain ⟨here, node, keywords, place, rfl, retains⟩ :=
        loadObject_retains rfl hasDistinctNames_assorted rfl run clean
      have root : Linked.root.named Draft.draft4.idKey assorted = Linked.root := rfl
      rw [root] at place
      subst place
      exact ⟨node, keywords, later, rfl, keys ▸ retains.keys, retains⟩

end Load

end JsonSchema
