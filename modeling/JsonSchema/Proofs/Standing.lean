import JsonSchema.Proofs.Tracked

/-!
# Where schemas stand

What is said here holds of every schema that the results of a session lead to, if the session ended
without errors. Its location is the one that a walk from the root of its document comes to
(`location_eq_walk`). If the documents are unambiguous, what it holds for a part of its object is the
schema of this part and of no other place (`parts_are_own`).
-/

namespace JsonSchema.Load

/-! ## Parts -/

section Parts

variable {sub : Sub} {draft : Draft} {members : List (String × Json)} {value : Json}
  {inner : Schema}

theorem schemas_digested {keyword : Keyword} {kind : KeywordKind} {loaded : KeywordValue}
    (ok : digested keyword kind value draft = .ok loaded) : loaded.schemas = [] := by
  unfold digested at ok
  split at ok
  · obtain ⟨types, rfl⟩ := types_ok ok
    rfl
  · split at ok
    · unfold Digest.required at ok
      split at ok
      · cases ok
        rfl
      · obtain ⟨names, _, ok⟩ := except_bind_ok ok
        cases ok
        rfl
    · split at ok
      · obtain ⟨names, _, ok⟩ := except_bind_ok ok
        cases ok
        rfl
      · unfold Digest.leaf at ok
        split at ok
        case h_5 =>
          obtain ⟨values, _, ok⟩ := except_bind_ok ok
          cases ok
          rfl
        all_goals
          cases ok
          try rfl

theorem ReadsEntry.part {entries : List (String × Json)} {named : List (String × Schema)}
    (reads : List.Forall₂ (ReadsEntry sub) entries named) (mem : inner ∈ named.map Prod.snd) :
    ∃ way value, sub way value inner := by
  obtain ⟨entry, listed, rfl⟩ := List.mem_map.1 mem
  obtain ⟨source, _, read⟩ := exists_of_forall₂ reads.flip listed
  exact ⟨_, _, read.2⟩

theorem ReadsValue.part {keyword : Keyword} {kind : KeywordKind} {loaded : KeywordValue}
    (reads : ReadsValue sub keyword kind draft value loaded) (mem : inner ∈ loaded.schemas) :
    ∃ way value, sub way value inner := by
  unfold ReadsValue at reads
  split at reads
  · obtain ⟨schema, rfl, below⟩ := reads
    cases List.mem_singleton.1 mem
    exact ⟨_, _, below⟩
  · obtain ⟨schemas, rfl, below⟩ := reads
    obtain ⟨source, _, read⟩ := exists_of_forall₂ below.flip mem
    exact ⟨_, _, read⟩
  · obtain ⟨entries, named, _, rfl, below⟩ := reads
    exact ReadsEntry.part below mem
  · obtain ⟨entries, names, named, _, rfl, _, below⟩ := reads
    exact ReadsEntry.part below mem
  · rw [schemas_digested reads] at mem
    cases mem

theorem ReadsItems.part {keywords : List (Keyword × KeywordValue)}
    {entry : Keyword × KeywordValue} (reads : ReadsItems sub members keywords)
    (mem : entry ∈ keywords) (inside : inner ∈ entry.2.schemas) : ∃ way value, sub way value inner := by
  unfold ReadsItems at reads
  dsimp only at reads
  split at reads
  · rw [reads] at mem
    cases mem
  · obtain ⟨form, additional, rfl, each, rest⟩ := reads
    cases List.mem_singleton.1 mem
    rcases List.mem_append.1 inside with listed | more
    · unfold ReadsForm at each
      split at each
      · cases each
        cases listed
      · obtain ⟨schemas, rfl, below⟩ := each
        obtain ⟨source, _, read⟩ := exists_of_forall₂ below.flip listed
        exact ⟨_, _, read⟩
      · obtain ⟨schema, rfl, below⟩ := each
        cases List.mem_singleton.1 listed
        exact ⟨_, _, below⟩
    · unfold ReadsAdditional at rest
      split at rest
      · cases rest
        cases more
      · obtain ⟨schema, rfl, below⟩ := rest
        cases Option.mem_toList.1 more
        exact ⟨_, _, below⟩

theorem schemas_limitEntries {bound exclusive : Keyword} {entry : Keyword × KeywordValue}
    (mem : entry ∈ limitEntries draft members bound exclusive) : entry.2.schemas = [] := by
  unfold limitEntries at mem
  split at mem
  · cases List.mem_singleton.1 mem
    rfl
  · cases mem

/-- Every schema in a keyword of an object was loaded for a part of it. -/
theorem Reads.part {keywords : List (Keyword × KeywordValue)} {keyword : Keyword}
    {loaded : KeywordValue} (reads : Reads sub draft members keywords)
    (mem : (keyword, loaded) ∈ keywords) (inside : inner ∈ loaded.schemas) :
    ∃ way value, sub way value inner := by
  have limit : ∀ {bound exclusive : Keyword},
      (keyword, loaded) ∈ limitEntries draft members bound exclusive →
      ∃ way value, sub way value inner := by
    intro bound exclusive mem
    rw [schemas_limitEntries mem] at inside
    cases inside
  rcases reads.cases mem with ⟨json, _, _, read⟩ | mem | mem | ⟨items, rest, mem⟩
  · obtain ⟨way, value, below⟩ := ReadsValue.part read.2.2 inside
    exact ⟨_, _, below⟩
  · exact limit mem
  · exact limit mem
  · exact rest.part mem inside

end Parts

/-! ## Schemas that others lead to -/

namespace Track

variable {contents : String → Json} {w : Track contents} {schema other part : Schema}

/-- A schema that was made is the one of a truth value, refers back to a handle, or was built. -/
theorem cases_made (clean : w.stock.IsClean) (made : w.stock.Made schema) :
    schema = .always ∨ schema = .never ∨ IsNodeFor w.stock schema :=
  made.imp_right (Or.imp_right (w.nodes clean schema))

theorem made_part (clean : w.stock.IsClean) (made : w.stock.Made schema)
    (inside : part.IsPartOf schema) : w.stock.Made part := by
  obtain ⟨keyword, value, mem, listed⟩ := inside
  rcases cases_made clean made with rfl | rfl | ⟨location, members, draft, _, node⟩
  · cases mem
  · cases List.mem_singleton.1 mem
    cases List.mem_singleton.1 listed
    exact .inl rfl
  · rcases node with ⟨id, node, ref, uri, rfl⟩ | ⟨node, keywords, rfl, built⟩
    · cases List.mem_singleton.1 mem
      cases listed
    · split at built
      · obtain ⟨text, uri, target, _, _, rfl, _⟩ := built
        cases List.mem_singleton.1 mem
        cases listed
      · obtain ⟨way, value, below⟩ := Reads.part built.2 mem listed
        exact below.1

theorem made_leads (clean : w.stock.IsClean) (made : w.stock.Made schema)
    (leads : Relation.ReflTransGen (Schema.LeadsTo w.session.graph) schema other) :
    w.stock.Made other := by
  induction leads with
  | refl => exact made
  | tail _ step ih =>
    rcases step with inside | ⟨target, _, bound⟩
    · exact made_part clean ih inside
    · exact w.made target _ bound

end Track

/-! ## Locations -/

variable {contents : String → Json} {loader : Loader} {requests : List (Document × Location)}
  {schemas : List Schema} {session : Session} {schema other : Schema} {location : Location}

/-- A schema that the results of a session without errors lead to was made. -/
theorem exists_made (ready : loader.IsReady) (agree : Agree contents loader requests)
    (run : (loadAll loader requests).run.run .empty = (.ok schemas, session))
    (mem : schema ∈ schemas)
    (leads : Relation.ReflTransGen (Schema.LeadsTo session.graph) schema other)
    (clean : session.report.hasErrors = false) :
    ∃ w : Track contents, w.session = session ∧ w.stock.IsClean ∧ w.stock.Made other := by
  obtain ⟨w, rfl, requested⟩ := exists_track ready agree run
  obtain ⟨request, _, _, _, _, made, _⟩ := exists_of_forall₂ requested.flip mem
  exact ⟨w, rfl, clean, Track.made_leads clean made leads⟩

/-- A schema with a location was made for an object at its place. -/
theorem exists_arrival {w : Track contents} (clean : w.stock.IsClean)
    (made : w.stock.Made schema) (here : schema.location? = some location) :
    ∃ received members draft, Arrives w.documents received (.object members) draft ∧
      ((location = received ∧ ∃ id, RefersBack received draft id schema) ∨
        (location = received.ofObject draft members ∧
          Built w.stock received members draft schema)) := by
  rcases Track.cases_made clean made with rfl | rfl | ⟨received, members, draft, arrives, node⟩
  · cases here
  · cases here
  · refine ⟨received, members, draft, arrives, ?_⟩
    rcases node with ⟨id, node, ref, uri, rfl⟩ | ⟨node, keywords, rfl, built⟩
    · cases here
      exact .inl ⟨rfl, id, node, ref, uri, rfl⟩
    · cases here
      exact .inr ⟨rfl, node, keywords, rfl, built⟩

/-- The location of a schema is the one that a walk from the root of its document comes to, under
the identifier of its object. A reference back to an object that is still loading has the location
without the identifier. -/
theorem location_eq_walk (ready : loader.IsReady) (agree : Agree contents loader requests)
    (run : (loadAll loader requests).run.run .empty = (.ok schemas, session))
    (clean : session.report.hasErrors = false)
    (maps : ∀ location members draft, Comes session.documents location (.object members) draft →
      members.lookup Builtin.ref.key = none → Json.HasPlainMaps draft.idKey members)
    (mem : schema ∈ schemas)
    (leads : Relation.ReflTransGen (Schema.LeadsTo session.graph) schema other)
    (here : other.location? = some location) :
    ∃ stored members received,
      session.documents.lookup location.documentUri = some stored ∧
      Pointer.resolve stored.document.value location.pointer = .ok (.object members) ∧
      Location.ofDocument location.documentUri stored.document.value location.pointer
        stored.draft.idKey = .ok received ∧
      (location = received.ofObject stored.draft members ∨
        other.isReference = true ∧ location = received) := by
  obtain ⟨w, rfl, clean, made⟩ := exists_made ready agree run mem leads clean
  obtain ⟨received, members, draft, arrives, node⟩ := exists_arrival clean made here
  obtain ⟨stored, known, rfl, walked⟩ := arrives.walked w.sound maps
  obtain ⟨_, _, stored', known', _, resolved⟩ := arrives.comes.found w.sound
  rw [known] at known'
  cases known'
  have place : location.place = received.place := by
    rcases node with ⟨rfl, _⟩ | ⟨rfl, _⟩
    · rfl
    · exact Session.ofObject_place _ _ _
  obtain ⟨document, pointer⟩ := Prod.mk.inj place
  rw [document, pointer]
  refine ⟨stored, members, received, known, resolved, walked, ?_⟩
  rcases node with ⟨same, id, node, ref, uri, rfl⟩ | ⟨same, _⟩
  · exact .inr ⟨rfl, same⟩
  · exact .inl same

theorem linked_location : ∃ schema session,
    (loadAll Linked.loader [(Linked.document, Linked.root)]).run.run .empty =
      (.ok [schema], session) ∧
    ∃ stored members received,
      session.documents.lookup Linked.root.documentUri = some stored ∧
      Pointer.resolve stored.document.value Linked.root.pointer = .ok (.object members) ∧
      Location.ofDocument Linked.root.documentUri stored.document.value Linked.root.pointer
        stored.draft.idKey = .ok received ∧
      (Linked.root = received.ofObject stored.draft members ∨
        schema.isReference = true ∧ Linked.root = received) := by
  obtain ⟨schema, session, run, clean, here, _, keys⟩ := Linked.exists_loaded
  obtain ⟨w, same, _⟩ := exists_track Linked.isReady Linked.agree run
  refine ⟨schema, session, run, location_eq_walk Linked.isReady Linked.agree run clean ?_
    List.mem_cons_self .refl here⟩
  rw [← same] at keys ⊢
  exact fun _ _ _ comes _ => (Linked.areUnnamed w keys).hasPlainMaps w.sound comes

/-! ## Own schemas -/

/-- A schema is the one of a part of the object at a location. -/
def IsOwn (location : Location) (way : Pointer) (part : Json) (schema : Schema) : Prop :=
  match part with
  | .bool b => schema = .ofBool b
  | .object _ => ∃ here, schema.location? = some here ∧
      here.absoluteUri = (location.child way).absoluteUri
  | _ => False

theorem Loaded.isOwn {stock : Stock} {way : Pointer} {part : Json} {draft : Draft}
    (unambiguous : Unambiguous stock.documents)
    (loaded : Loaded stock (location.child way) part draft schema) :
    IsOwn location way part schema := by
  obtain ⟨_, what⟩ := loaded
  cases part with
  | bool b => exact what
  | object members =>
    obtain ⟨⟨here, found, same⟩, _⟩ := what unambiguous
    exact ⟨here, found, Location.absoluteUri_place same⟩
  | _ => exact what.elim

/-- A schema that is no reference holds the truth values and the schemas of the parts of its own
object, and nothing else. -/
theorem parts_are_own (ready : loader.IsReady) (agree : Agree contents loader requests)
    (run : (loadAll loader requests).run.run .empty = (.ok schemas, session))
    (clean : session.report.hasErrors = false) (unambiguous : Unambiguous session.documents)
    (mem : schema ∈ schemas)
    (leads : Relation.ReflTransGen (Schema.LeadsTo session.graph) schema other)
    (here : other.location? = some location) (single : other.isReference = false) :
    ∃ stored members, session.documents.lookup location.documentUri = some stored ∧
      Pointer.resolve stored.document.value location.pointer = .ok (.object members) ∧
      Reads (IsOwn location) stored.draft members other.keywords := by
  obtain ⟨w, rfl, clean, made⟩ := exists_made ready agree run mem leads clean
  obtain ⟨received, members, draft, arrives, node⟩ := exists_arrival clean made here
  obtain ⟨_, _, stored, known, rfl, resolved⟩ := arrives.comes.found w.sound
  rcases node with ⟨_, id, node, ref, uri, rfl⟩ | ⟨rfl, node, keywords, rfl, built⟩
  · cases single
  · obtain ⟨document, pointer⟩ :=
      Prod.mk.inj (Session.ofObject_place stored.draft received members)
    rw [document, pointer]
    refine ⟨stored, members, known, resolved, ?_⟩
    split at built
    · obtain ⟨text, uri, target, _, _, rfl, _⟩ := built
      cases single
    · next plain =>
      have same : received.ofObject stored.draft members =
          received.named stored.draft.idKey members := by
        rw [Location.ofObject, plain]
      rw [same]
      exact built.2.mono (fun way part schema => Loaded.isOwn unambiguous)

theorem linked_parts : ∃ schema session,
    (loadAll Linked.loader [(Linked.document, Linked.root)]).run.run .empty =
      (.ok [schema], session) ∧
    ∃ stored members, session.documents.lookup Linked.root.documentUri = some stored ∧
      Pointer.resolve stored.document.value Linked.root.pointer = .ok (.object members) ∧
      Reads (IsOwn Linked.root) stored.draft members schema.keywords := by
  obtain ⟨schema, session, run, clean, here, single, keys⟩ := Linked.exists_loaded
  obtain ⟨w, same, _⟩ := exists_track Linked.isReady Linked.agree run
  refine ⟨schema, session, run, parts_are_own Linked.isReady Linked.agree run clean ?_
    List.mem_cons_self .refl here single⟩
  rw [← same] at keys ⊢
  exact (Linked.areUnnamed w keys).unambiguous w.sound

end JsonSchema.Load
