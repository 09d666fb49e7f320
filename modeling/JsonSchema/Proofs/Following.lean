import JsonSchema.Proofs.Complaints
import JsonSchema.Proofs.Keywords

/-!
# Complaints while a reference is followed

Following a reference is no complaint about the object that has it (`Load.emits_resolve`): the
target is fetched, found or loaded as an object of its own. Only a target that is no schema and was
not met before is complained about here, and the complaint comes with a stand-in
(`Load.emits_stand_in`), since nothing is begun for such a target and each text that refers to it
looks at it again.

The rules are stated for any function that loads the values below (`Load.Behaves`).
-/

namespace JsonSchema

namespace Load

variable {α β : Type} {loader : Loader} {load : NodeLoader} {floor : Nat} {location : Location}
  {spots : Set Spot} {session later : Session} {key : String} {value : Json} {draft : Draft}
  {members : List (String × Json)}

/-! ## Steps -/

/-- What changes neither report nor documents adds nothing. -/
theorem complains_quiet (keeps : session.Keeps later)
    (documents : later.documents = session.documents) (report : later.report = session.report) :
    Complains floor location spots session later := by
  refine complains_silent keeps (fun ready => ⟨?_, ?_⟩) report
  · exact ready.handles.trans keeps.handles.size_le
  · rw [documents]
    exact ready.proper

theorem emits_quiet {act : Load α} (keeps : session.Keeps (act.run.run session).2)
    (tame : IsTame act) (quiet : IsQuiet act) :
    Emits floor location spots act session fun _ => True := by
  refine ⟨fun result later run _ => ?_, fun _ _ _ => trivial⟩
  have documents := (tame session).2.documents
  have report := quiet session
  rw [run] at keeps documents report
  exact complains_quiet keeps documents report

theorem emits_step {act : Load α} (isStep : IsStep act) :
    Emits floor location spots act session fun _ => True :=
  emits_quiet (ventures_step isStep session).keeps isStep.isTame isStep.isQuiet

theorem emits_addNode (location' : Location) (draft : Draft)
    (keywords : List (Keyword × KeywordValue)) :
    Emits floor location spots (addNode location' draft keywords) session fun _ => True := by
  have making : IsMaking (addNode location' draft keywords) := .addNode _ _ _
  exact emits_quiet (keeps_addNode _ _ _ _) making.isTame making.isQuiet

theorem emits_bindHandle (handle : HandleId) (schema : Schema) :
    Emits floor location spots (bind handle schema) session fun _ => True := by
  have making : IsMaking (bind handle schema) := .bind _ _
  exact emits_quiet (keeps_bind _ _ _) making.isTame making.isQuiet

/-- What ends the session, or stops for want of a URI, adds nothing. -/
theorem emits_failAt (code : IssueCode) (place : Location) (problem : Problem) :
    Emits floor location spots (failAt code place problem : Load α) session fun _ => False := by
  unfold failAt
  rw [bind_issueAt]
  cases place.absoluteUri with
  | ok uri => exact emits_of_error rfl fun going => absurd rfl (going _)
  | error fault => exact emits_throw _

/-! ## Documents -/

theorem emits_addDocument (uri : String) {document : Document} (proper : document.value.IsProper)
    (draft : Draft) :
    Emits floor location spots (addDocument uri document draft) session fun _ => True := by
  refine ⟨fun result later run _ => ?_, fun _ _ _ => trivial⟩
  have keeps := (ventures_addDocument uri document draft session).keeps
  have report := isQuiet_addDocument uri document draft session
  rw [run] at keeps report
  refine complains_silent keeps
    (fun ready => ⟨ready.handles.trans keeps.handles.size_le, ?_⟩) report
  change (check (session.cache.addDocument uri document draft) >>= _).run.run session = _ at run
  cases added : session.cache.addDocument uri document draft with
  | error fault =>
    rw [added] at run
    cases run
    exact ready.proper
  | ok cache =>
    rw [added] at run
    cases run
    obtain ⟨stored, _, rfl⟩ := addDocument_eq added
    intro entry mem
    rcases Members.mem_put mem with rfl | old
    · exact proper
    · exact ready.proper entry old

/-- A stored document is proper. -/
theorem emits_document (ready : IsReady floor session) (uri : String) :
    Emits floor location spots (document? uri) session fun found =>
      ∀ stored, found = some stored → stored.document.value.IsProper := by
  refine emits_still ?_ ?_
  · change ((checkUri (session.cache.document? uri)).run.run session).2 = session
    cases session.cache.document? uri <;> rfl
  · rintro _ later run stored rfl
    obtain ⟨found, _⟩ := run_document run
    obtain ⟨key, _, found⟩ := except_bind_ok found
    exact ready.proper _ (Members.mem_of_lookup (Except.ok.inj found))

theorem emits_pointerOf (uri fragment : String) (origin : Location) :
    Emits floor location spots (pointerOf uri fragment origin) session fun _ => True := by
  unfold pointerOf
  split
  · exact emits_pure trivial
  · exact (emits_failAt _ _ _).mono le_rfl fun _ => False.elim

section Served

variable (served : ∀ uri document, loader.client.fetch uri = .ok document → document.value.IsProper)

include served

theorem emits_fetch (here : IsHere floor location session) (uri : String) (origin : Location) :
    Emits floor location ∅ (fetch loader uri origin) session fun _ => True := by
  have noted : ∀ session, Emits floor location ∅ (modify fun session =>
      { session with fetched := session.fetched ++ [uri] } : Load PUnit) session fun _ => True := by
    refine fun session => ⟨fun result later run _ => ?_, fun _ _ _ => trivial⟩
    cases run
    exact complains_silent (Session.keeps_of_ledger rfl)
      (fun ready => ⟨ready.handles, ready.proper⟩) rfl
  unfold fetch
  dsimp only
  split
  · exact emits_silent_bind here (emits_failAt _ _ _) fun _ _ _ _ => False.elim
  · refine emits_silent_bind here (noted session) fun _ s₁ _ here _ => ?_
    split
    · next document answer => exact emits_addDocument uri (served uri document answer) _
    · exact (emits_failAt _ _ _).mono le_rfl fun _ => False.elim

theorem emits_locate (here : IsHere floor location session) (uri : String) (origin : Location) :
    Emits floor location ∅ (locate loader uri origin) session fun _ => True := by
  have pointed : ∀ base fragment session, IsHere floor location session →
      Emits floor location ∅ (do return (base, ← pointerOf uri fragment origin) :
        Load (String × Pointer)) session fun _ => True := fun base fragment session here =>
    emits_silent_bind here (emits_pointerOf _ _ _) fun _ _ _ _ _ => emits_pure trivial
  unfold locate
  refine emits_silent_bind here (emits_checkUri _) fun parts s₁ _ here _ => ?_
  obtain ⟨base, fragment⟩ := parts
  refine emits_silent_bind here (emits_document here.ready _) fun stored s₂ _ here _ => ?_
  dsimp only
  split
  · exact pointed base fragment s₂ here
  · refine emits_silent_bind here (emits_step (.findById _)) fun place s₃ _ here _ => ?_
    split
    · exact emits_pure trivial
    · split
      · exact emits_silent_bind here (emits_failAt _ _ _) fun _ _ _ _ => False.elim
      · refine emits_silent_bind here (emits_fetch served here _ _) fun _ s₄ _ here _ => ?_
        refine emits_silent_bind here (emits_step (.findById _)) fun place s₅ _ here _ => ?_
        split
        · exact emits_pure trivial
        · split
          · exact pointed base fragment s₅ here
          · exact (emits_failAt _ _ _).mono le_rfl fun _ => False.elim

end Served

/-! ## Values below -/

/-- A value that can be a schema. -/
def IsSchemaLike : Json → Prop
  | .object _ | .bool _ => True
  | _ => False

/-- A function that loads values complains about objects that it begins. Of a value that cannot be a
schema it says so. -/
structure Behaves (loader : Loader) (floor : Nat) (load : NodeLoader) : Prop where
  schema : ∀ (value : Json) (target : Location) (draft : Draft) (session : Session)
    (other : Location), IsSchemaLike value → value.IsProper → target.IsClear →
    IsReady floor session →
    Emits floor other ∅ (load value target draft) session fun _ => True
  misfit : ∀ (value : Json) (target : Location) (draft : Draft), ¬ IsSchemaLike value →
    load value target draft = throw (.fault .exhausted) ∨
      load value target draft = recordError loader .schemaTypeMismatch target
        (.notASchema value.shapeName) >>= fun _ => pure .always

/-- A value inside a member is complained about at its own place. -/
theorem Behaves.element (behaves : Behaves loader floor load) (here : IsHere floor location session)
    (proper : value.IsProper) (draft : Draft) (segment : String) :
    Emits floor location {.element key segment}
      (load value ((location.child [key]).child [segment]) draft) session fun _ => True := by
  have clear : ((location.child [key]).child [segment]).IsClear := here.clear
  by_cases like : IsSchemaLike value
  · exact (behaves.schema _ _ draft _ _ like proper clear here.ready).mono
      (Set.empty_subset _) fun _ => id
  · rcases behaves.misfit value ((location.child [key]).child [segment]) draft like with same | same
    · rw [same]
      exact emits_throw _
    · rw [same]
      refine emits_bind_silent here (emits_issue here _ ?_ ?_) fun _ _ _ _ _ => emits_pure trivial
      · rfl
      · exact Prod.ext rfl (List.append_assoc location.pointer [key] [segment])

/-- Where a reference leads to a value that cannot be a schema and was not met, the complaint about
it comes with a stand-in. -/
theorem emits_stand_in {target : Location} {problem : Problem} {rest : HandleId → Load β}
    {next : Option HandleId → Load β} {R : β → Prop} (here : IsHere floor location session)
    (unmet : session.cache.lookupLocation target = .ok none)
    (absent : next none = addBound target .always >>= rest)
    (rests : ∀ id later, IsHere floor location later → Emits floor location ∅ (rest id) later R) :
    Emits floor location ∅ (recordError loader .schemaTypeMismatch target problem >>= fun _ =>
      lookupLocation target >>= next) session R := by
  rcases recordError_cases loader .schemaTypeMismatch target problem session with
    ⟨uri, place, recorded⟩ | ⟨stop, noted, ended, why⟩
  · let issue : Issue := ⟨.schemaTypeMismatch, .error, uri, problem⟩
    let noted : Session := { session with report := session.report.add issue }
    have looked : (lookupLocation target).run.run noted = (.ok none, noted) :=
      run_lookupLocation_eq unmet
    obtain ⟨graph, binds, added⟩ := run_addBound target .always noted
    have new := handle_addHandle_new session.graph target
    have kept : Session.KeepsHandles session.graph graph :=
      (Session.keepsHandles_addHandle _ _).trans (keepsHandles_bind binds new rfl)
    have complains : Complains floor location ∅ session { noted with graph } := by
      have above : floor ≤ session.graph.handles.size := here.ready.handles
      refine ⟨⟨fun _ _ found => found, kept⟩, fun ready => ⟨above.trans kept.size_le, ready.proper⟩,
        [issue], rfl, List.pairwise_singleton _ _, fun other mem => .inl ?_⟩
      rw [List.mem_singleton.1 mem]
      exact ⟨rfl, ⟨session.graph.handles.size⟩, _, above, (handle_bound binds new rfl).1, place,
        rfl⟩
    -- The new handle is not put under the URIs of the target, which so stays unmet.
    refine (Emits.from here complains ?_ (rests ⟨session.graph.handles.size⟩ _
      (here.after complains)) (Set.disjoint_empty _)).mono (Set.empty_union _).le fun _ => id
    rw [run_bind_ok recorded, run_bind_ok looked, absent, run_bind_ok added]
  · refine emits_of_error (run_bind_error ended) fun going => ?_
    rcases why with ⟨report, rfl⟩ | rfl
    · exact absurd rfl (going report)
    · exact complains_refl _

theorem isClear_root {uri : String} (ok : Location.root uri = .ok location) : location.IsClear := by
  unfold Location.root at ok
  obtain ⟨key, place, ok⟩ := except_bind_ok ok
  cases ok
  obtain ⟨both, split, place⟩ := except_bind_ok place
  cases place
  exact Uri.mark_not_mem_split split

/-- What a pointer leads to in a proper document is proper, at a clear location. -/
theorem valueAt_proper {uri : String} {stored : StoredDocument} {pointer : Pointer}
    {target : Location} (proper : stored.document.value.IsProper)
    (ok : valueAt uri stored pointer = .ok (value, target)) :
    value.IsProper ∧ target.IsClear := by
  obtain ⟨resolved, located⟩ := valueAt_eq ok
  refine ⟨Pointer.isProper_resolve resolved proper, ?_⟩
  unfold Location.ofDocument at located
  obtain ⟨start, root, walked⟩ := except_bind_ok located
  exact (isClear_root (mapError_ok root)).congr (walk_place walked).1.symm

section Below

variable (behaves : Behaves loader floor load)
  (served : ∀ uri document, loader.client.fetch uri = .ok document → document.value.IsProper)

include behaves served in
/-- Following a reference is no complaint about the object that has it. -/
theorem emits_resolve (here : IsHere floor location session) (uri : String) (origin : Location) :
    Emits floor location ∅ (resolve loader load uri origin) session fun _ => True := by
  have entered : ∀ (handle : HandleId) (session : Session), IsHere floor location session →
      Emits floor location ∅ (do enterUri uri handle; return handle) session fun _ => True :=
    fun handle session here => emits_silent_bind here (emits_step (.enterUri _ _))
      fun _ _ _ _ _ => emits_pure trivial
  unfold resolve
  refine emits_silent_bind here (emits_step (.lookup _)) fun found s₁ _ here _ => ?_
  split
  · exact emits_pure trivial
  · refine emits_silent_bind here (emits_locate served here uri origin) fun place s₂ _ here _ => ?_
    refine emits_silent_bind here (emits_document here.ready _) fun found s₃ _ here proper => ?_
    split
    · exact emits_throw _
    · next stored _ =>
      split
      · exact (emits_failAt _ _ _).mono le_rfl fun _ => False.elim
      · next value target ok =>
        obtain ⟨proper, clear⟩ := valueAt_proper (proper stored rfl) ok
        refine emits_silent_bind here (emits_step (.lookupLocation _)) fun known s₄ run here _ => ?_
        obtain ⟨met, rfl⟩ := run_checkUri run
        dsimp only
        split
        · rw [pure_bind]
          exact entered _ _ here
        · by_cases like : IsSchemaLike value
          · refine emits_silent_bind here (behaves.schema _ _ _ _ _ like proper clear here.ready)
              fun schema s₅ _ here _ => ?_
            refine emits_silent_bind here (emits_step (.lookupLocation _))
              fun known s₆ _ here _ => ?_
            split
            · rw [pure_bind]
              exact entered _ _ here
            · exact emits_silent_bind here (emits_step (.addBound _ _)) fun handle s₇ _ here _ =>
                entered handle s₇ here
          · rcases behaves.misfit value target stored.draft like with same | same
            · rw [same]
              exact emits_of_error rfl fun _ => complains_refl _
            · rw [same, bind_assoc]
              simp only [pure_bind]
              exact emits_stand_in here met rfl entered

end Below

end Load

end JsonSchema
