import JsonSchema.Proofs.Lookup

/-!
# Courses of a session

What loading does to a session, whether it gives a value or stops, is said by a relation of sessions
that it pursues (`Load.Pursues`). A relation is a course (`Load.IsCourse`) if it is transitive and
holds where only the report changes. What reads the session or records an issue pursues every
course, and where the operations on a session do so, all but fetching does
(`Load.IsCourse.compatible`).
-/

namespace JsonSchema

namespace Load

variable {α β : Type} {loader : Loader} {session : Session}

/-- A relation of sessions that is transitive and holds where only the report changes. -/
structure IsCourse (P : Session → Session → Prop) : Prop where
  report : ∀ (session : Session) (report : LoadReport), P session { session with report }
  trans : ∀ {first middle last : Session}, P first middle → P middle last → P first last

/-- From every session the first computation comes to one in the relation, and `Q` holds of its
values. -/
structure Pursues (P : Session → Session → Prop) (act _act' : Load α) (Q : α → Prop) : Prop where
  later : ∀ session, P session (act.run.run session).2
  value : ∀ session a later, act.run.run session = (.ok a, later) → Q a

theorem Pursues.unvalued {P : Session → Session → Prop} {act act' : Load α}
    (later : ∀ session, P session (act.run.run session).2) :
    Pursues P act act' fun _ => True :=
  ⟨later, fun _ _ _ _ => trivial⟩

namespace IsCourse

variable {P : Session → Session → Prop} (course : IsCourse P)

include course

theorem refl (session : Session) : P session session :=
  course.report session session.report

/-! ## Constructs -/

/-- In a sequence the rest runs where the first part ends. -/
theorem sequence {act : Load α} {next : α → Load β} (first : P session (act.run.run session).2)
    (rest : ∀ a later, act.run.run session = (.ok a, later) →
      P later ((next a).run.run later).2) :
    P session ((act >>= next).run.run session).2 := by
  cases run : act.run.run session with
  | mk result later =>
    rw [run] at first
    cases result with
    | ok a =>
      rw [run_bind_ok run]
      exact course.trans first (rest a later run)
    | error stop =>
      rw [run_bind_error run]
      exact first

theorem bind {act act' : Load α} {next next' : α → Load β} {Q : α → Prop} {Q' : β → Prop}
    (first : Pursues P act act' Q) (rest : ∀ a, Q a → Pursues P (next a) (next' a) Q') :
    Pursues P (act >>= next) (act' >>= next') Q' := by
  constructor
  · intro session
    refine course.sequence (first.later session) (fun a later run => ?_)
    exact (rest a (first.value _ _ _ run)).later later
  · intro session b later run
    obtain ⟨a, s₁, run₁, run₂⟩ := run_bind_eq_ok run
    exact (rest a (first.value _ _ _ run₁)).value _ _ _ run₂

/-- A computation that leaves the session as it is. -/
theorem still {act act' : Load α} {Q : α → Prop}
    (same : ∀ session, (act.run.run session).2 = session)
    (value : ∀ session a later, act.run.run session = (.ok a, later) → Q a) :
    Pursues P act act' Q :=
  ⟨fun session => (same session).symm ▸ course.refl session, value⟩

theorem pure {a : α} {Q : α → Prop} (holds : Q a) :
    Pursues P (Pure.pure a) (Pure.pure a) Q :=
  course.still (fun _ => rfl) fun _ _ _ run => by
    cases run
    exact holds

theorem done (a : α) : Pursues P (Pure.pure a) (Pure.pure a) fun _ => True :=
  course.pure trivial

theorem throw (stop : Stop) {Q : α → Prop} :
    Pursues P (MonadExcept.throw stop) (MonadExcept.throw stop) Q :=
  course.still (fun _ => rfl) fun _ _ _ run => by cases run

theorem check (x : Except Fault α) : Pursues P (Load.check x) (Load.check x) fun a => x = .ok a := by
  refine course.still (fun _ => ?_) (fun _ _ _ run => (run_check run).1)
  cases x <;> rfl

theorem checkUri (x : Except Uri.UriFault α) :
    Pursues P (Load.checkUri x) (Load.checkUri x) fun _ => True :=
  .unvalued (course.check _).later

/-! ## Issues -/

theorem record (strict : Bool) (issue : Issue) :
    Pursues P (Load.record strict issue) (Load.record strict issue) fun _ => True := by
  refine .unvalued fun session => ?_
  rw [run_record]
  split <;> exact course.report session _

theorem issueAt_bind (code : IssueCode) (level : IssueLevel) (location : Location)
    (problem : Problem) {next next' : Issue → Load α} {Q : α → Prop}
    (rest : ∀ issue, Pursues P (next issue) (next' issue) Q) :
    Pursues P (issueAt code level location problem >>= next)
      (issueAt code level location problem >>= next') Q := by
  rw [bind_issueAt, bind_issueAt]
  exact course.bind (course.checkUri _) (fun _ _ => rest _)

theorem recordError (code : IssueCode) (location : Location) (problem : Problem) :
    Pursues P (Load.recordError loader code location problem)
      (Load.recordError loader code location problem) fun _ => True :=
  course.issueAt_bind _ _ _ _ (fun _ => course.record _ _)

theorem recordWarning (code : IssueCode) (location : Location) (problem : Problem) :
    Pursues P (Load.recordWarning loader code location problem)
      (Load.recordWarning loader code location problem) fun _ => True :=
  course.issueAt_bind _ _ _ _ (fun _ => course.record _ _)

theorem recordUnknown (key : String) (location : Location) :
    Pursues P (Load.recordUnknown loader key location) (Load.recordUnknown loader key location)
      fun _ => True := by
  unfold Load.recordUnknown
  split
  · split
    · exact course.recordError _ _ _
    · exact course.recordWarning _ _ _
  · exact course.done _

theorem failAt (code : IssueCode) (location : Location) (problem : Problem) {Q : α → Prop} :
    Pursues P (Load.failAt code location problem) (Load.failAt code location problem) Q := by
  have fails : Pursues P (Load.failAt code location problem : Load α)
      (Load.failAt code location problem) fun _ => True :=
    course.issueAt_bind _ _ _ _ fun _ => .unvalued fun session => course.report session _
  exact ⟨fails.later, fun _ _ _ run => (run_failAt run).elim⟩

theorem recordingFaults (location : Location) {act act' : Load α}
    (pursues : Pursues P act act' fun _ => True) :
    Pursues P (Load.recordingFaults loader location act) (Load.recordingFaults loader location act')
      fun _ => True := by
  have kept : Pursues P (some <$> act) (some <$> act') fun _ => True := by
    rw [map_eq_pure_bind, map_eq_pure_bind]
    exact course.bind pursues (fun _ _ => course.done _)
  have noted : ∀ fault : Fault, Pursues P (do
      let place ← Load.checkUri location.absoluteUri
      Load.record loader.options.strict (.ofFault place fault)
      return none : Load (Option α)) (do
      let place ← Load.checkUri location.absoluteUri
      Load.record loader.options.strict (.ofFault place fault)
      return none : Load (Option α)) fun _ => True := fun fault =>
    course.bind (course.checkUri _)
      (fun _ _ => course.bind (course.record _ _) (fun _ _ => course.done _))
  refine .unvalued fun session => ?_
  have before := kept.later session
  unfold Load.recordingFaults
  cases run : (some <$> act).run.run session with
  | mk result later =>
    rw [run] at before
    cases result with
    | ok a =>
      rw [run_tryCatch_ok run]
      exact before
    | error stop =>
      rw [run_tryCatch_error run]
      refine course.trans before ?_
      split
      · split
        · exact (noted _).later later
        · exact course.refl later
      · exact course.refl later

/-! ## Loading -/

theorem document (uri : String) : Pursues P (document? uri) (document? uri) fun _ => True :=
  course.bind (course.still (fun _ => rfl) (fun _ _ _ _ => trivial)) (fun _ _ => course.checkUri _)

/-- Where the operations on a session pursue a course, so does everything but fetching. -/
theorem compatible (loader : Loader) (step : ∀ {α : Type} {act : Load α}, IsStep act →
      ∀ session, P session (act.run.run session).2) :
    Compatible Set.univ loader loader.options.strict loader.options.strict (Pursues P) where
  pure := course.pure
  bind := course.bind
  step isStep := .unvalued (step isStep)
  throw _ := course.throw _
  check _ := course.check _
  document uri := ⟨(course.document uri).later, fun _ _ _ _ _ _ _ _ => isKeyed_univ _ _ _⟩
  error := course.recordError
  siblings := course.recordWarning _
  unknown := course.recordUnknown
  fail := course.failAt
  recording location _ _ := course.recordingFaults location

end IsCourse

end Load

end JsonSchema
