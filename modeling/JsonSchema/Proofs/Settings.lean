import JsonSchema.Proofs.Addresses
import JsonSchema.Proofs.Reading

/-!
# Settings

An object is read in a setting (`Load.Setting`): worlds with a session each, whose issues only become
more, what is known there about the schema that was loaded for a value, and the places at which an
issue may be recorded. A loading computation works from a world if its run ends in a world above, or
stops in one (`Load.Works`). What is known counts as long as no error was recorded
(`Load.Setting.IsClean`): a fault about a value becomes an error, so without errors there is a result
(`Load.works_recordingFaults`).
-/

namespace JsonSchema.Load

/-- Worlds in which objects are read. -/
class Setting (Ω : Type) [Preorder Ω] where
  session : Ω → Session
  /-- A value is to be loaded at a location. -/
  IsDue : Ω → Location → Json → Draft → Prop
  /-- A schema was loaded for a value at a location. -/
  IsLoaded : Ω → Location → Json → Draft → Schema → Prop
  /-- An issue may be recorded at a place. -/
  Admits : Ω → String × Pointer → Prop
  issues {w w' : Ω} : w ≤ w' →
    ∀ issue ∈ (session w).report.issues, issue ∈ (session w').report.issues
  due {w w' : Ω} {location : Location} {value : Json} {draft : Draft} : w ≤ w' →
    IsDue w location value draft → IsDue w' location value draft
  loaded {w w' : Ω} {location : Location} {value : Json} {draft : Draft} {schema : Schema} :
    w ≤ w' → IsLoaded w location value draft schema → IsLoaded w' location value draft schema
  admits {w w' : Ω} {place : String × Pointer} : w ≤ w' → Admits w place → Admits w' place
  record {w : Ω} {location : Location} {issue : Issue} : Admits w location.place →
    location.absoluteUri = .ok issue.location →
    ∃ w', session w' = { session w with report := (session w).report.add issue } ∧ w ≤ w'

variable {Ω : Type} [Preorder Ω] [Setting Ω] {w w' : Ω} {loader : Loader} {α β : Type}

namespace Setting

/-- No error was recorded. -/
def IsClean (w : Ω) : Prop :=
  (session w).report.hasErrors = false

theorem IsClean.anti (up : w ≤ w') (clean : IsClean w') : IsClean w := by
  unfold IsClean LoadReport.hasErrors at clean ⊢
  rw [List.any_eq_false] at clean ⊢
  exact fun issue mem => clean issue (issues up issue mem)

/-- The parts of an object were loaded below a location. -/
def Below (w : Ω) (location : Location) (draft : Draft) : Sub :=
  fun way part schema => IsLoaded w (location.child way) part draft schema

theorem Below.mono (up : w ≤ w') {location : Location} {draft : Draft} {way : Pointer} {part : Json}
    {schema : Schema} (below : Below w location draft way part schema) :
    Below w' location draft way part schema :=
  loaded up below

/-- Loading may stop in every world above. -/
def Halts (w : Ω) (_ : Stop) (s : Session) : Prop :=
  ∃ w', w ≤ w' ∧ session w' = s

instance : Descending (@Halts Ω _ _) where
  down := by
    rintro w w' stop s up ⟨w'', up', same⟩
    exact ⟨w'', le_trans up up', same⟩

theorem halts (w : Ω) (stop : Stop) : Halts w stop (session w) :=
  ⟨w, le_rfl, rfl⟩

end Setting

open Setting

/-- The run of a loading computation from a world ends in one above with `Q`, or stops in one. -/
abbrev Works (act : Load α) (w : Ω) (Q : α → Ω → Prop) : Prop :=
  After Setting.session Halts act w Q

theorem works_throw {Q : α → Ω → Prop} (stop : Stop) : Works (throw stop) w Q :=
  after_throw (halts w stop)

theorem works_check {x : Except Fault α} {Q : α → Ω → Prop} (ok : ∀ a, x = .ok a → Q a w) :
    Works (check x) w Q := by
  cases x with
  | ok a => exact after_pure (ok a rfl)
  | error fault => exact works_throw _

theorem works_check_bind {x : Except Fault α} {next : α → Load β} {Q : β → Ω → Prop}
    (rest : ∀ a, x = .ok a → Works (next a) w Q) : Works (check x >>= next) w Q := by
  cases x with
  | ok a => exact rest a rfl
  | error fault => exact after_of_error (run_bind_error rfl) (halts w _)

theorem works_checkUri_bind {x : Except Uri.UriFault α} {next : α → Load β} {Q : β → Ω → Prop}
    (rest : ∀ a, x = .ok a → Works (next a) w Q) : Works (checkUri x >>= next) w Q :=
  works_check_bind (fun a same => rest a (mapError_ok same))

/-! ## Issues -/

/-- An issue may end the session; if not, an error is in the report. -/
theorem works_record (strict : Bool) {location : Location} {issue : Issue}
    (here : Admits w location.place) (place : location.absoluteUri = .ok issue.location) :
    Works (record strict issue) w (fun _ w' => issue.isError = true → ¬ IsClean w') := by
  obtain ⟨w', same, up⟩ := Setting.record here place
  refine after_modify_bind up same ?_
  split
  · exact after_get_bind (works_throw _)
  · refine after_pure (fun error clean => ?_)
    unfold IsClean at clean
    rw [same] at clean
    exact absurd (hasErrors_add error) (Bool.eq_false_iff.1 clean)

theorem works_recordError (code : IssueCode) {location : Location} (problem : Problem)
    (here : Admits w location.place) :
    Works (recordError loader code location problem) w (fun _ w' => ¬ IsClean w') := by
  unfold recordError
  rw [bind_issueAt]
  refine works_checkUri_bind (fun uri place => ?_)
  exact after_mono (works_record _ here place) (fun _ _ _ unclean => unclean rfl)

theorem works_recordWarning (code : IssueCode) {location : Location} (problem : Problem)
    (here : Admits w location.place) :
    Works (recordWarning loader code location problem) w (fun _ _ => True) := by
  unfold recordWarning
  rw [bind_issueAt]
  refine works_checkUri_bind (fun uri place => ?_)
  exact after_mono (works_record _ here place) (fun _ _ _ _ => trivial)

theorem works_recordUnknown (key : String) {location : Location} (here : Admits w location.place) :
    Works (recordUnknown loader key location) w (fun _ _ => True) := by
  unfold recordUnknown
  split
  · split
    · exact after_mono (works_recordError _ _ here) (fun _ _ _ _ => trivial)
    · exact works_recordWarning _ _ here
  · exact after_pure trivial

/-- A fault about a value becomes an error, so without errors there is a result. -/
theorem works_recordingFaults {act : Load α} {Q : α → Ω → Prop} {location : Location}
    (here : Admits w location.place) (body : Works act w Q) :
    Works (recordingFaults loader location act) w
      (fun result w' => IsClean w' → ∃ a, result = some a ∧ Q a w') := by
  have kept : Works (some <$> act) w
      (fun result w' => IsClean w' → ∃ a, result = some a ∧ Q a w') :=
    after_map (after_mono body (fun a _ _ holds _ => ⟨a, rfl, holds⟩))
  refine after_tryCatch kept ?_
  rintro stop s ⟨w', up, rfl⟩
  cases stop with
  | rejected report => exact ⟨w', up, rfl⟩
  | fault fault =>
    dsimp only
    split
    · have handled : Works (do
          record loader.options.strict (.ofFault (← checkUri location.absoluteUri) fault)
          return none : Load (Option α)) w'
          (fun result w'' => IsClean w'' → ∃ a, result = some a ∧ Q a w'') := by
        refine works_checkUri_bind (fun place same => ?_)
        have placed : location.absoluteUri = .ok (Issue.ofFault place fault).location := by
          rw [same, ofFault_location]
        refine after_bind (works_record _ (admits up here) placed)
          (fun _ w'' _ unclean => after_pure ?_)
        exact fun clean => absurd clean (unclean (ofFault_isError place fault))
      unfold Works After at handled
      exact Outcome.from up handled
    · exact ⟨w', up, rfl⟩

/-- A computation that stops with no fault has nothing to record. -/
theorem works_recordingFaults_pure {a : α} {Q : α → Ω → Prop} {location : Location}
    (holds : Q a w) : Works (recordingFaults loader location (pure a)) w
      (fun result w' => IsClean w' → ∃ a, result = some a ∧ Q a w') :=
  after_of_ok (run_tryCatch_ok rfl) le_rfl rfl (fun _ => ⟨a, rfl, holds⟩)

end JsonSchema.Load
