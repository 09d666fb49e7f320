import JsonSchema.Proofs.Documents

/-!
# Strict mode

Strict mode is the flexible run cut at its first error. An unknown keyword counts as an error here,
since strict mode makes one of it (`Issue.promoted`). From one session both runs are the same and
record nothing grave, or the strict run stops at an issue that the flexible run records, too, and
after which it may go on (`Load.Cut`). This relation is a congruence (`Load.congruence_cuts`), so it
holds of whole documents (`Load.strict_cuts_flexible`).
-/

namespace JsonSchema

/-! ## Grave issues -/

namespace Issue

/-- The issue as strict mode takes it: an unknown keyword is an error. -/
def promoted (issue : Issue) : Issue :=
  if issue.code = .keywordUnknown then { issue with level := .error } else issue

/-- Whether strict mode takes an issue as an error. -/
def isGrave (issue : Issue) : Bool :=
  issue.promoted.isError

theorem isGrave_of_isError {issue : Issue} (error : issue.isError = true) :
    issue.isGrave = true := by
  unfold isGrave promoted
  split
  · rfl
  · exact error

end Issue

namespace Load

variable {α β : Type} {session later further last : Session} {calm : List Issue}

/-! ## A run and its cut -/

/-- No issue of a list is grave. -/
def AreMild (issues : List Issue) : Prop :=
  ∀ issue ∈ issues, issue.isGrave = false

theorem areMild_nil : AreMild [] :=
  fun _ mem => absurd mem List.not_mem_nil

theorem areMild_append {issues issues' : List Issue} (mild : AreMild issues)
    (mild' : AreMild issues') : AreMild (issues ++ issues') :=
  fun issue mem => (List.mem_append.1 mem).elim (mild issue) (mild' issue)

/-- From one session on, a second one has recorded a grave issue, and a first one the same and
nothing after it. -/
structure IsCut (session later further : Session) (calm : List Issue) (issue issue' : Issue)
    (rest : List Issue) : Prop where
  strict : later.report.issues = session.report.issues ++ calm ++ [issue]
  flexible : further.report.issues = session.report.issues ++ calm ++ issue' :: rest
  mild : AreMild calm
  grave : issue.isGrave = true
  alike : issue.promoted = issue'.promoted

/-- How a strict run compares with a flexible one from the same session: they are the same without
grave issues, or the strict run is rejected at the first grave issue of the flexible one. The value
of the flexible run satisfies `Q`. -/
inductive Cut (Q : α → Prop) (session : Session) :
    Except Stop α × Session → Except Stop α × Session → Prop
  | same {result : Except Stop α} {later : Session} (calm : List Issue)
      (issues : later.report.issues = session.report.issues ++ calm) (mild : AreMild calm)
      (value : ∀ a, result = .ok a → Q a) : Cut Q session (result, later) (result, later)
  | cut {result : Except Stop α} {later further : Session} (calm : List Issue)
      (issue issue' : Issue) (rest : List Issue)
      (isCut : IsCut session later further calm issue issue' rest)
      (value : ∀ a, result = .ok a → Q a) :
      Cut Q session (.error (.rejected later.report), later) (result, further)

/-- From every session the first computation is cut from the second. -/
@[irreducible]
def Cuts (act act' : Load α) (Q : α → Prop) : Prop :=
  ∀ session, Cut Q session (act.run.run session) (act'.run.run session)

section Cut

variable {Q : α → Prop} {Q' : β → Prop} {strict flexible : Except Stop α × Session}

/-- The flexible run only adds issues. -/
theorem Cut.extends (cut : Cut Q session strict flexible) :
    ∃ more, flexible.2.report.issues = session.report.issues ++ more := by
  cases cut with
  | same calm issues _ _ => exact ⟨calm, issues⟩
  | cut calm issue issue' rest isCut _ =>
    exact ⟨calm ++ issue' :: rest, by rw [isCut.flexible, List.append_assoc]⟩

/-- So does the strict run. -/
theorem Cut.extends_strict (cut : Cut Q session strict flexible) :
    ∃ more, strict.2.report.issues = session.report.issues ++ more := by
  cases cut with
  | same calm issues _ _ => exact ⟨calm, issues⟩
  | cut calm issue issue' rest isCut _ =>
    exact ⟨calm ++ [issue], by rw [isCut.strict, List.append_assoc]⟩

theorem Cut.value (cut : Cut Q session strict flexible) {a : α} (ends : flexible.1 = .ok a) :
    Q a := by
  cases cut with
  | same _ _ _ value => exact value a ends
  | cut _ _ _ _ _ value => exact value a ends

/-- Issues that are not grave may come before. -/
theorem Cut.after (cut : Cut Q later strict flexible)
    (issues : later.report.issues = session.report.issues ++ calm) (mild : AreMild calm) :
    Cut Q session strict flexible := by
  cases cut with
  | same calm' issues' mild' value =>
    refine .same (calm ++ calm') ?_ (areMild_append mild mild') value
    rw [issues', issues, List.append_assoc]
  | cut calm' issue issue' rest isCut value =>
    refine .cut (calm ++ calm') issue issue' rest
      ⟨?_, ?_, areMild_append mild isCut.mild, isCut.grave, isCut.alike⟩ value
    · rw [isCut.strict, issues, List.append_assoc session.report.issues]
    · rw [isCut.flexible, issues, List.append_assoc session.report.issues]

/-- After the cut the flexible run may go on to any end. -/
theorem Cut.go_on {issue issue' : Issue} {rest : List Issue}
    (isCut : IsCut session later further calm issue issue' rest)
    (cut : Cut Q further strict flexible) :
    Cut Q session (.error (.rejected later.report), later) flexible := by
  obtain ⟨more, added⟩ := cut.extends
  refine .cut calm issue issue' (rest ++ more)
    ⟨isCut.strict, ?_, isCut.mild, isCut.grave, isCut.alike⟩ (fun a => cut.value)
  rw [added, isCut.flexible, List.append_assoc, List.cons_append]

/-- A computation that records nothing is cut from itself. -/
theorem cuts_quiet {act : Load α} (quiet : IsQuiet act)
    (value : ∀ session a, (act.run.run session).1 = .ok a → Q a) : Cuts act act Q := by
  unfold Cuts
  intro session
  have same := quiet session
  have holds := value session
  cases run : act.run.run session with
  | mk result later =>
    rw [run] at same holds
    refine .same [] ?_ areMild_nil holds
    rw [same, List.append_nil]

theorem cuts_bind {act act' : Load α} {next next' : α → Load β} (first : Cuts act act' Q)
    (rest : ∀ a, Q a → Cuts (next a) (next' a) Q') : Cuts (act >>= next) (act' >>= next') Q' := by
  unfold Cuts at first rest ⊢
  intro session
  have outcome := first session
  cases run : act.run.run session with
  | mk strict later =>
  cases run' : act'.run.run session with
  | mk flexible further =>
  rw [run, run'] at outcome
  cases outcome with
  | same calm issues mild value =>
    cases strict with
    | error stop =>
      rw [run_bind_error run, run_bind_error run']
      exact .same calm issues mild nofun
    | ok a =>
      rw [run_bind_ok run, run_bind_ok run']
      exact (rest a (value a rfl) later).after issues mild
  | cut calm issue issue' more isCut value =>
    rw [run_bind_error run]
    cases flexible with
    | error stop =>
      rw [run_bind_error run']
      exact .cut calm issue issue' more isCut nofun
    | ok a =>
      rw [run_bind_ok run']
      exact (rest a (value a rfl) further).go_on isCut

/-- Catching does not get hold of the rejection at the cut. -/
theorem cuts_tryCatch {act act' : Load α} {handle handle' : Stop → Load α} (body : Cuts act act' Q)
    (rescue : ∀ stop, Cuts (handle stop) (handle' stop) Q)
    (rethrown : ∀ report, handle (.rejected report) = throw (.rejected report)) :
    Cuts (tryCatch act handle) (tryCatch act' handle') Q := by
  unfold Cuts at body rescue ⊢
  intro session
  have outcome := body session
  cases run : act.run.run session with
  | mk strict later =>
  cases run' : act'.run.run session with
  | mk flexible further =>
  rw [run, run'] at outcome
  cases outcome with
  | same calm issues mild value =>
    cases strict with
    | ok a =>
      rw [run_tryCatch_ok run, run_tryCatch_ok run']
      exact .same calm issues mild value
    | error stop =>
      rw [run_tryCatch_error run, run_tryCatch_error run']
      exact (rescue stop later).after issues mild
  | cut calm issue issue' more isCut value =>
    rw [run_tryCatch_error run, rethrown]
    cases flexible with
    | ok a =>
      rw [run_tryCatch_ok run']
      exact .cut calm issue issue' more isCut value
    | error stop =>
      rw [run_tryCatch_error run']
      exact (rescue stop further).go_on isCut

end Cut

/-! ## Issues -/

/-- An issue that strict mode takes as an error is recorded by both and ends the strict run. -/
theorem cuts_record {issue issue' : Issue} (error : issue.isError = true)
    (alike : issue.promoted = issue'.promoted) :
    Cuts (record true issue) (record false issue') fun _ => True := by
  unfold Cuts
  intro session
  rw [run_record, run_record, error, Bool.and_true, Bool.or_true, if_pos rfl]
  have isCut : IsCut session { session with report := session.report.add issue }
      { session with report := session.report.add issue' } [] issue issue' [] :=
    ⟨by rw [List.append_nil]; rfl, by rw [List.append_nil]; rfl, areMild_nil,
      Issue.isGrave_of_isError error, alike⟩
  split
  · exact .cut [] issue issue' [] isCut (fun _ _ => trivial)
  · exact .cut [] issue issue' [] isCut (fun _ _ => trivial)

/-- A warning is recorded by both. -/
theorem cuts_record_mild {issue : Issue} (mild : issue.isGrave = false)
    (harmless : issue.isFatal = false) (warning : issue.isError = false) :
    Cuts (record true issue) (record false issue) fun _ => True := by
  unfold Cuts
  intro session
  rw [run_record, run_record, harmless, warning]
  refine .same [issue] rfl (fun other mem => ?_) (fun _ _ => trivial)
  rw [List.mem_singleton.1 mem]
  exact mild

theorem cuts_fail {issue : Issue} {Q : α → Prop} (error : issue.isError = true) :
    Cuts (fail issue : Load α) (fail issue) Q := by
  unfold Cuts
  intro session
  refine .cut [] issue issue [] ⟨?_, ?_, areMild_nil, Issue.isGrave_of_isError error, rfl⟩ nofun
  · rw [List.append_nil]
    rfl
  · rw [List.append_nil]
    rfl

theorem cuts_checkUri_bind (x : Except Uri.UriFault α) {next next' : α → Load β} {Q : β → Prop}
    (rest : ∀ a, Cuts (next a) (next' a) Q) : Cuts (checkUri x >>= next) (checkUri x >>= next') Q :=
  cuts_bind (cuts_quiet (Q := fun _ => True) (isQuiet_checkUri x) (fun _ _ _ => trivial))
    (fun a _ => rest a)

theorem cuts_recordUnknown (loader : Loader) (key : String) (location : Location) :
    Cuts (recordUnknown (loader.withStrict true) key location)
      (recordUnknown (loader.withStrict false) key location) fun _ => True := by
  unfold recordUnknown
  change Cuts (if loader.options.reportUnknownKeywords then
      recordError (loader.withStrict true) .keywordUnknown location (.unknownKeyword key)
    else pure ⟨⟩) (if loader.options.reportUnknownKeywords then
      recordWarning (loader.withStrict false) .keywordUnknown location (.unknownKeyword key)
    else pure ⟨⟩) _
  split
  · unfold recordError recordWarning
    rw [bind_issueAt, bind_issueAt]
    exact cuts_checkUri_bind _ (fun place => cuts_record rfl rfl)
  · exact cuts_quiet (isQuiet_pure _) (fun _ _ _ => trivial)

theorem cuts_recordingFaults (loader : Loader) (location : Location) {act act' : Load α}
    (cuts : Cuts act act' fun _ => True) :
    Cuts (recordingFaults (loader.withStrict true) location act)
      (recordingFaults (loader.withStrict false) location act') fun _ => True := by
  unfold recordingFaults
  refine cuts_tryCatch ?_ (fun stop => ?_) (fun report => rfl)
  · rw [map_eq_pure_bind, map_eq_pure_bind]
    exact cuts_bind cuts (fun a _ => cuts_quiet (isQuiet_pure _) (fun _ _ _ => trivial))
  · split
    · split
      · refine cuts_checkUri_bind _ (fun place => ?_)
        refine cuts_bind (cuts_record (ofFault_isError _ _) rfl) (fun _ _ => ?_)
        exact cuts_quiet (isQuiet_pure _) (fun _ _ _ => trivial)
      · exact cuts_quiet (isQuiet_throw _) (fun _ _ _ => trivial)
    · exact cuts_quiet (isQuiet_throw _) (fun _ _ _ => trivial)

theorem compatible_cuts (loader : Loader) : Compatible Set.univ loader true false Cuts where
  pure holds := cuts_quiet (isQuiet_pure _) (fun _ _ same => Except.ok.inj same ▸ holds)
  bind := cuts_bind
  step isStep := cuts_quiet isStep.isQuiet (fun _ _ _ => trivial)
  throw _ := cuts_quiet (isQuiet_throw _) (fun _ _ => nofun)
  check {_ x} _ := by
    refine cuts_quiet (isQuiet_check x) (fun session a ends => ?_)
    cases x with
    | ok b => exact congrArg Except.ok (Except.ok.inj ends)
    | error fault => cases ends
  document _ := cuts_quiet (isQuiet_bind isQuiet_get fun _ => isQuiet_checkUri _)
    (fun _ _ _ _ _ _ _ => isKeyed_univ _ _ _)
  error code location problem := by
    unfold recordError
    rw [bind_issueAt, bind_issueAt]
    exact cuts_checkUri_bind _ (fun place => cuts_record rfl rfl)
  siblings location problem := by
    unfold recordWarning
    rw [bind_issueAt, bind_issueAt]
    exact cuts_checkUri_bind _ (fun place => cuts_record_mild rfl rfl rfl)
  unknown key location := cuts_recordUnknown loader key location
  fail code location problem _ := by
    unfold failAt
    rw [bind_issueAt]
    exact cuts_checkUri_bind _ (fun place => cuts_fail rfl)
  recording location _ _ cuts := cuts_recordingFaults loader location cuts

theorem congruence_cuts (loader : Loader) : Congruence Set.univ loader true false Cuts :=
  (compatible_cuts loader).congruence
    (fun _ => cuts_quiet (isQuiet_addDocument _ _ _) (fun _ _ _ => trivial))
    (fun _ => cuts_quiet (fun _ => rfl) (fun _ _ _ => trivial))

/-- In either mode loading a value only adds issues. -/
theorem loadNode_extends (loader : Loader) (depth : Nat) (value : Json) (location : Location)
    (draft : Draft) (session : Session) :
    ∃ more, ((loadNode loader depth value location draft).run.run session).2.report.issues =
      session.report.issues ++ more := by
  have cuts := (congruence_cuts loader).loadNode
    (fun quiet => cuts_quiet quiet (fun _ _ _ => trivial)) depth value location draft
  unfold Cuts at cuts
  have cut := cuts session
  have own : loader.withStrict loader.options.strict = loader := rfl
  rw [← own]
  cases loader.options.strict with
  | true => exact cut.extends_strict
  | false => exact cut.extends

/-! ## Whole documents -/

/-- What the issues of the flexible run say about the strict one, if the session was new. -/
theorem Cut.issues {strict flexible : Except Stop α × Session} {Q : α → Prop}
    (cut : Cut Q session strict flexible) (fresh : session.report.issues = []) :
    ((∃ issue ∈ flexible.2.report.issues.map Issue.promoted, issue.isError = true) →
      ∃ calm issue rest, strict.1 = .error (.rejected strict.2.report) ∧
        strict.2.report.issues.map Issue.promoted = calm ++ [issue] ∧
        flexible.2.report.issues.map Issue.promoted = calm ++ issue :: rest ∧
        issue.isError = true ∧ ∀ other ∈ calm, other.isError = false) ∧
    ((∀ issue ∈ flexible.2.report.issues.map Issue.promoted, issue.isError = false) →
      strict = flexible) := by
  have harmless : ∀ {calm : List Issue}, AreMild calm →
      ∀ issue ∈ calm.map Issue.promoted, issue.isError = false := by
    intro calm mild issue mem
    obtain ⟨origin, inside, rfl⟩ := List.mem_map.1 mem
    exact mild origin inside
  cases cut with
  | same calm issues mild _ =>
    rw [fresh, List.nil_append] at issues
    refine ⟨?_, fun _ => rfl⟩
    rintro ⟨issue, mem, error⟩
    rw [issues] at mem
    rw [harmless mild issue mem] at error
    cases error
  | cut calm issue issue' rest isCut _ =>
    obtain ⟨strict, flexible, mild, grave, alike⟩ := isCut
    rw [fresh, List.nil_append] at strict flexible
    dsimp only
    rw [strict, flexible, List.map_append, List.map_append, List.map_cons, ← alike]
    refine ⟨fun _ => ⟨_, issue.promoted, _, rfl, rfl, rfl, grave, harmless mild⟩, fun none => ?_⟩
    have calm' := none issue.promoted (List.mem_append_right _ List.mem_cons_self)
    rw [show issue.promoted.isError = true from grave] at calm'
    cases calm'

/-- Both modes read from a session with an empty report. -/
theorem cut_reading (loader : Loader) (depth : Cache → Nat) (document : Document)
    (baseUri : Option String) (session : Session) :
    Cut (fun _ => True) { session with cache := .empty, report := .empty }
      ((reading (loader.withStrict true) depth document baseUri).run.run session)
      ((reading (loader.withStrict false) depth document baseUri).run.run session) := by
  have preloaded : IsQuiet (loader.preloaded.forM fun entry =>
      addDocument entry.1 entry.2 (draftOf loader entry.2.value)) :=
    isQuiet_forM (fun _ => isQuiet_addDocument _ _ _) _
  have quiet : ∀ {α : Type} {act : Load α}, IsQuiet act → Cuts act act fun _ => True :=
    fun quiet => cuts_quiet quiet (fun _ _ _ => trivial)
  have congruence := congruence_cuts loader
  have read := congruence.readIn quiet document baseUri
    (fun cache => congruence.loadNode quiet (depth cache))
  have whole := cuts_bind (quiet preloaded) (fun _ _ => read)
  unfold Cuts at whole
  exact whole _

/-- Strict mode is flexible mode cut at its first error. If an issue of the flexible session is an
error, an unknown keyword being one, the strict session is rejected with the issues up to the first
one; if none is, both come to the same end with the same issues. -/
theorem strict_cuts_flexible (loader : Loader) (document : Document) (baseUri : Option String)
    (session : Session) :
    let strict := loader.withStrict true
    let flexible := loader.withStrict false
    let issues := (readSession flexible document baseUri session).report.issues
    ((∃ issue ∈ issues.map Issue.promoted, issue.isError = true) →
      ∃ report calm issue rest,
        ((readSchema strict document baseUri).run.run session).1 = .error (.rejected report) ∧
        report.issues.map Issue.promoted = calm ++ [issue] ∧
        issues.map Issue.promoted = calm ++ issue :: rest ∧
        issue.isError = true ∧ ∀ other ∈ calm, other.isError = false) ∧
    ((∀ issue ∈ issues.map Issue.promoted, issue.isError = false) →
      (readSchema strict document baseUri).run.run session =
        (readSchema flexible document baseUri).run.run session ∧
      (readSession strict document baseUri session).report.issues = issues) := by
  have cut := cut_reading loader (depthBound loader · document.value) document baseUri session
  obtain ⟨stops, agrees⟩ := cut.issues rfl
  refine ⟨fun grave => ?_, fun mild => ?_⟩
  · obtain ⟨calm, issue, rest, rejected, strict, flexible, error, others⟩ := stops grave
    exact ⟨_, calm, issue, rest, rejected, strict, flexible, error, others⟩
  · have same := agrees mild
    rw [readSchema_eq, readSchema_eq]
    exact ⟨congrArg (fun read => (read.1, { session with
      graph := read.2.graph, fetched := read.2.fetched })) same,
      congrArg (fun read => read.2.report.issues) same⟩

end Load

end JsonSchema
