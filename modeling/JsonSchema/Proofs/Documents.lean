import JsonSchema.Proofs.Congruence
import JsonSchema.Proofs.Sessions

/-!
# Reading documents

`Load.readSchema` reads a document in a session of its own. What it does there is `Load.reading`,
which is also given the bound on the depth: so it can be compared with readings in the other mode or
with another bound. `Load.readingVia` is given the function for values as a whole. A congruence that
holds between equal computations that leave the report alone (`Load.IsQuiet`) holds between readings
(`Congruence.readIn`), if it holds between what is loaded for values.
-/

namespace JsonSchema

namespace Load

variable {α β : Type}

/-! ## Whole documents -/

/-- Loads a document as `load` does, with a depth of one's own choice. -/
def loadWithin (loader : Loader) (depth : Cache → Nat) (document : Document) (location : Location) :
    Load Schema := do
  let draft ←
    match ← document? location.documentUri with
    | some stored => pure stored.draft
    | none => do
      let draft := draftOf loader document.value
      if location.pointer.isEmpty then addDocument location.documentUri document draft
      pure draft
  loadNode loader (depth (← get).cache) document.value location draft

/-- Reads a document at a URI. -/
def readAt (loader : Loader) (depth : Cache → Nat) (document : Document) (uri : String) :
    Load Schema := do
  let uri ← checkUri (Uri.withoutFragment uri)
  if (← document? uri).isNone then addDocument uri document (draftOf loader document.value)
  let schema ← loadWithin loader depth document (← checkUri (Location.root uri))
  let _ ← finalize
  return schema

/-- Reads a document at a URI, or at the one that it has when none is given. -/
def readIn (loader : Loader) (depth : Cache → Nat) (document : Document)
    (baseUri : Option String) : Load Schema := do
  let uri ←
    match baseUri.filter (!·.isEmpty) with
    | some uri => pure uri
    | none => checkUri (documentUri loader document.value)
  readAt loader depth document uri

/-- The session in which a document is read. -/
def reading (loader : Loader) (depth : Cache → Nat) (document : Document)
    (baseUri : Option String) : Load Schema := do
  newSession loader
  readIn loader depth document baseUri

/-- The session in which a document is read, at its end. -/
def readSession (loader : Loader) (document : Document) (baseUri : Option String)
    (session : Session) : Session :=
  ((reading loader (depthBound loader · document.value) document baseUri).run.run session).2

/-- A document is read in a session of its own, from which the graph and the list of fetched URIs are
kept. -/
theorem readSchema_eq (loader : Loader) (document : Document) (baseUri : Option String)
    (session : Session) :
    (readSchema loader document baseUri).run.run session =
      let read := (reading loader (depthBound loader · document.value) document baseUri).run.run
        session
      (read.1, { session with graph := read.2.graph, fetched := read.2.fetched }) :=
  rfl

/-! ### With another function for values -/

/-- Loads a document as `loadWithin` does, with a function of one's own for its value. -/
def loadVia (loader : Loader) (loads : Cache → NodeLoader) (document : Document)
    (location : Location) : Load Schema := do
  let draft ←
    match ← document? location.documentUri with
    | some stored => pure stored.draft
    | none => do
      let draft := draftOf loader document.value
      if location.pointer.isEmpty then addDocument location.documentUri document draft
      pure draft
  loads (← get).cache document.value location draft

/-- Reads a document at a URI with a function of one's own for its value. -/
def readAtVia (loader : Loader) (loads : Cache → NodeLoader) (document : Document) (uri : String) :
    Load Schema := do
  let uri ← checkUri (Uri.withoutFragment uri)
  if (← document? uri).isNone then addDocument uri document (draftOf loader document.value)
  let schema ← loadVia loader loads document (← checkUri (Location.root uri))
  let _ ← finalize
  return schema

/-- The session in which a document is read with a function of one's own for its value. -/
def readingVia (loader : Loader) (loads : Cache → NodeLoader) (document : Document)
    (baseUri : Option String) : Load Schema := do
  newSession loader
  let uri ←
    match baseUri.filter (!·.isEmpty) with
    | some uri => pure uri
    | none => checkUri (documentUri loader document.value)
  readAtVia loader loads document uri

/-- Reading with the function that loads within a depth is reading within the depth. -/
theorem readingVia_loadNode (loader : Loader) (depth : Cache → Nat) (document : Document)
    (baseUri : Option String) :
    readingVia loader (fun cache => loadNode loader (depth cache)) document baseUri =
      reading loader depth document baseUri :=
  rfl

/-! ## Computations that leave the report alone -/

/-- No run of the computation changes the report. -/
def IsQuiet (act : Load α) : Prop :=
  ∀ session, (act.run.run session).2.report = session.report

theorem isQuiet_pure (a : α) : IsQuiet (pure a) :=
  fun _ => rfl

theorem isQuiet_throw (stop : Stop) : IsQuiet (throw stop : Load α) :=
  fun _ => rfl

theorem isQuiet_get : IsQuiet (get : Load Session) :=
  fun _ => rfl

theorem isQuiet_bind {act : Load α} {next : α → Load β} (first : IsQuiet act)
    (rest : ∀ a, IsQuiet (next a)) : IsQuiet (act >>= next) := by
  intro session
  have same := first session
  cases run : act.run.run session with
  | mk result later =>
    rw [run] at same
    cases result with
    | ok a =>
      rw [run_bind_ok run]
      exact (rest a later).trans same
    | error stop =>
      rw [run_bind_error run]
      exact same

theorem isQuiet_forM {act : α → Load PUnit} (each : ∀ a, IsQuiet (act a)) (xs : List α) :
    IsQuiet (xs.forM act) := by
  induction xs with
  | nil => exact isQuiet_pure _
  | cons x xs ih => exact isQuiet_bind (each x) (fun _ => ih)

theorem isQuiet_check (x : Except Fault α) : IsQuiet (check x) := by
  cases x with
  | ok a => exact isQuiet_pure a
  | error fault => exact isQuiet_throw _

theorem isQuiet_checkUri (x : Except Uri.UriFault α) : IsQuiet (checkUri x) :=
  isQuiet_check _

theorem isQuiet_start (location : Location) : IsQuiet (start location) := by
  intro session
  rw [run_start]
  cases session.cache.start session.graph location <;> rfl

theorem isQuiet_bindHandle (handle : HandleId) (schema : Schema) : IsQuiet (bind handle schema) := by
  intro session
  rw [run_bind]
  cases session.graph.bind handle schema <;> rfl

theorem isQuiet_enterUri (uri : String) (handle : HandleId) : IsQuiet (enterUri uri handle) := by
  intro session
  change ((checkUri (session.cache.enterUri uri handle) >>= _).run.run session).2.report = _
  cases session.cache.enterUri uri handle <;> rfl

theorem isQuiet_addDocument (uri : String) (document : Document) (draft : Draft) :
    IsQuiet (addDocument uri document draft) := by
  intro session
  change ((check (session.cache.addDocument uri document draft) >>= _).run.run session).2.report = _
  cases session.cache.addDocument uri document draft <;> rfl

theorem isQuiet_addBound (location : Location) (schema : Schema) :
    IsQuiet (addBound location schema) := by
  intro session
  have rest := isQuiet_bind (isQuiet_bindHandle (session.graph.addHandle location).1 schema)
    (fun _ => isQuiet_pure (session.graph.addHandle location).1)
  exact rest { session with graph := (session.graph.addHandle location).2 }

theorem isQuiet_addNode (location : Location) (draft : Draft)
    (keywords : List (Keyword × KeywordValue)) : IsQuiet (addNode location draft keywords) :=
  fun _ => rfl

theorem isQuiet_referTo (handle : HandleId) (location : Location) (draft : Draft) :
    IsQuiet (referTo handle location draft) := by
  refine isQuiet_bind isQuiet_get (fun session => ?_)
  split
  · refine isQuiet_bind (isQuiet_checkUri _) (fun ref => ?_)
    exact isQuiet_bind (isQuiet_checkUri _) (fun uri => isQuiet_addNode _ _ _)
  · exact isQuiet_throw _

theorem isQuiet_finalize : IsQuiet finalize := by
  refine isQuiet_bind isQuiet_get (fun session => ?_)
  dsimp only
  split
  · exact isQuiet_throw _
  · exact isQuiet_pure _

theorem IsStep.isQuiet {act : Load α} (isStep : IsStep act) : IsQuiet act := by
  cases isStep with
  | get => exact isQuiet_get
  | lookup uri => exact isQuiet_bind isQuiet_get (fun _ => isQuiet_checkUri _)
  | lookupLocation location => exact isQuiet_bind isQuiet_get (fun _ => isQuiet_checkUri _)
  | findById uri => exact isQuiet_bind isQuiet_get (fun _ => isQuiet_check _)
  | enterUri uri handle => exact isQuiet_enterUri uri handle
  | addBound location schema => exact isQuiet_addBound location schema
  | referTo handle location draft => exact isQuiet_referTo handle location draft

theorem IsMaking.isQuiet {act : Load α} (making : IsMaking act) : IsQuiet act := by
  cases making with
  | start location => exact isQuiet_start location
  | addNode location draft keywords => exact isQuiet_addNode location draft keywords
  | bind handle schema => exact isQuiet_bindHandle handle schema

/-! ## Recording issues -/

theorem run_record (strict : Bool) (issue : Issue) (session : Session) :
    (record strict issue).run.run session =
      if issue.isFatal || (issue.isError && strict) then
        (.error (.rejected (session.report.add issue)),
          { session with report := session.report.add issue })
      else (.ok ⟨⟩, { session with report := session.report.add issue }) := by
  unfold record
  split <;> rfl

/-! ## Related readings -/

namespace Congruence

variable {loader : Loader} {strict strict' : Bool}
  {R : ∀ {α : Type}, Load α → Load α → (α → Prop) → Prop}
  (congruence : Congruence Set.univ loader strict strict' R)
  (quiet : ∀ {α : Type} {act : Load α}, IsQuiet act → R act act fun _ => True)

include congruence quiet

/-- Both modes go equally deep. -/
theorem loadNode (depth : Nat) (value : Json) (location : Location) (draft : Draft) :
    R (Load.loadNode (loader.withStrict strict) depth value location draft)
      (Load.loadNode (loader.withStrict strict') depth value location draft) fun _ => True := by
  induction depth generalizing value location draft with
  | zero => exact quiet (isQuiet_throw _)
  | succ depth ih =>
    exact congruence.nodeWith (fun value location draft _ => ih value location draft)
      (fun making => quiet making.isQuiet) (isPlaced_of_isKeyed (isKeyed_univ _ _ _)) draft

variable {load load' : Cache → NodeLoader}
  (loads : ∀ cache value location draft,
    R (load cache value location draft) (load' cache value location draft) fun _ => True)

include loads

theorem loadVia (document : Document) (location : Location) :
    R (Load.loadVia (loader.withStrict strict) load document location)
      (Load.loadVia (loader.withStrict strict') load' document location) fun _ => True := by
  have walked : ∀ draft : Draft, R (do load (← get).cache document.value location draft)
      (do load' (← get).cache document.value location draft) fun _ => True :=
    fun draft => congruence.step_bind .get (fun _ => loads _ _ _ _)
  unfold Load.loadVia
  refine congruence.bind (congruence.document _) (fun stored _ => ?_)
  dsimp only
  split
  · exact congruence.bind (congruence.done _) (fun draft _ => walked draft)
  · refine congruence.guarded (quiet (isQuiet_addDocument _ _ _)) (fun _ => ?_)
    exact congruence.bind (congruence.done _) (fun draft _ => walked draft)

theorem readAtVia (document : Document) (uri : String) :
    R (Load.readAtVia (loader.withStrict strict) load document uri)
      (Load.readAtVia (loader.withStrict strict') load' document uri) fun _ => True := by
  unfold Load.readAtVia
  refine congruence.checkUri_bind _ (fun uri => ?_)
  refine congruence.bind (congruence.document _) (fun stored _ => ?_)
  dsimp only
  refine congruence.guarded (quiet (isQuiet_addDocument _ _ _)) (fun _ => ?_)
  refine congruence.checkUri_bind _ (fun location => ?_)
  refine congruence.bind (congruence.loadVia quiet loads document location) (fun schema _ => ?_)
  exact congruence.bind (quiet isQuiet_finalize) (fun _ _ => congruence.done _)

omit loads in
theorem readIn {depth depth' : Cache → Nat} (document : Document) (baseUri : Option String)
    (loads : ∀ cache value location draft,
      R (Load.loadNode (loader.withStrict strict) (depth cache) value location draft)
        (Load.loadNode (loader.withStrict strict') (depth' cache) value location draft)
        fun _ => True) :
    R (Load.readIn (loader.withStrict strict) depth document baseUri)
      (Load.readIn (loader.withStrict strict') depth' document baseUri) fun _ => True := by
  have read := fun uri => congruence.readAtVia quiet loads document uri
  unfold Load.readIn
  split
  · exact congruence.bind (congruence.done _) (fun uri _ => read uri)
  · exact congruence.checkUri_bind _ (fun uri => read uri)

end Congruence

end Load

end JsonSchema
