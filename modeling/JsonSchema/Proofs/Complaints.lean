import JsonSchema.Proofs.Equivalence
import JsonSchema.Proofs.Moves
import Mathlib.Data.Set.BooleanAlgebra
import Mathlib.Order.CompletePartialOrder

/-!
# Complaints about objects

While an object is loaded, issues are recorded about it: at its own place, at the place of one of
its members, or at the place of a value inside a member that should be a schema. Each is about one
spot of the object (`Load.Spot`), and issue and place tell the object and the spot
(`Load.Spot.Of.unique`).

`Load.Complains` follows what a part of loading adds to the report: complaints about given spots of
the object that is being loaded, and complaints about objects that are begun meanwhile. An object is
begun under its absolute URI, at most once, so two parts that complain about disjoint spots complain
about different things (`Complains.trans`). Besides these there may be issues about values that are
no schemas and are referred to; such a value gets a stand-in (`Load.IsStandIn`), which no URI of its
place leads to, so nothing keeps it from being looked at again.
-/

namespace JsonSchema

/-- What a reader tells two issues of a report apart by. -/
def Issue.key (issue : Issue) : IssueCode × String × String :=
  (issue.code, issue.location, issue.message)

namespace Location

variable {a b location : Location} {key : String}

/-- A location whose document has a URI without fragment, as that of every root has. -/
def IsClear (location : Location) : Prop :=
  '#' ∉ location.documentUri.toList

theorem IsClear.congr (clear : a.IsClear) (same : a.documentUri = b.documentUri) : b.IsClear := by
  unfold IsClear at clear ⊢
  rwa [← same]

theorem IsClear.absoluteUri (clear : location.IsClear) :
    location.absoluteUri = (Uri.splitFragment (location.documentUri ++ "#")).map fun split =>
      Uri.withFragment split.1 (Uri.encodeFragment location.pointer.text) := by
  unfold Location.absoluteUri Location.fragment fragmentOf Uri.normalize
  rw [← String.append_assoc, Uri.splitFragment_append clear (Uri.isKept_encodeFragment _)]
  cases Uri.splitFragment (location.documentUri ++ "#") with
  | error fault => rfl
  | ok split =>
    change Except.ok (Uri.withFragment split.1 (Uri.encodeFragment (Uri.decodeFragment _))) = _
    rw [Uri.decodeFragment_encode]
    rfl

/-- A URI below two locations, equally far down, tells the URI of the location and the way down. -/
theorem IsClear.child_inj (clear : a.IsClear) (clear' : b.IsClear) {p q : Pointer}
    (here : (a.child p).absoluteUri = .ok key) (there : (b.child q).absoluteUri = .ok key)
    (far : p.length = q.length) : a.absoluteUri = b.absoluteUri ∧ p = q := by
  have below : (a.child p).IsClear := clear
  have below' : (b.child q).IsClear := clear'
  rw [below.absoluteUri] at here
  rw [below'.absoluteUri] at there
  rw [clear.absoluteUri, clear'.absoluteUri]
  change (Uri.splitFragment (a.documentUri ++ "#")).map _ = _ at here
  change (Uri.splitFragment (b.documentUri ++ "#")).map _ = _ at there
  cases split : Uri.splitFragment (a.documentUri ++ "#") with
  | error fault =>
    rw [split] at here
    cases here
  | ok front =>
    cases split' : Uri.splitFragment (b.documentUri ++ "#") with
    | error fault =>
      rw [split'] at there
      cases there
    | ok front' =>
      rw [split] at here
      rw [split'] at there
      have same := (Except.ok.inj here).trans (Except.ok.inj there).symm
      obtain ⟨base, text⟩ := (Uri.withFragment_inj_iff (Uri.mark_not_mem_split split)
        (Uri.mark_not_mem_split split')).1 same
      have whole : a.pointer ++ p = b.pointer ++ q := Pointer.text_inj (Uri.encodeFragment_inj text)
      obtain ⟨above, way⟩ := List.append_inj' whole far
      refine ⟨?_, way⟩
      change Except.ok (Uri.withFragment front.1 (Uri.encodeFragment a.pointer.text)) =
        Except.ok (Uri.withFragment front'.1 (Uri.encodeFragment b.pointer.text))
      rw [base, above]

end Location

namespace Load

/-! ## Spots -/

/-- What an object can be complained about. -/
inductive Spot where
  /-- The keywords beside its reference. -/
  | siblings
  | identifier
  /-- A key that is no keyword. -/
  | unknown (key : String)
  /-- The shape of a member. -/
  | shape (key : String)
  /-- The value of a member. -/
  | value (key : String)
  /-- The text of its reference. -/
  | reference
  /-- A value in a member that should be a schema. -/
  | element (key segment : String)
  deriving DecidableEq

namespace Spot

/-- Where a spot is, seen from its object. -/
def segments : Spot → Pointer
  | siblings | identifier | unknown _ => []
  | shape key | value key => [key]
  | reference => [Builtin.ref.key]
  | element key segment => [key, segment]

/-- What is said about a spot. -/
def Tells : Spot → IssueCode → Problem → Prop
  | siblings, code, _ => code = .refSiblingsIgnored
  | identifier, code, problem =>
    code = .uriMalformed ∧ ∃ text fault, problem = .badIdentifier text fault
  | unknown key, code, problem => code = .keywordUnknown ∧ problem = .unknownKeyword key
  | shape _, code, _ => code = .keywordTypeMismatch
  | value _, code, _ =>
    code = .keywordMissing ∨ code = .keywordConflicting ∨ code = .keywordInvalid
  | reference, code, problem =>
    code = .uriMalformed ∧ ∃ ref fault, problem = .badReference ref fault
  | element _ _, code, _ => code = .schemaTypeMismatch

/-- An issue about a spot of the object at a location. -/
structure Of (spot : Spot) (location : Location) (issue : Issue) : Prop where
  tells : spot.Tells issue.code issue.problem
  place : (location.child spot.segments).absoluteUri = .ok issue.location

variable {spot spot' : Spot} {a b : Location} {issue issue' : Issue}

/-- A bad identifier and a bad reference do not read the same. -/
theorem message_ne {text ref : String} {fault fault' : Fault} :
    (Problem.badIdentifier text fault).message ≠ (Problem.badReference ref fault').message := by
  intro same
  have letters := congrArg (fun message : String => message.toList.take 9) same
  unfold Problem.message at letters
  simp only [String.append_assoc, String.toList_append] at letters
  rw [List.take_append_of_le_length (by decide), List.take_append_of_le_length (by decide)]
    at letters
  exact absurd letters (by decide)

/-- Issues that read the same are about spots of one kind. -/
theorem Tells.alike {code : IssueCode} {problem problem' : Problem}
    (tells : spot.Tells code problem) (tells' : spot'.Tells code problem')
    (same : problem.message = problem'.message) :
    spot.segments.length = spot'.segments.length ∧
      (spot.segments = spot'.segments → spot = spot') := by
  cases spot <;> cases spot' <;> simp only [Tells] at tells tells'
  case unknown.unknown key key' =>
    rw [tells.2, tells'.2] at same
    have named := String.append_left_inj _ |>.1 same
    have key := String.append_right_inj _ |>.1 named
    exact ⟨rfl, fun _ => by rw [key]⟩
  case identifier.reference =>
    obtain ⟨-, text, fault, rfl⟩ := tells
    obtain ⟨-, ref, fault', rfl⟩ := tells'
    exact absurd same message_ne
  case reference.identifier =>
    obtain ⟨-, ref, fault', rfl⟩ := tells
    obtain ⟨-, text, fault, rfl⟩ := tells'
    exact absurd same.symm message_ne
  -- Spots of one kind are told apart by their way, and no others have a code in common.
  all_goals first
    | exact ⟨rfl, fun way => by simp_all [segments]⟩
    | (exfalso; grind)

/-- An issue tells the object and the spot that it is about. -/
theorem Of.unique (of : spot.Of a issue) (of' : spot'.Of b issue') (same : issue.key = issue'.key)
    (clear : a.IsClear) (clear' : b.IsClear) : a.absoluteUri = b.absoluteUri ∧ spot = spot' := by
  obtain ⟨code, place, message⟩ : issue.code = issue'.code ∧ issue.location = issue'.location ∧
      issue.message = issue'.message := by
    simpa only [Issue.key, Prod.mk.injEq] using same
  have tells := of.tells
  have there := of.place
  rw [code] at tells
  rw [place] at there
  obtain ⟨far, way⟩ := tells.alike of'.tells message
  obtain ⟨here, segments⟩ := clear.child_inj clear' there of'.place far
  exact ⟨here, way segments⟩

end Spot

/-! ## What is added to the report -/

variable {floor : Nat} {location : Location} {spots spots' : Set Spot}
  {session later last : Session} {issue issue' : Issue}

/-- An issue about a value that is no schema, for which a handle stands that was made not before
`floor` and accepts everything. -/
def IsStandIn (floor : Nat) (session : Session) (issue : Issue) : Prop :=
  issue.code = .schemaTypeMismatch ∧ ∃ (id : HandleId) (handle : Handle), floor ≤ id.index ∧
    session.graph.handle? id = some handle ∧ handle.location.absoluteUri = .ok issue.location ∧
    handle.schema = some .always

theorem IsStandIn.keep (stands : IsStandIn floor session issue) (kept : session.Keeps later) :
    IsStandIn floor later issue := by
  obtain ⟨code, id, handle, new, found, place, bound⟩ := stands
  obtain ⟨handle', found', same, schema⟩ := kept.handles id handle found
  exact ⟨code, id, handle', new, found', same ▸ place, schema _ bound⟩

theorem IsStandIn.congr (stands : IsStandIn floor session issue) (same : issue.key = issue'.key) :
    IsStandIn floor session issue' := by
  obtain ⟨code, place, -⟩ : issue.code = issue'.code ∧ issue.location = issue'.location ∧
      issue.message = issue'.message := by
    simpa only [Issue.key, Prod.mk.injEq] using same
  unfold IsStandIn at stands ⊢
  rwa [code, place] at stands

/-- A session in which the object at a location was begun. -/
def Knows (session : Session) (location : Location) : Prop :=
  ∃ uri, location.absoluteUri = .ok uri ∧ (session.cache.handles.lookup uri).isSome

theorem isSome_keep {uri : String} (found : (session.cache.handles.lookup uri).isSome)
    (kept : session.Keeps later) : (later.cache.handles.lookup uri).isSome := by
  obtain ⟨id, found⟩ := Option.isSome_iff_exists.1 found
  rw [kept.entries uri id found]
  rfl

theorem Knows.keep (knows : Knows session location) (kept : session.Keeps later) :
    Knows later location := by
  obtain ⟨uri, place, found⟩ := knows
  exact ⟨uri, place, isSome_keep found kept⟩

/-- An issue about an object that was begun between two sessions. -/
def IsOfNew (session later : Session) (issue : Issue) : Prop :=
  ∃ owner : Location, owner.IsClear ∧ ¬ Knows session owner ∧ Knows later owner ∧
    ∃ spot : Spot, spot.Of owner issue

/-- Handles that are there from `floor` on are new, and the documents are proper. -/
structure IsReady (floor : Nat) (session : Session) : Prop where
  handles : floor ≤ session.graph.handles.size
  proper : ∀ entry ∈ session.documents, entry.2.document.value.IsProper

/-- The issues that are added are about stand-ins, about the given spots of the object at the
location, and about new objects; and two that read the same are about stand-ins. -/
structure Complains (floor : Nat) (location : Location) (spots : Set Spot)
    (session later : Session) : Prop where
  keeps : session.Keeps later
  ready : IsReady floor session → IsReady floor later
  issues : ∃ new, later.report.issues = session.report.issues ++ new ∧
    (new.Pairwise fun a b => a.key = b.key → IsStandIn floor later a) ∧
    ∀ issue ∈ new, IsStandIn floor later issue ∨ (∃ spot ∈ spots, spot.Of location issue) ∨
      IsOfNew session later issue

/-- Nothing is added to the report. -/
theorem complains_silent (keeps : session.Keeps later)
    (ready : IsReady floor session → IsReady floor later) (report : later.report = session.report) :
    Complains floor location spots session later :=
  ⟨keeps, ready, [], by rw [report, List.append_nil], List.Pairwise.nil,
    fun _ mem => absurd mem List.not_mem_nil⟩

theorem complains_refl (session : Session) : Complains floor location spots session session :=
  complains_silent (Session.keeps_of_ledger rfl) id rfl

theorem Complains.mono (complains : Complains floor location spots session later)
    (sub : spots ⊆ spots') : Complains floor location spots' session later := by
  obtain ⟨new, added, apart, about⟩ := complains.issues
  refine ⟨complains.keeps, complains.ready, new, added, apart, fun issue mem => ?_⟩
  exact (about issue mem).imp_right (Or.imp_left fun ⟨spot, among, of⟩ => ⟨spot, sub among, of⟩)

/-- What is known of the object that is being loaded. -/
structure IsHere (floor : Nat) (location : Location) (session : Session) : Prop where
  clear : location.IsClear
  knows : Knows session location
  ready : IsReady floor session

theorem IsHere.after (here : IsHere floor location session)
    (complains : Complains floor location spots session later) : IsHere floor location later :=
  ⟨here.clear, here.knows.keep complains.keeps, complains.ready here.ready⟩

theorem IsOfNew.not_of_known (new : IsOfNew session later issue) (clear : location.IsClear)
    (knows : Knows session location) {spot : Spot} (of : spot.Of location issue')
    (same : issue.key = issue'.key) : False := by
  obtain ⟨owner, clear', unknown, -, spot', of'⟩ := new
  obtain ⟨place, -⟩ := of'.unique of same clear' clear
  obtain ⟨uri, ok, found⟩ := knows
  exact unknown ⟨uri, place.trans ok, found⟩

/-- Complaints about disjoint spots are complaints about different things. -/
theorem Complains.trans (here : IsHere floor location session)
    (first : Complains floor location spots session later)
    (second : Complains floor location spots' later last) (apart : Disjoint spots spots') :
    Complains floor location (spots ∪ spots') session last := by
  obtain ⟨old, added, alike, about⟩ := first.issues
  obtain ⟨new, added', alike', about'⟩ := second.issues
  refine ⟨first.keeps.trans second.keeps, second.ready ∘ first.ready, old ++ new, ?_, ?_, ?_⟩
  · rw [added', added, List.append_assoc]
  · rw [List.pairwise_append]
    refine ⟨alike.imp fun stands same => (stands same).keep second.keeps, alike', ?_⟩
    -- An object that one part complains about is begun before the other part or during it, so the
    -- same object can only be the one at the location, and there the spots differ.
    intro a mem b mem' same
    rcases about a mem with stands | ⟨spot, among, of⟩ | fresh
    · exact stands.keep second.keeps
    · rcases about' b mem' with stands | ⟨spot', among', of'⟩ | fresh'
      · exact stands.congr same.symm
      · obtain ⟨-, rfl⟩ := of.unique of' same here.clear here.clear
        exact (Set.disjoint_left.1 apart among among').elim
      · exact (fresh'.not_of_known here.clear (here.knows.keep first.keeps) of same.symm).elim
    · rcases about' b mem' with stands | ⟨spot', among', of'⟩ | fresh'
      · exact stands.congr same.symm
      · exact (fresh.not_of_known here.clear here.knows of' same).elim
      · obtain ⟨owner, clear, -, known, spot, of⟩ := fresh
        exact (fresh'.not_of_known clear known of same.symm).elim
  · intro issue mem
    rcases List.mem_append.1 mem with mem | mem
    · rcases about issue mem with stands | ⟨spot, among, of⟩ | ⟨owner, clear, unknown, known, of⟩
      · exact .inl (stands.keep second.keeps)
      · exact .inr (.inl ⟨spot, .inl among, of⟩)
      · exact .inr (.inr ⟨owner, clear, unknown, known.keep second.keeps, of⟩)
    · rcases about' issue mem with stands | ⟨spot, among, of⟩ | ⟨owner, clear, unknown, known, of⟩
      · exact .inl stands
      · exact .inr (.inl ⟨spot, .inr among, of⟩)
      · exact .inr (.inr ⟨owner, clear, fun knows => unknown (knows.keep first.keeps), known, of⟩)

/-! ## Computations that complain -/

variable {α β γ : Type} {loader : Loader} {act : Load α} {next : α → Load β} {Q Q' : α → Prop}
  {R : β → Prop} {spot : Spot} {key : String}

/-- A computation adds complaints about given spots of the object at a location, whether it ends
with a value, of which `Q` holds, or with a fault. A session that is rejected goes no further, so
nothing is said about it. -/
structure Emits (floor : Nat) (location : Location) (spots : Set Spot) (act : Load α)
    (session : Session) (Q : α → Prop) : Prop where
  complains : ∀ result later, act.run.run session = (result, later) →
    (∀ report, result ≠ .error (.rejected report)) → Complains floor location spots session later
  value : ∀ a later, act.run.run session = (.ok a, later) → Q a

theorem Emits.mono (emits : Emits floor location spots act session Q) (sub : spots ⊆ spots')
    (weaker : ∀ a, Q a → Q' a) : Emits floor location spots' act session Q' :=
  ⟨fun result later run going => (emits.complains result later run going).mono sub,
    fun a later run => weaker a (emits.value a later run)⟩

theorem run_bind_congr {act act' : Load α} {next : α → Load β}
    (run : act.run.run session = act'.run.run later) :
    (act >>= next).run.run session = (act' >>= next).run.run later := by
  simp only [ExceptT.run_bind, StateT.run_bind, run]

theorem Emits.congr {act' : Load α} (emits : Emits floor location spots act session Q)
    (run : act'.run.run session = act.run.run session) :
    Emits floor location spots act' session Q :=
  ⟨fun result later ran => emits.complains result later (run ▸ ran),
    fun a later ran => emits.value a later (run ▸ ran)⟩

/-- What runs on from a later session adds its complaints to those so far. -/
theorem Emits.from {act' : Load α} (here : IsHere floor location session)
    (first : Complains floor location spots session later)
    (run : act'.run.run session = act.run.run later)
    (emits : Emits floor location spots' act later Q) (apart : Disjoint spots spots') :
    Emits floor location (spots ∪ spots') act' session Q :=
  ⟨fun result last ran going =>
      first.trans here (emits.complains result last (run ▸ ran) going) apart,
    fun a last ran => emits.value a last (run ▸ ran)⟩

theorem Emits.of_error {stop : Stop} (emits : Emits floor location spots act session Q)
    (run : act.run.run session = (.error stop, later)) (going : ∀ report, stop ≠ .rejected report) :
    Complains floor location spots session later :=
  emits.complains _ later run fun report same => going report (Except.error.inj same)

theorem emits_of_error {stop : Stop} (run : act.run.run session = (.error stop, later))
    (complains : (∀ report, stop ≠ .rejected report) →
      Complains floor location spots session later) :
    Emits floor location spots act session Q := by
  refine ⟨fun result last ran going => ?_, fun a last ran => ?_⟩
  · rw [run] at ran
    cases ran
    exact complains fun report same => going report (congrArg Except.error same)
  · rw [run] at ran
    cases ran

/-- What leaves the session as it is adds nothing. -/
theorem emits_still (still : (act.run.run session).2 = session)
    (value : ∀ a later, act.run.run session = (.ok a, later) → Q a) :
    Emits floor location spots act session Q := by
  refine ⟨fun result later run _ => ?_, value⟩
  rw [run] at still
  cases still
  exact complains_refl _

theorem emits_pure {a : α} (holds : Q a) : Emits floor location spots (pure a) session Q :=
  emits_still rfl fun b later run => by
    cases run
    exact holds

theorem emits_throw (stop : Stop) : Emits floor location spots (throw stop : Load α) session Q :=
  emits_still rfl nofun

theorem emits_check (x : Except Fault α) :
    Emits floor location spots (check x) session fun a => x = .ok a := by
  cases x with
  | ok a => exact emits_pure rfl
  | error fault => exact emits_throw _

theorem emits_checkUri (x : Except Uri.UriFault α) :
    Emits floor location spots (checkUri x) session fun a => x = .ok a :=
  (emits_check _).mono le_rfl fun _ => mapError_ok

theorem emits_bind (here : IsHere floor location session)
    (first : Emits floor location spots act session Q)
    (rest : ∀ a later, act.run.run session = (.ok a, later) → IsHere floor location later → Q a →
      Emits floor location spots' (next a) later R)
    (apart : Disjoint spots spots') :
    Emits floor location (spots ∪ spots') (act >>= next) session R := by
  cases run : act.run.run session with
  | mk result later =>
    cases result with
    | ok a =>
      have complains := first.complains _ later run nofun
      exact .from here complains (run_bind_ok run)
        (rest a later run (here.after complains) (first.value a later run)) apart
    | error stop =>
      exact (emits_of_error (run_bind_error run) (first.of_error run)).mono Set.subset_union_left
        fun _ => id

/-- What adds nothing comes first. -/
theorem emits_silent_bind (here : IsHere floor location session)
    (first : Emits floor location ∅ act session Q)
    (rest : ∀ a later, act.run.run session = (.ok a, later) → IsHere floor location later → Q a →
      Emits floor location spots (next a) later R) :
    Emits floor location spots (act >>= next) session R :=
  (emits_bind here first rest (Set.empty_disjoint _)).mono (Set.empty_union _).le fun _ => id

/-- What adds nothing comes last. -/
theorem emits_bind_silent (here : IsHere floor location session)
    (first : Emits floor location spots act session Q)
    (rest : ∀ a later, act.run.run session = (.ok a, later) → IsHere floor location later → Q a →
      Emits floor location ∅ (next a) later R) :
    Emits floor location spots (act >>= next) session R :=
  (emits_bind here first rest (Set.disjoint_empty _)).mono (Set.union_empty _).le fun _ => id

theorem disjoint_spots {spotsOf : γ → Set Spot} {x : γ} {rest : List γ}
    (others : ∀ y ∈ rest, Disjoint (spotsOf x) (spotsOf y)) :
    Disjoint (spotsOf x) {spot | ∃ y ∈ rest, spot ∈ spotsOf y} := by
  refine Set.disjoint_left.2 fun spot among => ?_
  rintro ⟨y, mem, among'⟩
  exact Set.disjoint_left.1 (others y mem) among among'

theorem spots_cons (spotsOf : γ → Set Spot) (x : γ) (rest : List γ) :
    spotsOf x ∪ {spot | ∃ y ∈ rest, spot ∈ spotsOf y} =
      {spot | ∃ y ∈ x :: rest, spot ∈ spotsOf y} := by
  ext spot
  simp only [Set.mem_union, Set.mem_ofPred_eq, List.mem_cons, exists_eq_or_imp]

theorem emits_mapM {spotsOf : γ → Set Spot} {act : γ → Load α} {xs : List γ}
    (each : ∀ x ∈ xs, ∀ session, IsHere floor location session →
      Emits floor location (spotsOf x) (act x) session fun _ => True)
    (apart : xs.Pairwise fun x y => Disjoint (spotsOf x) (spotsOf y))
    (here : IsHere floor location session) :
    Emits floor location {spot | ∃ x ∈ xs, spot ∈ spotsOf x} (xs.mapM act) session
      fun _ => True := by
  induction xs generalizing session with
  | nil => exact emits_pure trivial
  | cons x rest ih =>
    obtain ⟨others, apart⟩ := List.pairwise_cons.1 apart
    have later := fun y mem => each y (List.mem_cons_of_mem x mem)
    rw [List.mapM_cons, ← spots_cons]
    refine emits_bind here (each x List.mem_cons_self session here) (fun a s _ here _ => ?_)
      (disjoint_spots others)
    exact emits_bind_silent here (ih later apart here) fun _ _ _ _ _ => emits_pure trivial

theorem emits_foldlM {spotsOf : γ → Set Spot} {step : β → γ → Load β} {xs : List γ}
    (each : ∀ x ∈ xs, ∀ b session, IsHere floor location session → R b →
      Emits floor location (spotsOf x) (step b x) session R)
    (apart : xs.Pairwise fun x y => Disjoint (spotsOf x) (spotsOf y))
    (here : IsHere floor location session) {b : β} (holds : R b) :
    Emits floor location {spot | ∃ x ∈ xs, spot ∈ spotsOf x} (xs.foldlM step b) session R := by
  induction xs generalizing session b with
  | nil => exact emits_pure holds
  | cons x rest ih =>
    obtain ⟨others, apart⟩ := List.pairwise_cons.1 apart
    have later := fun y mem => each y (List.mem_cons_of_mem x mem)
    rw [List.foldlM_cons, ← spots_cons]
    exact emits_bind here (each x List.mem_cons_self b session here holds)
      (fun b s _ here holds => ih later apart here holds) (disjoint_spots others)

theorem emits_silent_foldlM {step : β → γ → Load β} {xs : List γ}
    (each : ∀ x ∈ xs, ∀ b session, IsHere floor location session →
      Emits floor location ∅ (step b x) session fun _ => True)
    (here : IsHere floor location session) (b : β) :
    Emits floor location ∅ (xs.foldlM step b) session fun _ => True := by
  have each : ∀ x ∈ xs, ∀ b session, IsHere floor location session → True →
      Emits floor location ((fun _ => ∅ : γ → Set Spot) x) (step b x) session fun _ => True :=
    fun x mem b session here _ => each x mem b session here
  refine (emits_foldlM each (List.pairwise_of_forall fun _ _ => Set.disjoint_empty _) here
    trivial).mono ?_ fun _ => id
  rintro _ ⟨_, _, among⟩
  exact among

/-! ### Issues -/

/-- An error is in the report afterwards, unless it ends the session. -/
theorem recordError_cases (loader : Loader) (code : IssueCode) (place : Location)
    (problem : Problem) (session : Session) :
    (∃ uri, place.absoluteUri = .ok uri ∧
      (recordError loader code place problem).run.run session =
        (.ok ⟨⟩, { session with report := session.report.add ⟨code, .error, uri, problem⟩ })) ∨
    ∃ stop later, (recordError loader code place problem).run.run session = (.error stop, later) ∧
      ((∃ report, stop = .rejected report) ∨ later = session) := by
  unfold recordError
  rw [bind_issueAt]
  cases address : place.absoluteUri with
  | error fault => exact .inr ⟨_, session, rfl, .inr rfl⟩
  | ok uri =>
    have recorded := run_record loader.options.strict ⟨code, .error, uri, problem⟩ session
    have known : (checkUri (.ok uri) : Load String) = pure uri := rfl
    rw [known, pure_bind]
    split at recorded
    · exact .inr ⟨_, _, recorded, .inl ⟨_, rfl⟩⟩
    · exact .inl ⟨uri, rfl, recorded⟩

theorem emits_record (strict : Bool) (of : spot.Of location issue) :
    Emits floor location {spot} (record strict issue) session fun _ => True := by
  refine ⟨fun result later run going => ?_, fun _ _ _ => trivial⟩
  have noted : Complains floor location {spot} session
      { session with report := session.report.add issue } :=
    ⟨Session.keeps_of_ledger rfl, fun ready => ⟨ready.handles, ready.proper⟩, [issue], rfl,
      List.pairwise_singleton _ _, fun other mem =>
        .inr (.inl ⟨spot, rfl, List.mem_singleton.1 mem ▸ of⟩)⟩
  rw [run_record] at run
  split at run
  · cases run
    exact absurd rfl (going _)
  · cases run
    exact noted

/-- An issue at a spot of the object. -/
theorem emits_issue {code : IssueCode} {level : IssueLevel} {place : Location} {problem : Problem}
    (here : IsHere floor location session) (strict : Bool) (tells : spot.Tells code problem)
    (same : place.place = (location.child spot.segments).place) :
    Emits floor location {spot} (issueAt code level place problem >>= record strict) session
      fun _ => True := by
  have issued : Emits floor location ∅ (issueAt code level place problem) session
      fun issue => spot.Of location issue := by
    unfold issueAt
    refine emits_silent_bind here (emits_checkUri _) fun uri later _ here ok => emits_pure ?_
    exact ⟨tells, (Location.absoluteUri_place same).symm.trans ok⟩
  exact emits_silent_bind here issued fun issue later _ here of => emits_record strict of

theorem ofFault_code (place : String) (fault : Fault) :
    (Spot.value key).Tells (Issue.ofFault place fault).code
      (Issue.ofFault place fault).problem := by
  cases fault with
  | keywordValue key reason => cases reason <;> simp [Spot.Tells, Issue.ofFault, ValueReason.code]
  | _ => simp [Spot.Tells, Issue.ofFault]

/-- A fault is written down at its member. -/
theorem emits_noted (here : IsHere floor location session) (fault : Fault) :
    Emits floor location {.value key} (checkUri (location.child [key]).absoluteUri >>= fun place =>
      record loader.options.strict (.ofFault place fault) >>= fun _ =>
        pure none : Load (Option α)) session fun found => found = none := by
  refine emits_silent_bind here (emits_checkUri _) fun place later _ here ok => ?_
  refine emits_bind_silent here (emits_record _ ⟨ofFault_code place fault, ?_⟩)
    fun _ _ _ _ _ => emits_pure rfl
  rw [ofFault_location]
  exact ok

theorem run_recordingFaults_ok {place : Location} {a : α}
    (run : act.run.run session = (.ok a, later)) :
    (recordingFaults loader place act).run.run session = (.ok (some a), later) := by
  unfold recordingFaults
  rw [map_eq_pure_bind]
  exact run_tryCatch_ok (run_bind_ok run)

theorem run_recordingFaults_noted {place : Location} {fault : Fault}
    (run : act.run.run session = (.error (.fault fault), later))
    (about : fault.isValueFault = true) :
    (recordingFaults loader place act).run.run session =
      (checkUri place.absoluteUri >>= fun uri =>
        record loader.options.strict (.ofFault uri fault) >>= fun _ =>
          pure none : Load (Option α)).run.run later := by
  unfold recordingFaults
  rw [map_eq_pure_bind]
  refine (run_tryCatch_error (run_bind_error run)).trans ?_
  dsimp only
  rw [if_pos about]

theorem run_recordingFaults_error (loader : Loader) (place : Location) {stop : Stop}
    (run : act.run.run session = (.error stop, later))
    (other : ∀ fault, stop = .fault fault → fault.isValueFault ≠ true) :
    (recordingFaults loader place act).run.run session = (.error stop, later) := by
  unfold recordingFaults
  rw [map_eq_pure_bind]
  refine (run_tryCatch_error (run_bind_error run)).trans ?_
  cases stop with
  | fault fault =>
    dsimp only
    rw [if_neg (other fault rfl)]
    rfl
  | rejected report => rfl

/-- A fault about the value of a member becomes an issue. What comes behind is silent then. -/
theorem emits_recordingFaults_bind {after total : Set Spot} {next : Option α → Load β}
    (here : IsHere floor location session) (body : Emits floor location spots act session Q)
    (found : ∀ a later, IsHere floor location later → Q a →
      Emits floor location after (next (some a)) later R)
    (lost : ∀ later, IsHere floor location later → Emits floor location ∅ (next none) later R)
    (unused : .value key ∉ spots) (apart : Disjoint spots after)
    (within : insert (.value key) spots ∪ after ⊆ total) :
    Emits floor location total
      (recordingFaults loader (location.child [key]) act >>= next) session R := by
  have inside : spots ⊆ total :=
    (Set.subset_insert _ _).trans (Set.subset_union_left.trans within)
  cases run : act.run.run session with
  | mk result later =>
    cases result with
    | ok a =>
      have complains := body.complains _ later run nofun
      refine (Emits.from here complains (run_bind_ok (run_recordingFaults_ok run))
        (found a later (here.after complains) (body.value a later run)) apart).mono ?_ fun _ => id
      exact Set.union_subset inside (Set.subset_union_right.trans within)
    | error stop =>
      by_cases about : ∃ fault, stop = .fault fault ∧ fault.isValueFault = true
      · obtain ⟨fault, rfl, about⟩ := about
        have complains := body.of_error run nofun
        refine (Emits.from here complains (run_bind_congr (run_recordingFaults_noted run about))
          (emits_bind_silent (here.after complains) (emits_noted (here.after complains) fault) ?_)
          (Set.disjoint_singleton_right.2 unused)).mono ?_ fun _ => id
        · rintro found last _ here rfl
          exact lost last here
        · rw [Set.union_singleton]
          exact Set.subset_union_left.trans within
      · have stopped := run_recordingFaults_error loader (location.child [key]) run
          fun fault same valued => about ⟨fault, same, valued⟩
        exact emits_of_error (run_bind_error stopped) fun going =>
          (body.of_error run going).mono inside

end Load

end JsonSchema
