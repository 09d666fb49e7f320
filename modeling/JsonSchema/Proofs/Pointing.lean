import JsonSchema.Proofs.Origins
import JsonSchema.Proofs.Ways

/-!
# Pointers of violations

The pointer of a violation is the written way to a node of the instance. A node stands in the
instance if steps to items and members lead to it (`InstanceNode.StandsIn`); its way then resolves
to its value, and other steps give another pointer. Only `propertyNames` goes on to a node that does
not stand in the instance, the name of a member, which has the way of that member.
-/

namespace JsonSchema

open Verdict

/-! ## Nodes of an instance -/

/-- A step from a value to an item or a member of it. -/
inductive Json.Step where
  | item (position : Nat)
  | member (name : String)

/-- The segment of a pointer for a step. -/
def Json.Step.segment : Json.Step → String
  | item position => toString position
  | member name => name

namespace InstanceNode

/-- The node that a step leads to. -/
def step? (node : InstanceNode) : Json.Step → Option InstanceNode
  | .item position =>
    match node.value with
    | .array items => items[position]?.map (node.item position)
    | _ => none
  | .member name =>
    match node.value with
    | .object members => (members.lookup name).map (node.child name)
    | _ => none

/-- The node that steps lead to, one after the other. -/
def at? (node : InstanceNode) : List Json.Step → Option InstanceNode
  | [] => some node
  | step :: rest => (node.step? step).bind (·.at? rest)

/-- A node stands in a value if steps lead to it. -/
def StandsIn (node : InstanceNode) (whole : Json) : Prop :=
  ∃ steps, (root whole).at? steps = some node

variable {node other : InstanceNode} {step : Json.Step} {whole : Json}

/-- What a step leads to: an item of an array, or a member of an object. -/
theorem step_cases (found : node.step? step = some other) :
    (∃ items position item, step = .item position ∧ node.value = .array items ∧
      items[position]? = some item ∧ other = node.item position item) ∨
    (∃ members name inner, step = .member name ∧ node.value = .object members ∧
      members.lookup name = some inner ∧ other = node.child name inner) := by
  cases step with
  | item position =>
    unfold step? at found
    dsimp only at found
    split at found
    · next items value =>
      obtain ⟨item, here, rfl⟩ := Option.map_eq_some_iff.1 found
      exact .inl ⟨items, position, item, rfl, value, here, rfl⟩
    · cases found
  | member name =>
    unfold step? at found
    dsimp only at found
    split at found
    · next members value =>
      obtain ⟨inner, here, rfl⟩ := Option.map_eq_some_iff.1 found
      exact .inr ⟨members, name, inner, rfl, value, here, rfl⟩
    · cases found

theorem path_step (found : node.step? step = some other) :
    other.path = node.path ++ [step.segment] := by
  rcases step_cases found with ⟨_, _, _, rfl, -, -, rfl⟩ | ⟨_, _, _, rfl, -, -, rfl⟩ <;> rfl

theorem resolve_step (found : node.step? step = some other) :
    Pointer.step node.value step.segment = .ok other.value := by
  rcases step_cases found with ⟨items, position, item, rfl, value, here, rfl⟩ |
    ⟨members, name, inner, rfl, value, here, rfl⟩
  · rw [value]
    exact Pointer.step_item (List.mem_zipIdx_iff_getElem?.2 here)
  · rw [value]
    exact Pointer.step_member here

/-- Steps from one node with the same segment are the same: an array has items only, an object has
members only. -/
theorem step_inj {step' : Json.Step} {other' : InstanceNode} (found : node.step? step = some other)
    (found' : node.step? step' = some other') (same : step.segment = step'.segment) :
    step = step' := by
  rcases step_cases found with ⟨_, position, _, rfl, value, -⟩ | ⟨_, _, _, rfl, value, -⟩ <;>
    rcases step_cases found' with ⟨_, position', _, rfl, value', -⟩ | ⟨_, _, _, rfl, value', -⟩
  · have positions : some position = some position' := by
      rw [← Pointer.index_toString position, ← Pointer.index_toString position']
      exact congrArg Pointer.index? same
    rw [Option.some.inj positions]
  · rw [value] at value'
    cases value'
  · rw [value] at value'
    cases value'
  · exact congrArg Json.Step.member same

variable {steps steps' : List Json.Step}

theorem at_cons {rest : List Json.Step} (found : node.at? (step :: rest) = some other) :
    ∃ next, node.step? step = some next ∧ next.at? rest = some other :=
  Option.bind_eq_some_iff.1 found

theorem at_append : node.at? (steps ++ steps') = (node.at? steps).bind (·.at? steps') := by
  induction steps generalizing node with
  | nil => rfl
  | cons step rest ih =>
    show (node.step? step).bind (·.at? (rest ++ steps')) = _
    cases here : node.step? step with
    | none => simp [at?, here]
    | some next => simpa [at?, here] using ih

theorem path_at (found : node.at? steps = some other) :
    other.path = node.path ++ steps.map Json.Step.segment := by
  induction steps generalizing node with
  | nil =>
    cases found
    exact (List.append_nil _).symm
  | cons step rest ih =>
    obtain ⟨next, here, found⟩ := at_cons found
    rw [ih found, path_step here, List.append_assoc]
    rfl

theorem resolve_at (found : node.at? steps = some other) :
    Pointer.resolve node.value (steps.map Json.Step.segment) = .ok other.value := by
  induction steps generalizing node with
  | nil =>
    cases found
    rfl
  | cons step rest ih =>
    obtain ⟨next, here, found⟩ := at_cons found
    have first : Pointer.resolve node.value [step.segment] = .ok next.value := by
      unfold Pointer.resolve Pointer.resolveFrom
      rw [resolve_step here]
      rfl
    exact Pointer.resolve_append first (ih found)

/-- Steps from one node with the same segments are the same. -/
theorem at_inj {other' : InstanceNode} (found : node.at? steps = some other)
    (found' : node.at? steps' = some other')
    (same : steps.map Json.Step.segment = steps'.map Json.Step.segment) : steps = steps' := by
  induction steps generalizing node steps' with
  | nil => exact (List.map_eq_nil_iff.1 same.symm).symm
  | cons step rest ih =>
    cases steps' with
    | nil => cases same
    | cons step' rest' =>
      obtain ⟨first, others⟩ := List.cons.inj same
      obtain ⟨next, here, found⟩ := at_cons found
      obtain ⟨next', here', found'⟩ := at_cons found'
      obtain rfl := step_inj here here' first
      obtain rfl : next = next' := Option.some.inj (here.symm.trans here')
      rw [ih found found' others]

/-- Different steps into a value give different pointers. -/
theorem steps_eq_of_pointer {node' : InstanceNode} (found : (root whole).at? steps = some node)
    (found' : (root whole).at? steps' = some node') (same : node.pointer = node'.pointer) :
    steps = steps' := by
  refine at_inj found found' ?_
  have texts : node.path.text = node'.path.text := String.append_right_inj _ |>.1 same
  have paths : node.path = node'.path := by
    have read := congrArg Pointer.parse texts
    rw [Pointer.parse_text, Pointer.parse_text] at read
    exact Except.ok.inj read
  rw [path_at found, path_at found'] at paths
  exact paths

/-! ### Nodes that stand in a value -/

theorem StandsIn.root (whole : Json) : (root whole).StandsIn whole :=
  ⟨[], rfl⟩

theorem StandsIn.next (stands : node.StandsIn whole) (found : node.step? step = some other) :
    other.StandsIn whole := by
  obtain ⟨steps, led⟩ := stands
  refine ⟨steps ++ [step], ?_⟩
  rw [at_append, led]
  show (node.step? step).bind some = some other
  rw [found]
  rfl

theorem StandsIn.resolve (stands : node.StandsIn whole) :
    Pointer.resolve whole node.path = .ok node.value := by
  obtain ⟨steps, led⟩ := stands
  have resolved := resolve_at led
  rw [path_at led]
  exact resolved

variable {items : List Json} {members : List (String × Json)} {name : String} {inner : Json}

theorem StandsIn.item (stands : node.StandsIn whole) {position : Nat}
    (value : node.value = .array items) (mem : (inner, position) ∈ items.zipIdx) :
    (node.item position inner).StandsIn whole := by
  have found : node.step? (.item position) = some (node.item position inner) := by
    unfold step?
    rw [value]
    dsimp only
    rw [List.mem_zipIdx_iff_getElem?.1 mem]
    rfl
  exact stands.next found

theorem StandsIn.child (stands : node.StandsIn whole) (proper : whole.IsProper)
    (value : node.value = .object members) (mem : (name, inner) ∈ members) :
    (node.child name inner).StandsIn whole := by
  have here : node.value.IsProper := Pointer.isProper_resolve stands.resolve proper
  rw [value] at here
  have found : node.step? (.member name) = some (node.child name inner) := by
    unfold step?
    rw [value]
    dsimp only
    rw [Members.lookup_of_mem here.1 mem]
    rfl
  exact stands.next found

/-- The way of a node leads somewhere in a value: to the value of the node, unless that is a text,
such as the name of a member that has this way. -/
def LiesIn (node : InstanceNode) (whole : Json) : Prop :=
  ∃ target, Pointer.resolve whole node.path = .ok target ∧
    (node.value = target ∨ ∃ text, node.value = .string text)

theorem StandsIn.lies (stands : node.StandsIn whole) : node.LiesIn whole :=
  ⟨node.value, stands.resolve, .inl rfl⟩

/-- A node that is no text and lies in a value has the way of its value. -/
theorem LiesIn.resolve (lies : node.LiesIn whole) (noText : ∀ text, node.value ≠ .string text) :
    Pointer.resolve whole node.path = .ok node.value := by
  obtain ⟨target, resolved, same | ⟨text, isText⟩⟩ := lies
  · rw [same]
    exact resolved
  · exact absurd isText (noText text)

/-- A child of a node lies in the value if the segment leads on from the value of the node. -/
theorem LiesIn.next (lies : node.LiesIn whole) (noText : ∀ text, node.value ≠ .string text)
    {segment : String} {target value : Json}
    (step : Pointer.step node.value segment = .ok target)
    (kind : value = target ∨ ∃ text, value = .string text) :
    (node.child segment value).LiesIn whole := by
  refine ⟨target, ?_, kind⟩
  have last : Pointer.resolve node.value [segment] = .ok target := by
    unfold Pointer.resolve Pointer.resolveFrom
    rw [step]
    rfl
  exact Pointer.resolve_append (lies.resolve noText) last

theorem LiesIn.item (lies : node.LiesIn whole) {position : Nat}
    (value : node.value = .array items) (mem : (inner, position) ∈ items.zipIdx) :
    (node.item position inner).LiesIn whole :=
  lies.next (by rw [value]; nofun) (by rw [value]; exact Pointer.step_item mem) (.inl rfl)

/-- The members of an object in a proper value are found by their names. -/
theorem LiesIn.step_member (lies : node.LiesIn whole) (proper : whole.IsProper)
    (value : node.value = .object members) (mem : (name, inner) ∈ members) :
    Pointer.step node.value name = .ok inner := by
  have here := Pointer.isProper_resolve (lies.resolve (by rw [value]; nofun)) proper
  rw [value] at here ⊢
  exact Pointer.step_member (Members.lookup_of_mem here.1 mem)

theorem LiesIn.child (lies : node.LiesIn whole) (proper : whole.IsProper)
    (value : node.value = .object members) (mem : (name, inner) ∈ members) :
    (node.child name inner).LiesIn whole :=
  lies.next (by rw [value]; nofun) (lies.step_member proper value mem) (.inl rfl)

theorem LiesIn.named (lies : node.LiesIn whole) (proper : whole.IsProper)
    (value : node.value = .object members) (known : name ∈ Members.keys members) :
    (node.child name (.string name)).LiesIn whole := by
  obtain ⟨⟨_, inner⟩, mem, rfl⟩ := List.mem_map.1 known
  exact lies.next (by rw [value]; nofun) (lies.step_member proper value mem) (.inr ⟨_, rfl⟩)

end InstanceNode

/-! ## Violations that point into an instance -/

namespace Violation

/-- The pointer of a violation is the mark of a fragment with the text of a way behind it. -/
def Points (v : Violation) (path : Pointer) : Prop :=
  ∃ text, v.pointer = "#" ++ text ∧ Pointer.parse text = .ok path

/-- The pointer of a violation leads somewhere in a value, and those of its causes go on from
there. -/
def PointsInto (whole : Json) (v : Violation) : Prop :=
  ∃ path target, v.Points path ∧ Pointer.resolve whole path = .ok target ∧
    ∀ cause ∈ v.causes, ∃ below, cause.Points (path ++ below)

/-- A violation is another one or a cause of it, however deep, but not below the names of
members. -/
def UnderPlain : Violation → Violation → Prop :=
  Relation.ReflTransGen fun cause v => cause ∈ v.causes ∧ v.keyword ≠ some "propertyNames"

variable {v : Violation} {node : InstanceNode} {whole : Json}

theorem points_of_pointer (same : v.pointer = node.pointer) : v.Points node.path :=
  ⟨node.path.text, same, Pointer.parse_text node.path⟩

/-- The pointer of a violation goes on from a node, and its tree points into a value. -/
structure GoesOn (whole : Json) (node : InstanceNode) (v : Violation) : Prop where
  behind : ∃ below, v.Points (node.path ++ below)
  tree : ∀ w : Violation, w.Under v → w.PointsInto whole

/-- A violation at a node whose causes go on from there. -/
theorem goesOn_of_causes (here : v.pointer = node.pointer) (lies : node.LiesIn whole)
    (causes : ∀ cause ∈ v.causes, cause.GoesOn whole node) : v.GoesOn whole node := by
  obtain ⟨target, resolved, -⟩ := lies
  have points := points_of_pointer here
  refine ⟨⟨[], by rwa [List.append_nil]⟩, forall_under ?_ fun cause mem =>
    (causes cause mem).tree⟩
  exact ⟨node.path, target, points, resolved, fun cause mem => (causes cause mem).behind⟩

/-- What goes on from a child of a node goes on from the node. -/
theorem GoesOn.up {segment : String} {value : Json} (h : v.GoesOn whole (node.child segment value)) :
    v.GoesOn whole node := by
  obtain ⟨⟨below, points⟩, tree⟩ := h
  refine ⟨⟨segment :: below, ?_⟩, tree⟩
  rwa [InstanceNode.child, List.append_assoc] at points

end Violation

section Tables

variable {table : Array Validator} {check : Check} {node spot : InstanceNode} {v : Violation}
  {whole : Json}

theorem Check.Raises.pointer (raises : check.Raises node spot v) : v.pointer = spot.pointer := by
  cases raises <;> rfl

/-- What a check raises points to the value it is run on, or to a member of it that it forbids. -/
theorem Check.Raises.spot_cases (raises : check.Raises node spot v) :
    spot = node ∨ v.causes = [] ∧ ∃ members name inner, node.value = .object members ∧
      (name, inner) ∈ members ∧ spot = node.child name inner := by
  cases raises with
  | forbidden _ value mem _ => exact .inr ⟨rfl, _, _, _, value, mem, rfl⟩
  | _ => exact .inl rfl

/-- The violations of a node that lies in a proper value go on from the node. -/
theorem Check.Origin.goesOn (proper : whole.IsProper) (lies : node.LiesIn whole)
    (origin : check.Origin (fun node v => node.LiesIn whole → v.GoesOn whole node) node v) :
    v.GoesOn whole node := by
  cases origin with
  | raised raises causes =>
    rcases raises.spot_cases with rfl | ⟨none, _, _, _, value, mem, rfl⟩
    · exact Violation.goesOn_of_causes raises.pointer lies fun cause mem => causes cause mem lies
    · refine (Violation.goesOn_of_causes raises.pointer (lies.child proper value mem) ?_).up
      rw [none]
      exact List.forall_mem_nil _
  | names _ value _ each =>
    refine Violation.goesOn_of_causes rfl lies fun cause mem => ?_
    obtain ⟨name, known, given⟩ := each cause mem
    exact (given (lies.named proper value known)).up
  | here given => exact given lies
  | item value mem given => exact (given (lies.item value mem)).up
  | member value mem given => exact (given (lies.child proper value mem)).up

/-- All that evaluation gives for a node that lies in a proper value goes on from there. -/
theorem goesOn_evaluateWithin (proper : whole.IsProper) (lies : node.LiesIn whole) (depth : Nat)
    (active : ActiveReferences) (id : ValidatorId) :
    Keeps (Violation.GoesOn whole node) (evaluateWithin table depth active id node) := by
  have all := @keeps_evaluateWithin table (fun node v => node.LiesIn whole → v.GoesOn whole node)
    (fun _ _ _ _ _ origin lies => origin.goesOn proper lies)
    (fun _ _ _ each lies =>
      Violation.goesOn_of_causes rfl lies fun cause mem => each cause mem lies)
    depth active id node
  exact fun found ok v mem => all found ok v mem lies

/-! ### Leaves -/

/-- A check of a table has raised a violation when it was run on a value inside another one, and the
violation points to the spot of the complaint. -/
structure Violation.IsRaisedIn (table : Array Validator) (whole : Json) (w : Violation)
    (check : Check) (node spot : InstanceNode) : Prop where
  listed : Listed table check
  /-- The value stands in the whole. -/
  stands : node.StandsIn whole
  /-- The check gives the violation when it is run on the value. -/
  finds : check.Finds table node w
  /-- The spot is the value itself, or a member of it that the check forbids. -/
  raises : check.Raises node spot w
  /-- The pointer of the violation leads to the spot. -/
  points : w.Points spot.path
  resolves : Pointer.resolve whole spot.path = .ok spot.value

/-- Every leaf with a keyword, but not below the names of members, is raised by a check. -/
def Violation.HasRaised (table : Array Validator) (whole : Json) (v : Violation) : Prop :=
  ∀ w : Violation, w.UnderPlain v → w.isLeaf = true → w.keyword.isSome = true →
    ∃ check node spot, w.IsRaisedIn table whole check node spot

/-- A tree has raised leaves if its root is none, or a raised one, and the trees of the causes
have. -/
theorem Violation.hasRaised_of_causes
    (root : v.isLeaf = true → v.keyword.isSome = true →
      ∃ check node spot, v.IsRaisedIn table whole check node spot)
    (causes : v.keyword ≠ some "propertyNames" → ∀ cause ∈ v.causes, cause.HasRaised table whole) :
    v.HasRaised table whole := by
  intro w under leaf named
  rcases Relation.ReflTransGen.cases_tail under with rfl | ⟨cause, below, mem, plain⟩
  · exact root leaf named
  · exact causes plain cause mem w below leaf named

/-- The spot of a violation that a check raises at a node of a proper value stands in it. -/
theorem Check.Raises.stands (raises : check.Raises node spot v) (proper : whole.IsProper)
    (stands : node.StandsIn whole) : spot.StandsIn whole := by
  rcases raises.spot_cases with rfl | ⟨-, _, _, _, value, mem, rfl⟩
  · exact stands
  · exact stands.child proper value mem

theorem Check.Origin.hasRaised (proper : whole.IsProper) (stands : node.StandsIn whole)
    (listed : Listed table check) (keyed : check.IsKeyed) (finds : check.Finds table node v)
    (origin : check.Origin (fun node v => node.StandsIn whole → v.HasRaised table whole) node v) :
    v.HasRaised table whole := by
  cases origin with
  | raised raises causes =>
    refine Violation.hasRaised_of_causes (fun _ _ => ?_) fun _ cause mem => causes cause mem stands
    exact ⟨check, node, _, listed, stands, finds, raises,
      Violation.points_of_pointer raises.pointer, (raises.stands proper stands).resolve⟩
  | names rule _ some _ =>
    refine Violation.hasRaised_of_causes (fun leaf _ => ?_) fun plain => ?_
    · exact absurd (List.isEmpty_iff.1 leaf) some
    · rw [IsKeyed, rule] at keyed
      exact absurd (congrArg Option.some keyed) plain
  | here given => exact given stands
  | item value mem given => exact given (stands.item value mem)
  | member value mem given => exact given (stands.child proper value mem)

theorem hasRaised_evaluateWithin (keyed : Keyed table) (proper : whole.IsProper)
    (stands : node.StandsIn whole) (depth : Nat) (active : ActiveReferences) (id : ValidatorId) :
    Keeps (Violation.HasRaised table whole) (evaluateWithin table depth active id node) := by
  have all := @keeps_evaluateWithin table
    (fun node v => node.StandsIn whole → v.HasRaised table whole)
    (fun check _ _ listed finds origin stands =>
      origin.hasRaised proper stands listed (keyed check listed) finds)
    (fun _ _ _ each stands => Violation.hasRaised_of_causes (fun _ named => nomatch named)
      fun _ cause mem => each cause mem stands)
    depth active id node
  exact fun found ok v mem => all found ok v mem stands

end Tables

/-- Violations point into the instance. The pointer of every violation of a tree is the text of a
way that leads somewhere in the instance, and those of its causes go on from there. A leaf with a
keyword that is not below the names of members is raised by a check when it is run on a value in
the instance, and its pointer leads to this value, or to the member of it that the check forbids.
Different steps into the instance give different pointers. -/
theorem CompiledSchema.ofSchema_points {compiler : Compiler} {graph : SchemaGraph}
    {schema : Schema} {compiled : CompiledSchema} {whole : Json} {report : Report}
    (ok : CompiledSchema.ofSchema compiler graph schema = .ok compiled) (proper : whole.IsProper)
    (run : compiled.validate whole = .ok report) :
    (∀ top ∈ report.violations, ∀ w : Violation, w.Under top → w.PointsInto whole) ∧
    (∀ top ∈ report.violations, ∀ w : Violation, w.UnderPlain top → w.isLeaf = true →
      w.keyword.isSome = true →
        ∃ check node spot, w.IsRaisedIn compiled.table whole check node spot) ∧
    ∀ steps steps' node node', (InstanceNode.root whole).at? steps = some node →
      (InstanceNode.root whole).at? steps' = some node' → node.pointer = node'.pointer →
        steps = steps' := by
  obtain ⟨found, evaluated, rest⟩ := except_bind_ok run
  cases rest
  have stands := InstanceNode.StandsIn.root whole
  refine ⟨fun top mem => ?_, fun top mem => ?_, fun _ _ _ _ => InstanceNode.steps_eq_of_pointer⟩
  · exact (goesOn_evaluateWithin proper stands.lies _ _ _ found evaluated top mem).tree
  · exact hasRaised_evaluateWithin (ofSchema_keyed ok) proper stands _ _ _ found evaluated top mem

/-! ### A forbidden member -/

namespace Forbidding

/-- A schema that forbids all members. -/
def root : Schema :=
  .node ⟨0⟩ none .draft6 [(Builtin.additionalProperties, .schema .never)]

/-- The graph of this schema. -/
def graph : SchemaGraph where
  handles := #[]
  nextNode := 1

/-- An object whose member has a name that has to be escaped. -/
def whole : Json :=
  .object [("a/b", .null)]

end Forbidding

theorem forbidding_points : ∃ compiled report,
    CompiledSchema.ofSchema Loop.compiler Forbidding.graph Forbidding.root = .ok compiled ∧
    Forbidding.whole.IsProper ∧ compiled.validate Forbidding.whole = .ok report ∧
    ∃ top, report.violations = [top] ∧ top.pointer = "#/a~1b" ∧
      ∃ check node spot, top.IsRaisedIn compiled.table Forbidding.whole check node spot := by
  obtain ⟨compiled, report, top, ok, run, only, pointer, leaf, named⟩ :
      ∃ compiled report, ∃ top : Violation,
        CompiledSchema.ofSchema Loop.compiler Forbidding.graph Forbidding.root = .ok compiled ∧
        compiled.validate Forbidding.whole = .ok report ∧ report.violations = [top] ∧
        top.pointer = "#/a~1b" ∧ top.isLeaf = true ∧ top.keyword.isSome = true :=
    ⟨_, _, _, rfl, rfl, rfl, by decide, rfl, rfl⟩
  have proper : Forbidding.whole.IsProper := ⟨by decide, trivial, trivial⟩
  have mem : top ∈ report.violations := by
    rw [only]
    exact List.mem_singleton_self top
  have raised := (CompiledSchema.ofSchema_points ok proper run).2.1 top mem top .refl leaf named
  exact ⟨compiled, report, ok, proper, run, top, only, pointer, raised⟩

end JsonSchema
