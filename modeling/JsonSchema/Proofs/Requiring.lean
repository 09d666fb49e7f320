import JsonSchema.Proofs.Calls
import Mathlib.Data.List.Nodup

/-!
# Names of required properties

Calls on a builder gather names of required properties. A call keeps the names that are there and
puts behind them those of its own that are not among these (`SchemaBuilder.addNames`). So the first
mention of a name decides. It gives the name its position (`eraseDups_addAll`), and the list that
has it says how often it is stored (`count_addAll`): a name that one call mentions twice before any
other call does is stored twice, although the names are meant as a set.

The calls store each name once just if this does not happen (`addAll_eq_iff`), and what is stored is
what the check of the compiled schema asks for (`run_requires`).
-/

namespace JsonSchema

/-! ## Lists without repetitions -/

section Repetitions

variable {α : Type} [DecidableEq α]

theorem nodup_eraseDups (elements : List α) : elements.eraseDups.Nodup := by
  match elements with
  | [] => exact List.nodup_nil
  | first :: rest =>
    rw [List.eraseDups_cons, List.nodup_cons, List.mem_eraseDups]
    exact ⟨by simp, nodup_eraseDups _⟩
termination_by elements.length
decreasing_by exact Nat.lt_succ_of_le (List.length_filter_le _ rest)

theorem eraseDups_of_nodup {elements : List α} (distinct : elements.Nodup) :
    elements.eraseDups = elements := by
  induction elements with
  | nil => rfl
  | cons first rest ih =>
    obtain ⟨new, later⟩ := List.nodup_cons.1 distinct
    have all : (rest.filter fun other => !other == first) = rest := by
      refine List.filter_eq_self.2 fun other mem => ?_
      have differ : other ≠ first := fun same => new (same ▸ mem)
      simp [differ]
    rw [List.eraseDups_cons, all, ih later]

theorem eraseDups_filter (p : α → Bool) (elements : List α) :
    (elements.filter p).eraseDups = elements.eraseDups.filter p := by
  match elements with
  | [] => rfl
  | first :: rest =>
    have later := eraseDups_filter p (rest.filter fun other => !other == first)
    rw [List.eraseDups_cons]
    by_cases kept : p first = true
    · rw [List.filter_cons_of_pos kept, List.filter_cons_of_pos kept, List.eraseDups_cons, ← later,
        List.filter_comm]
    · -- where the first is left out, all that equals it is
      have others : (rest.filter fun other => !other == first).filter p = rest.filter p := by
        rw [List.filter_filter]
        refine List.filter_congr fun other _ => ?_
        by_cases same : other = first
        · simp [same, kept]
        · simp [same]
      rw [List.filter_cons_of_neg kept, List.filter_cons_of_neg kept, ← later, others]
termination_by elements.length
decreasing_by exact Nat.lt_succ_of_le (List.length_filter_le _ rest)

end Repetitions

namespace SchemaBuilder

/-! ## Names behind names -/

section Names

variable {known names : List String} {name : String}

/-- Known names, and behind them those of further names that are not known. -/
def addNames (known names : List String) : List String :=
  known ++ names.removeAll known

theorem mem_removeAll : name ∈ names.removeAll known ↔ name ∈ names ∧ name ∉ known := by
  simp [List.removeAll]

theorem mem_addNames : name ∈ addNames known names ↔ name ∈ known ++ names := by
  unfold addNames
  rw [List.mem_append, List.mem_append, mem_removeAll]
  tauto

theorem removeAll_addNames (known names more : List String) :
    more.removeAll (addNames known names) = more.removeAll (known ++ names) := by
  refine List.filter_congr fun name _ => ?_
  simp [mem_addNames]

theorem eraseDups_addNames (known names : List String) :
    (addNames known names).eraseDups = (known ++ names).eraseDups := by
  have again : (names.removeAll known).removeAll known = names.removeAll known :=
    List.filter_eq_self.2 fun name mem => (List.mem_filter.1 mem).2
  unfold addNames
  rw [List.eraseDups_append, List.eraseDups_append, again]

theorem count_addNames (known names : List String) (name : String) :
    (addNames known names).count name =
      if name ∈ known then known.count name else names.count name := by
  unfold addNames
  rw [List.count_append]
  split
  · next old =>
    rw [List.count_eq_zero_of_not_mem fun mem => (mem_removeAll.1 mem).2 old, Nat.add_zero]
  · next new =>
    rw [List.count_eq_zero_of_not_mem new, Nat.zero_add]
    exact List.count_filter (by simpa using new)

/-- Adding names at once or in two steps comes to the same just if the steps have no new name in
common. -/
theorem addNames_append_iff (known front behind : List String) :
    addNames known (front ++ behind) = addNames (addNames known front) behind ↔
      ∀ name ∈ front, name ∈ behind → name ∈ known := by
  have once : addNames known (front ++ behind) =
      known ++ front.removeAll known ++ behind.removeAll known := by
    unfold addNames List.removeAll
    rw [List.filter_append, List.append_assoc]
  have twice : addNames (addNames known front) behind =
      known ++ front.removeAll known ++ behind.removeAll (known ++ front) := by
    rw [← removeAll_addNames]
    rfl
  rw [once, twice, List.append_right_inj]
  constructor
  · intro same name mem again
    by_contra new
    have left : name ∈ behind.removeAll (known ++ front) := same ▸ mem_removeAll.2 ⟨again, new⟩
    exact (mem_removeAll.1 left).2 (List.mem_append_right _ mem)
  · intro shared
    refine List.filter_congr fun name mem => ?_
    by_cases old : name ∈ known
    · simp [old]
    · have apart : name ∉ front := fun first => old (shared name first mem)
      simp [old, apart]

/-- The names that are there after all of the lists, one after the other. -/
def addAll (known : List String) (calls : List (List String)) : List String :=
  calls.foldl addNames known

theorem eraseDups_addAll (known : List String) (calls : List (List String)) :
    (addAll known calls).eraseDups = (known :: calls).flatten.eraseDups := by
  induction calls generalizing known with
  | nil =>
    rw [List.flatten_singleton]
    rfl
  | cons names rest ih =>
    have later := ih (addNames known names)
    rw [List.flatten_cons, List.eraseDups_append, eraseDups_addNames, removeAll_addNames,
      ← List.eraseDups_append, List.append_assoc] at later
    exact later

/-- The first list that has a name. -/
def firstWith (name : String) (lists : List (List String)) : Option (List String) :=
  lists.find? (·.contains name)

theorem firstWith_of_mem (mem : name ∈ names) (rest : List (List String)) :
    firstWith name (names :: rest) = some names :=
  List.find?_cons_of_pos (List.contains_iff_mem.2 mem)

theorem firstWith_of_not_mem (absent : name ∉ names) (rest : List (List String)) :
    firstWith name (names :: rest) = firstWith name rest :=
  List.find?_cons_of_neg fun mem => absent (List.contains_iff_mem.1 mem)

theorem count_addAll (known : List String) (calls : List (List String)) (name : String) :
    (addAll known calls).count name =
      ((firstWith name (known :: calls)).map (·.count name)).getD 0 := by
  induction calls generalizing known with
  | nil =>
    by_cases old : name ∈ known
    · rw [firstWith_of_mem old]
      rfl
    · rw [firstWith_of_not_mem old]
      exact List.count_eq_zero_of_not_mem old
  | cons names rest ih =>
    change (addAll (addNames known names) rest).count name = _
    rw [ih]
    by_cases old : name ∈ known
    · have mem : name ∈ addNames known names := mem_addNames.2 (List.mem_append_left _ old)
      rw [firstWith_of_mem old, firstWith_of_mem mem, Option.map_some, count_addNames, if_pos old]
      rfl
    · rw [firstWith_of_not_mem old]
      by_cases new : name ∈ names
      · have mem : name ∈ addNames known names := mem_addNames.2 (List.mem_append_right _ new)
        rw [firstWith_of_mem new, firstWith_of_mem mem, Option.map_some, count_addNames, if_neg old]
        rfl
      · have absent : name ∉ addNames known names := fun mem =>
          (List.mem_append.1 (mem_addNames.1 mem)).elim old new
        rw [firstWith_of_not_mem new, firstWith_of_not_mem absent]

/-- Where a name comes first, it comes once. -/
def SayOnce (lists : List (List String)) : Prop :=
  ∀ name names, firstWith name lists = some names → names.count name = 1

theorem mem_of_firstWith {lists : List (List String)} (found : firstWith name lists = some names) :
    name ∈ names := by
  have has := List.find?_some found
  exact List.contains_iff_mem.1 has

theorem nodup_addAll_iff (known : List String) (calls : List (List String)) :
    (addAll known calls).Nodup ↔ SayOnce (known :: calls) := by
  rw [List.nodup_iff_count_le_one]
  constructor
  · intro most name names found
    have count := most name
    rw [count_addAll, found] at count
    exact le_antisymm count (List.one_le_count_iff.2 (mem_of_firstWith found))
  · intro once name
    rw [count_addAll]
    cases found : firstWith name (known :: calls) with
    | none => exact Nat.zero_le 1
    | some names => exact (once name names found).le

/-- What is there after all lists are their names, each once and in the order of first mention, just
if no list repeats a name that is new with it. -/
theorem addAll_eq_iff (known : List String) (calls : List (List String)) :
    addAll known calls = (known :: calls).flatten.eraseDups ↔ SayOnce (known :: calls) := by
  rw [← nodup_addAll_iff, ← eraseDups_addAll]
  constructor
  · intro same
    rw [same]
    exact nodup_eraseDups _
  · intro distinct
    exact (eraseDups_of_nodup distinct).symm

end Names

/-! ## Calls -/

/-- The builder with names behind those that are required already. -/
def require (builder : SchemaBuilder) (names : List String) : SchemaBuilder :=
  { builder with
    keywords := Members.put builder.keywords Builtin.required
      (.stringSet (addNames builder.requiredNames names)) }

theorem get_require (builder : SchemaBuilder) (names : List String) :
    (builder.require names).get? Builtin.required =
      some (.stringSet (addNames builder.requiredNames names)) := by
  unfold get? require
  rw [Members.lookup_put, if_pos rfl]

theorem requiredNames_require (builder : SchemaBuilder) (names : List String) :
    (builder.require names).requiredNames = addNames builder.requiredNames names := by
  rw [requiredNames, get_require]

/-- Nothing is wrong with any names. -/
theorem required_eq (builder : SchemaBuilder) (names : List String) :
    builder.required names = .ok (builder.require names) :=
  rfl

theorem Call.run_required (names : List String) (builder : SchemaBuilder) :
    (Call.required names).perform.run.run builder = (.ok (), builder.require names) := by
  rw [Call.run_perform, Call.apply, required_eq]
  rfl

theorem Call.after_required (names : List String) (builder : SchemaBuilder) :
    (Call.required names).after builder = builder.require names :=
  congrArg Prod.snd (Call.run_required names builder)

theorem run_foldl (calls : List (List String)) (builder : SchemaBuilder) :
    ((calls.map Call.required).forM Call.perform).run.run builder =
      (.ok (), calls.foldl require builder) := by
  induction calls generalizing builder with
  | nil => rfl
  | cons names rest ih =>
    rw [List.map_cons, List.foldl_cons, ← ih]
    exact run_bind_ok (Call.run_required names builder)

theorem requiredNames_foldl (calls : List (List String)) (builder : SchemaBuilder) :
    (calls.foldl require builder).requiredNames = addAll builder.requiredNames calls := by
  induction calls generalizing builder with
  | nil => rfl
  | cons names rest ih =>
    rw [List.foldl_cons, ih, requiredNames_require]
    rfl

/-- The names are stored once there was a call. -/
theorem get_foldl {calls : List (List String)} (some : calls ≠ []) (builder : SchemaBuilder) :
    (calls.foldl require builder).get? Builtin.required =
      Option.some (.stringSet (calls.foldl require builder).requiredNames) := by
  rcases calls.eq_nil_or_concat' with none | ⟨front, names, rfl⟩
  · exact absurd none some
  · rw [List.foldl_concat, get_require, requiredNames_require]

end SchemaBuilder

/-! ## Names that are not there -/

/-- What is said about names that are not there, if there are any. -/
def Complaint.ofMissing? : List String → Option Complaint
  | [] => none
  | [name] => some (.memberMissing name)
  | names => some (.membersMissing names)

namespace Check

/-- The check of a list of required names at a place. -/
def requiring (location : String) (names : List String) : Check :=
  { keyword := some Builtin.required, location, rule := .required names }

/-- Compiling makes this check of a list of names. -/
theorem checkOf_required (compiler : Compiler) (graph : SchemaGraph)
    (recur : Compile.SchemaCompiler) (owner : Schema) (location : String) (names : List String) :
    Compile.checkOf compiler graph recur owner location Builtin.required (.stringSet names) =
      pure (some (requiring (Place.join location [Builtin.required.key]) names)) := by
  have assertion : Assertion.ofKey? Builtin.required.key = some .required := by decide
  unfold Compile.checkOf
  rw [assertion]
  rfl

/-- The violation that names all that is not there. -/
def absence (location : String) (node : InstanceNode) (names : List String) : List Violation :=
  (Complaint.ofMissing? names).toList.map fun complaint =>
    .mk node.pointer location (some Builtin.required.key) (.keyword Builtin.required.key) complaint
      []

theorem run_requiring (location : String) (names : List String) (evaluate refer : Evaluator)
    {node : InstanceNode} {members : List (String × Json)} (object : node.value = .object members) :
    (requiring location names).run evaluate refer node =
      .ok (absence location node (missingNames members names)) := by
  have runs : (requiring location names).run evaluate refer node =
      (requiring location names).runRequired names node members := by
    unfold run onMembers
    rw [object]
    rfl
  rw [runs]
  unfold runRequired absence
  match missingNames members names with
  | [] => rfl
  | [name] => rfl
  | name :: other :: rest => rfl

end Check

namespace SchemaBuilder

/-- Calls with names of required properties go through. What is stored then are the known names and
those of all calls, in the order of first mention; each is stored once just if no call repeats a
name that was not mentioned before it. The check of what is stored names the members that are not
there, each once under the same condition. And names may be given in one call or in two just if the
two have no new name in common. -/
theorem run_requires (builder : SchemaBuilder) (calls : List (List String)) :
    (∃ last, ((calls.map Call.required).forM Call.perform).run.run builder = (.ok (), last) ∧
      (calls ≠ [] → last.get? Builtin.required = some (.stringSet last.requiredNames)) ∧
      last.requiredNames.eraseDups = (builder.requiredNames :: calls).flatten.eraseDups ∧
      (last.requiredNames = (builder.requiredNames :: calls).flatten.eraseDups ↔
        SayOnce (builder.requiredNames :: calls)) ∧
      ∀ location, ∃ check : Check,
        (∀ compiler graph recur owner, Compile.checkOf compiler graph recur owner location
          Builtin.required (.stringSet last.requiredNames) = pure (some check)) ∧
        ∀ evaluate refer node members, node.value = .object members → ∃ missing,
          check.run evaluate refer node = .ok (Check.absence check.location node missing) ∧
          missing.eraseDups = (builder.requiredNames :: calls).flatten.eraseDups.filter
            (fun name => (members.lookup name).isNone) ∧
          (SayOnce (builder.requiredNames :: calls) → missing.Nodup)) ∧
    ∀ front behind, ((Call.required (front ++ behind)).after builder).requiredNames =
        ((Call.required behind).after ((Call.required front).after builder)).requiredNames ↔
      ∀ name ∈ front, name ∈ behind → name ∈ builder.requiredNames := by
  constructor
  · have stored := requiredNames_foldl calls builder
    refine ⟨calls.foldl require builder, run_foldl calls builder,
      fun some => get_foldl some builder, ?_, ?_, fun location => ?_⟩
    · rw [stored, eraseDups_addAll]
    · rw [stored, addAll_eq_iff]
    · rw [stored]
      refine ⟨Check.requiring (Place.join location [Builtin.required.key]) _,
        fun compiler graph recur owner => Check.checkOf_required .., ?_⟩
      intro evaluate refer node members object
      refine ⟨_, Check.run_requiring _ _ evaluate refer object, ?_, fun once => ?_⟩
      · rw [Check.missingNames, eraseDups_filter, eraseDups_addAll]
      · exact ((nodup_addAll_iff _ _).2 once).filter _
  · intro front behind
    rw [Call.after_required, Call.after_required, Call.after_required]
    rw [requiredNames_require, requiredNames_require, requiredNames_require]
    exact addNames_append_iff ..

/-- The second call mentions a name again. -/
def overlapping : List (List String) :=
  [["a", "b"], ["b", "c"]]

/-- Each name is stored once, and an object with one of them lacks the others. -/
theorem overlapping_requires :
    SayOnce ([] :: overlapping) ∧ overlapping ≠ [] ∧ ∃ last,
      ((overlapping.map Call.required).forM Call.perform).run.run (.empty none .draft6) =
        (.ok (), last) ∧
      last.get? Builtin.required = some (.stringSet ["a", "b", "c"]) ∧
      ∃ check : Check, check.run (fun _ _ => .ok []) (fun _ _ => .ok [])
        (.root (.object [("b", .null)])) =
          .ok (Check.absence check.location (.root (.object [("b", .null)])) ["a", "c"]) := by
  have once : SayOnce ([] :: overlapping) := (addAll_eq_iff [] overlapping).1 (by decide)
  have some : overlapping ≠ [] := by decide
  obtain ⟨⟨last, ran, found, -, once_iff, checked⟩, -⟩ :=
    run_requires (.empty none .draft6) overlapping
  obtain ⟨check, -, runs⟩ := checked "#"
  obtain ⟨missing, run, order, distinct⟩ := runs (fun _ _ => .ok []) (fun _ _ => .ok [])
    (.root (.object [("b", .null)])) [("b", .null)] rfl
  rw [eraseDups_of_nodup (distinct once)] at order
  subst order
  refine ⟨once, some, last, ran, ?_, check, run⟩
  rw [found some, once_iff.2 once]
  rfl

/-- A call that repeats a name stores it twice. -/
example : ((Call.required ["a", "a"]).after (.empty none .draft6)).requiredNames = ["a", "a"] :=
  rfl

end SchemaBuilder

end JsonSchema
