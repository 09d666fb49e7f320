import JsonSchema.Proofs.Checking
import JsonSchema.Proofs.Restating

/-!
# Other orders

The keywords of a schema, the schemas of a combinator, the entries of a map and the members of an
object come in some order, which says nothing. A rule is reordered if its schemas or the entries of
its maps come in another order (`Rule.Reordered`), and a table if this holds of the rules in it and
the checks of its schemas may come in another order too (`Validator.AreReordered`). Positions mean
something: the schemas for single items stay in their places, and so do the items of a value.

A value is reordered by restating it with every number kept (`Json.Reordered`). Reordered values are
two arrays, two objects, or the same (`Json.Reordered.cases`), and they cannot be told apart by
their types, their lengths or what they are equal to.
-/

namespace JsonSchema

/-! ## Matching lists -/

namespace Matched

variable {α β γ : Type} {R : α → β → Prop} {S : β → γ → Prop} {T : α → γ → Prop} {xs : List α}
  {ys : List β} {zs : List γ}

theorem of_perm {R : α → α → Prop} {xs ys : List α} (refl : ∀ x, R x x) (perm : xs.Perm ys) :
    Matched R xs ys :=
  ⟨ys, perm, List.forall₂_same.2 fun x _ => refl x⟩

theorem trans (first : Matched R xs ys) (second : Matched S ys zs)
    (both : ∀ x y z, R x y → S y z → T x z) : Matched T xs zs := by
  obtain ⟨us, perm, each⟩ := first
  obtain ⟨vs, perm', each'⟩ := second
  have exchanged : Relation.Comp List.Perm (List.Forall₂ R) us vs := by
    rw [← List.forall₂_comp_perm_eq_perm_comp_forall₂]
    exact ⟨ys, each, perm'⟩
  obtain ⟨ws, perm'', each''⟩ := exchanged
  refine ⟨ws, perm.trans perm'', (forall₂_comp each'' each').imp ?_⟩
  rintro x z ⟨y, related, related'⟩
  exact both x y z related related'

/-- Related elements may be known to be in the first list. -/
theorem with_mem (matched : Matched R xs ys) : Matched (fun x y => x ∈ xs ∧ R x y) xs ys := by
  obtain ⟨zs, perm, each⟩ := matched
  exact ⟨zs, perm, (List.forall₂_and_left _ _).2 ⟨fun x mem => perm.mem_iff.2 mem, each⟩⟩

theorem imp {R' : α → β → Prop} (matched : Matched R xs ys) (more : ∀ x y, R x y → R' x y) :
    Matched R' xs ys := by
  obtain ⟨zs, perm, each⟩ := matched
  exact ⟨zs, perm, each.imp more⟩

end Matched

namespace Members

variable {κ α β : Type} [DecidableEq κ] {R : α → β → Prop} {xs : List (κ × α)}
  {ys : List (κ × β)}

/-- Matching members of distinct names have related values under each name. -/
theorem lookup_of_matched (distinct : (keys xs).Nodup) (matched : Matched (Paired R) xs ys)
    (name : κ) : Option.Rel R (xs.lookup name) (ys.lookup name) := by
  have perm : (keys xs).Perm (keys ys) := matched.perm_map fun _ _ paired => paired.1
  cases found : ys.lookup name with
  | some y =>
    obtain ⟨x, found', related⟩ := exists_lookup distinct matched (mem_of_lookup found)
    rw [found']
    exact .some related
  | none =>
    have absent : name ∉ keys xs := by
      intro mem
      obtain ⟨⟨name, y⟩, mem', rfl⟩ := List.mem_map.1 (perm.mem_iff.1 mem)
      rw [lookup_of_mem (perm.nodup_iff.1 distinct) mem'] at found
      cases found
    rw [lookup_eq_none.2 absent]
    exact .none

end Members

/-! ## Values -/

namespace Json

variable {exchange : Number → Number → Prop} {v w x y : Json}

theorem IsProper.inside (proper : v.IsProper) (inside : x.IsInside v) : x.IsProper := by
  cases inside with
  | item mem => exact proper.item mem
  | member mem => exact proper.member mem
  | name => exact isProper_string _

theorem Restated.isProper (restated : Restated exchange v w) : v.IsProper → w.IsProper := by
  induction restated with
  | refl => exact id
  | trans _ _ ih ih' => exact fun proper => ih' (ih proper)
  | number => exact fun _ => trivial
  | @reorder members members' perm =>
    rintro ⟨distinct, each⟩
    refine ⟨(perm.map Prod.fst).nodup_iff.1 distinct, (areProperMembers_iff _).2 ?_⟩
    exact fun member mem => (areProperMembers_iff _).1 each member (perm.mem_iff.2 mem)
  | @item x y front back _ ih =>
    intro proper
    have each := (areProper_iff _).1 proper
    refine (areProper_iff _).2 fun item mem => ?_
    rcases mem_middle.1 mem with rfl | mem
    · exact ih (each x (by simp))
    · exact each item (mem_middle.2 (.inr mem))
  | @member x y front name back _ ih =>
    rintro ⟨distinct, proper⟩
    have each := (areProperMembers_iff _).1 proper
    refine ⟨by simpa [Members.keys] using distinct, (areProperMembers_iff _).2 ?_⟩
    intro member mem
    rcases mem_middle.1 mem with rfl | mem
    · exact ih (each (name, x) (by simp))
    · exact each member (mem_middle.2 (.inr mem))

theorem depthOfItems_append (xs ys : List Json) :
    depthOfItems (xs ++ ys) = max (depthOfItems xs) (depthOfItems ys) := by
  induction xs with
  | nil => simp [depthOfItems]
  | cons x xs ih => simp [depthOfItems, ih, max_assoc]

theorem depthOfMembers_append (xs ys : List (String × Json)) :
    depthOfMembers (xs ++ ys) = max (depthOfMembers xs) (depthOfMembers ys) := by
  induction xs with
  | nil => simp [depthOfMembers]
  | cons x xs ih => simp [depthOfMembers, ih, max_assoc]

theorem depthOfMembers_perm {xs ys : List (String × Json)} (perm : xs.Perm ys) :
    depthOfMembers xs = depthOfMembers ys := by
  induction perm with
  | nil => rfl
  | cons x _ ih => simp [depthOfMembers, ih]
  | swap x y xs => simp only [depthOfMembers, max_left_comm]
  | trans _ _ ih ih' => exact ih.trans ih'

theorem Restated.depth_eq (restated : Restated exchange v w) : v.depth = w.depth := by
  induction restated with
  | refl | number => rfl
  | trans _ _ ih ih' => exact ih.trans ih'
  | reorder perm => simp only [depth, depthOfMembers_perm perm]
  | item front back _ ih => simp only [depth, depthOfItems_append, depthOfItems, ih]
  | member front name back _ ih => simp only [depth, depthOfMembers_append, depthOfMembers, ih]

/-- A value is the other one with the members of its objects in another order. -/
abbrev Reordered : Json → Json → Prop :=
  Restated Eq

namespace Reordered

/-- Reordered values are arrays or objects whose items or members are reordered, or the same. -/
theorem cases (reordered : v.Reordered w) :
    (∃ xs ys, v = .array xs ∧ w = .array ys ∧ List.Forall₂ Reordered xs ys) ∨
      (∃ xs ys, v = .object xs ∧ w = .object ys ∧ Matched (Members.Paired Reordered) xs ys) ∨
      v = w := by
  induction reordered with
  | refl => exact .inr (.inr rfl)
  | number same => exact .inr (.inr (congrArg Json.number same))
  | reorder perm =>
    exact .inr (.inl ⟨_, _, rfl, rfl, .of_perm (fun member => ⟨rfl, .refl _⟩) perm⟩)
  | item front back inner _ =>
    refine .inl ⟨_, _, rfl, rfl, List.rel_append ?_ (.cons inner ?_)⟩
    · exact List.forall₂_same.2 fun item _ => .refl item
    · exact List.forall₂_same.2 fun item _ => .refl item
  | member front name back inner _ =>
    refine .inr (.inl ⟨_, _, rfl, rfl, .of_forall₂ (List.rel_append ?_ (.cons ⟨rfl, inner⟩ ?_))⟩)
    · exact List.forall₂_same.2 fun member _ => ⟨rfl, .refl _⟩
    · exact List.forall₂_same.2 fun member _ => ⟨rfl, .refl _⟩
  | trans _ _ ih ih' =>
    rcases ih with ⟨xs, ys, rfl, rfl, each⟩ | ⟨xs, ys, rfl, rfl, matched⟩ | rfl
    · rcases ih' with ⟨ys', zs, same, rfl, each'⟩ | ⟨_, _, same, _⟩ | rfl
      · cases same
        refine .inl ⟨xs, zs, rfl, rfl, (forall₂_comp each each').imp ?_⟩
        rintro x z ⟨y, first, second⟩
        exact .trans first second
      · cases same
      · exact .inl ⟨xs, ys, rfl, rfl, each⟩
    · rcases ih' with ⟨_, _, same, _⟩ | ⟨ys', zs, same, rfl, matched'⟩ | rfl
      · cases same
      · cases same
        refine .inr (.inl ⟨xs, zs, rfl, rfl, matched.trans matched' ?_⟩)
        rintro x y z ⟨name, first⟩ ⟨name', second⟩
        exact ⟨name.trans name', .trans first second⟩
      · exact .inr (.inl ⟨xs, ys, rfl, rfl, matched⟩)
    · exact ih'

theorem array {xs : List Json} (reordered : (Json.array xs).Reordered w) :
    ∃ ys, w = .array ys ∧ List.Forall₂ Reordered xs ys := by
  rcases reordered.cases with ⟨_, ys, same, rfl, each⟩ | ⟨_, _, same, _⟩ | rfl
  · cases same
    exact ⟨ys, rfl, each⟩
  · cases same
  · exact ⟨xs, rfl, List.forall₂_same.2 fun item _ => .refl item⟩

theorem object {xs : List (String × Json)} (reordered : (Json.object xs).Reordered w) :
    ∃ ys, w = .object ys ∧ Matched (Members.Paired Reordered) xs ys := by
  rcases reordered.cases with ⟨_, _, same, _⟩ | ⟨_, ys, same, rfl, matched⟩ | rfl
  · cases same
  · cases same
    exact ⟨ys, rfl, matched⟩
  · exact ⟨xs, rfl, .of_perm (fun member => ⟨rfl, .refl _⟩) (.refl xs)⟩

/-- Only arrays and objects have another order. -/
theorem eq_of_scalar (reordered : v.Reordered w) (noArray : ∀ items, v ≠ .array items)
    (noObject : ∀ members, v ≠ .object members) : v = w := by
  rcases reordered.cases with ⟨xs, _, same, _⟩ | ⟨xs, _, same, _⟩ | same
  · exact absurd same (noArray xs)
  · exact absurd same (noObject xs)
  · exact same

theorem instanceType_eq (reordered : v.Reordered w) : v.instanceType? = w.instanceType? := by
  rcases reordered.cases with ⟨_, _, rfl, rfl, _⟩ | ⟨_, _, rfl, rfl, _⟩ | rfl <;> rfl

theorem lengthOf_eq (reordered : v.Reordered w) : Check.lengthOf? v = Check.lengthOf? w := by
  rcases reordered.cases with ⟨_, _, rfl, rfl, each⟩ | ⟨_, _, rfl, rfl, matched⟩ | rfl
  · exact congrArg some each.length_eq
  · exact congrArg some matched.length_eq
  · rfl

/-- Whether an array is equal to another value, where one of its items is replaced by one that is
equal to the same values. -/
theorem forall₂_equals_middle (same : ∀ other, x.equals other = y.equals other)
    (front back : List Json) {others : List Json} :
    List.Forall₂ (fun x y => x.equals y = true) (front ++ x :: back) others ↔
      List.Forall₂ (fun x y => x.equals y = true) (front ++ y :: back) others := by
  induction front generalizing others with
  | nil => simp [List.forall₂_cons_left_iff, same]
  | cons first front ih => simp [List.forall₂_cons_left_iff, ih]

/-- Reordered values are equal to the same values. -/
theorem equals_left (reordered : v.Reordered w) (other : Json) :
    v.equals other = w.equals other := by
  induction reordered generalizing other with
  | refl => rfl
  | trans _ _ ih ih' => exact (ih other).trans (ih' other)
  | number same => rw [same]
  | reorder perm =>
    rw [Bool.eq_iff_iff, equals_object_iff, equals_object_iff]
    simp only [perm.length_eq, perm.mem_iff]
  | item front back _ ih =>
    rw [Bool.eq_iff_iff, equals_array_iff, equals_array_iff]
    simp only [forall₂_equals_middle ih front back]
  | @member x y front name back _ ih =>
    rw [Bool.eq_iff_iff, equals_object_iff, equals_object_iff]
    have lengths : (front ++ (name, x) :: back).length = (front ++ (name, y) :: back).length := by
      simp
    refine exists_congr fun members => and_congr_right fun _ => ?_
    rw [lengths]
    refine and_congr_right fun _ => ?_
    simp only [mem_middle, or_imp, forall_and, Prod.mk.injEq, and_imp]
    refine and_congr_left fun _ => ?_
    simp only [forall_eq_apply_imp_iff, forall_eq, ih]

/-- Whether two proper values are equal is known from reordered ones. -/
theorem equals_eq (first : v.Reordered w) (second : x.Reordered y) (proper : w.IsProper)
    (proper' : x.IsProper) : v.equals x = w.equals y := by
  have back : w.equals x = x.equals w :=
    Bool.eq_iff_iff.2 ⟨equals_symm w proper proper', equals_symm x proper' proper⟩
  have there : y.equals w = w.equals y :=
    Bool.eq_iff_iff.2 ⟨equals_symm y (second.isProper proper') proper,
      equals_symm w proper (second.isProper proper')⟩
  rw [first.equals_left, back, second.equals_left, there]

/-- Whether two of some proper items are equal is known from reordered ones. -/
theorem pairwise_equals {xs ys : List Json}
    (each : List.Forall₂ (fun x y => x.IsProper ∧ x.Reordered y) xs ys) :
    (xs.Pairwise fun x y => x.equals y = false) ↔ ys.Pairwise fun x y => x.equals y = false := by
  induction each with
  | nil => simp
  | @cons x y xs ys first rest ih =>
    obtain ⟨proper, here⟩ := first
    have same : ∀ a b, a.IsProper ∧ a.Reordered b → x.equals a = y.equals b := by
      rintro a b ⟨proper', there⟩
      exact here.equals_eq there (here.isProper proper) proper'
    rw [List.pairwise_cons, List.pairwise_cons, ih]
    refine and_congr_left fun _ => ⟨fun apart b mem => ?_, fun apart a mem => ?_⟩
    · obtain ⟨a, mem', related⟩ := exists_of_forall₂ rest.flip mem
      rw [← same a b related]
      exact apart a mem'
    · obtain ⟨b, mem', related⟩ := exists_of_forall₂ rest mem
      rw [same a b related]
      exact apart b mem'

end Reordered

end Json

/-- A value in another order at the same place. -/
structure InstanceNode.Reordered (node node' : InstanceNode) : Prop where
  path : node'.path = node.path
  value : node.value.Reordered node'.value

theorem InstanceNode.Reordered.child {node node' : InstanceNode} {v w : Json}
    (reordered : node.Reordered node') (segment : String) (inner : v.Reordered w) :
    (node.child segment v).Reordered (node'.child segment w) :=
  ⟨congrArg (· ++ [segment]) reordered.path, inner⟩

/-! ## Tables -/

/-- A rule without a combinator's schemas and without maps. -/
def Rule.IsFixed : Rule → Prop
  | .allOf _ | .anyOf _ | .oneOf _ | .properties .. | .patternProperties _
  | .additionalProperties .. | .dependencies .. => False
  | _ => True

/-- A rule with its schemas, or the entries of its maps, in another order. -/
inductive Rule.Reordered : Rule → Rule → Prop
  | fixed {rule : Rule} (isFixed : rule.IsFixed) : Reordered rule rule
  | allOf {schemas schemas' : List ValidatorId} (perm : schemas.Perm schemas') :
    Reordered (.allOf schemas) (.allOf schemas')
  | anyOf {schemas schemas' : List ValidatorId} (perm : schemas.Perm schemas') :
    Reordered (.anyOf schemas) (.anyOf schemas')
  | oneOf {schemas schemas' : List ValidatorId} (perm : schemas.Perm schemas') :
    Reordered (.oneOf schemas) (.oneOf schemas')
  | properties {schemas schemas' : List (String × ValidatorId)}
    {required required' : List (String × String)} (perm : schemas.Perm schemas')
    (flags : required.Perm required') :
    Reordered (.properties schemas required) (.properties schemas' required')
  | patternProperties {schemas schemas' : List ((String → Bool) × ValidatorId)}
    (perm : schemas.Perm schemas') :
    Reordered (.patternProperties schemas) (.patternProperties schemas')
  | additionalProperties {declared declared' : List String}
    {patterns patterns' : List (String → Bool)} (schema : ValidatorId) (forbid : Bool)
    (names : declared.Perm declared') (searches : patterns.Perm patterns') :
    Reordered (.additionalProperties schema forbid declared patterns)
      (.additionalProperties schema forbid declared' patterns')
  | dependencies {names names' : List (String × List String)}
    {schemas schemas' : List (String × ValidatorId)} (needs : names.Perm names')
    (perm : schemas.Perm schemas') :
    Reordered (.dependencies names schemas) (.dependencies names' schemas')

theorem Rule.Reordered.refl (rule : Rule) : rule.Reordered rule := by
  cases rule with
  | allOf schemas => exact .allOf (.refl schemas)
  | anyOf schemas => exact .anyOf (.refl schemas)
  | oneOf schemas => exact .oneOf (.refl schemas)
  | properties schemas required => exact .properties (.refl schemas) (.refl required)
  | patternProperties schemas => exact .patternProperties (.refl schemas)
  | additionalProperties schema forbid declared patterns =>
    exact .additionalProperties schema forbid (.refl declared) (.refl patterns)
  | dependencies names schemas => exact .dependencies (.refl names) (.refl schemas)
  | _ => exact .fixed trivial

/-- A check whose rule is reordered. -/
structure Check.Reordered (check check' : Check) : Prop where
  keyword : check'.keyword = check.keyword
  location : check'.location = check.location
  rule : check.rule.Reordered check'.rule

/-- A compiled schema whose checks are reordered and come in another order. -/
structure Validator.Reordered (validator validator' : Validator) : Prop where
  location : validator'.location = validator.location
  checks : Matched Check.Reordered validator.checkList validator'.checkList

/-- A table with a reordered schema at each place. -/
def Validator.AreReordered (table table' : Array Validator) : Prop :=
  ∀ i : Nat, Option.Rel Validator.Reordered table[i]? table'[i]?

theorem Check.Reordered.refl (check : Check) : check.Reordered check :=
  ⟨rfl, rfl, .refl _⟩

/-- A rule with its schemas, or the entries of its maps, the other way round. -/
def Rule.reversed : Rule → Rule
  | .allOf schemas => .allOf schemas.reverse
  | .anyOf schemas => .anyOf schemas.reverse
  | .oneOf schemas => .oneOf schemas.reverse
  | .properties schemas flags => .properties schemas.reverse flags.reverse
  | .patternProperties schemas => .patternProperties schemas.reverse
  | .additionalProperties schema forbid declared patterns =>
    .additionalProperties schema forbid declared.reverse patterns.reverse
  | .dependencies names schemas => .dependencies names.reverse schemas.reverse
  | rule => rule

/-- A compiled schema with everything the other way round. -/
def Validator.reversed (validator : Validator) : Validator where
  location := validator.location
  checks := validator.checks.map fun checks =>
    (checks.map fun check => { check with rule := check.rule.reversed }).reverse

theorem Rule.reordered_reversed (rule : Rule) : rule.Reordered rule.reversed := by
  cases rule with
  | allOf => exact .allOf (List.reverse_perm _).symm
  | anyOf => exact .anyOf (List.reverse_perm _).symm
  | oneOf => exact .oneOf (List.reverse_perm _).symm
  | properties => exact .properties (List.reverse_perm _).symm (List.reverse_perm _).symm
  | patternProperties => exact .patternProperties (List.reverse_perm _).symm
  | additionalProperties schema forbid =>
    exact .additionalProperties schema forbid (List.reverse_perm _).symm (List.reverse_perm _).symm
  | dependencies => exact .dependencies (List.reverse_perm _).symm (List.reverse_perm _).symm
  | _ => exact .fixed trivial

/-- Every table may be reversed. -/
theorem Validator.areReordered_reversed (table : Array Validator) :
    AreReordered table (table.map reversed) := by
  intro i
  rw [Array.getElem?_map]
  cases table[i]? with
  | none => exact .none
  | some validator =>
    refine .some ⟨rfl, ?_⟩
    obtain ⟨location, checks⟩ := validator
    cases checks with
    | none => exact .of_forall₂ .nil
    | some checks =>
      refine ⟨checks.reverse, (List.reverse_perm checks).symm, ?_⟩
      change List.Forall₂ Check.Reordered checks.reverse
        (checks.map fun check => { check with rule := check.rule.reversed }).reverse
      rw [← List.map_reverse, List.forall₂_map_right_iff]
      exact List.forall₂_same.2 fun check _ => ⟨rfl, rfl, check.rule.reordered_reversed⟩

namespace Validator.AreReordered

variable {table table' : Array Validator}

theorem get (reordered : AreReordered table table') {i : Nat} {validator : Validator}
    (found : table[i]? = some validator) :
    ∃ validator', table'[i]? = some validator' ∧ validator.Reordered validator' := by
  have here := reordered i
  rw [found] at here
  cases there : table'[i]? with
  | none =>
    rw [there] at here
    cases here
  | some validator' =>
    rw [there] at here
    cases here with
    | some related => exact ⟨validator', rfl, related⟩

theorem size_eq (reordered : AreReordered table table') : table.size = table'.size := by
  refine Nat.le_antisymm ?_ ?_
  · have beyond := reordered table'.size
    rw [Array.getElem?_eq_none (Nat.le_refl table'.size)] at beyond
    cases found : table[table'.size]? with
    | none => exact Array.getElem?_eq_none_iff.1 found
    | some validator =>
      rw [found] at beyond
      cases beyond
  · have beyond := reordered table.size
    rw [Array.getElem?_eq_none (Nat.le_refl table.size)] at beyond
    cases found : table'[table.size]? with
    | none => exact Array.getElem?_eq_none_iff.1 found
    | some validator =>
      rw [found] at beyond
      cases beyond

/-- The bound of evaluation does not depend on the order. -/
theorem evaluationBound_eq (reordered : AreReordered table table') {v w : Json}
    (values : v.Reordered w) : evaluationBound table v = evaluationBound table' w := by
  unfold evaluationBound
  rw [reordered.size_eq, values.depth_eq]

end Validator.AreReordered

end JsonSchema
