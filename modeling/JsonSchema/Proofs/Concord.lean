import JsonSchema.Proofs.Reordering

/-!
# Checks in other orders

Two verdicts agree if both are reached and either both have violations or neither has (`Agree`). The
violations themselves may differ: a combinator counts and gathers them in its order, and stops at
the first schema that settles the matter.

A reordered check agrees with the check on a reordered value, if the evaluations of the places that
its rule goes on to agree (`Check.agree_run`). It is enough that the check runs without a fault with
some evaluators, which depends on the value and on what the rule holds only: a number that compares
with the bound, say.
-/

namespace JsonSchema

/-! ## Verdicts that agree -/

/-- Both verdicts are reached, and both have violations or neither has. -/
def Agree (verdict verdict' : Verdict) : Prop :=
  ∃ P : Prop, Settles verdict P ∧ Settles verdict' P

section Agree

variable {x x' y y' : Verdict} {P Q : Prop}

theorem Settles.ok_nil_iff (settles : Settles x P) : x = .ok [] ↔ P := by
  obtain ⟨found, rfl, iff⟩ := settles
  rw [← iff, Except.ok.injEq]

theorem agree_of_iff (settles : Settles x P) (settles' : Settles y Q) (same : P ↔ Q) : Agree x y :=
  ⟨P, settles, settles'.congr same.symm⟩

theorem Agree.left (agree : Agree x y) : Settles x (x = .ok []) := by
  obtain ⟨P, settles, -⟩ := agree
  exact settles.congr settles.ok_nil_iff.symm

theorem Agree.right (agree : Agree x y) : Settles y (x = .ok []) := by
  obtain ⟨P, settles, settles'⟩ := agree
  exact settles'.congr settles.ok_nil_iff.symm

/-- A verdict that is reached agrees with itself. -/
theorem agree_refl (reached : ∃ found, x = .ok found) : Agree x x := by
  obtain ⟨found, rfl⟩ := reached
  exact ⟨found = [], ⟨found, rfl, .rfl⟩, ⟨found, rfl, .rfl⟩⟩

theorem agree_nil : Agree (.ok []) (.ok []) :=
  agree_refl ⟨[], rfl⟩

/-- Verdicts with violations agree. -/
theorem agree_cons (v v' : Violation) (vs vs' : List Violation) :
    Agree (.ok (v :: vs)) (.ok (v' :: vs')) :=
  ⟨False, ⟨_, rfl, by simp⟩, ⟨_, rfl, by simp⟩⟩

theorem agree_append (first : Agree x y) (second : Agree x' y') :
    Agree (do let found ← x; let found' ← x'; return found ++ found')
      (do let found ← y; let found' ← y'; return found ++ found') := by
  obtain ⟨P, settles, settles'⟩ := first
  obtain ⟨Q, others, others'⟩ := second
  exact ⟨P ∧ Q, Check.settles_append settles others, Check.settles_append settles' others'⟩

end Agree

namespace Check

variable {check check' : Check} {node node' : InstanceNode}
  {evaluate evaluate' refer refer' : Evaluator}

/-- Matching evaluations agree as a whole, in whatever order they come. -/
theorem agree_together {α β : Type} {f : α → Verdict} {g : β → Verdict} {xs : List α} {ys : List β}
    (matched : Matched (fun a b => Agree (f a) (g b)) xs ys) :
    Agree (together f xs) (together g ys) := by
  obtain ⟨zs, perm, each⟩ := matched
  have settles : Settles (together f xs) (∀ a ∈ xs, f a = .ok []) := by
    refine settles_together_self fun a mem => ?_
    obtain ⟨b, _, agree⟩ := exists_of_forall₂ each (perm.mem_iff.1 mem)
    exact agree.left
  have settles' : Settles (together g ys) (∀ a ∈ zs, f a = .ok []) :=
    settles_together (each.imp fun a b agree => agree.right)
  refine agree_of_iff settles settles' ?_
  simp only [perm.mem_iff]

/-- The same over one list in two orders. -/
theorem agree_together_perm {α : Type} {f g : α → Verdict} {xs ys : List α} (perm : xs.Perm ys)
    (each : ∀ a ∈ xs, Agree (f a) (g a)) : Agree (together f xs) (together g ys) := by
  refine agree_together ((Matched.of_perm (fun _ => rfl) perm).with_mem.imp ?_)
  rintro a _ ⟨mem, rfl⟩
  exact each a mem

/-! ## Demands of the check itself -/

section Coded

variable (code : check.HasCode) (code' : check'.HasCode)
include code code'

theorem agree_fails (complaint complaint' : Complaint) (causes causes' : List Violation) :
    Agree (check.fails node complaint causes) (check'.fails node' complaint' causes') :=
  ⟨False, settles_fails code _ _ id, settles_fails code' _ _ id⟩

theorem agree_demand {holds holds' : Bool} (same : holds = holds')
    (complaint complaint' : Complaint) :
    Agree (check.demand node holds complaint) (check'.demand node' holds' complaint') :=
  agree_of_iff (settles_demand code _ _) (settles_demand code' _ _) (by rw [same])

theorem agree_type (nodes : node.Reordered node') (types : List InstanceType) (test : Bool → Bool)
    (complaint : InstanceType → Complaint)
    (fits : ∃ found, (do
      let (holds, type) ← isOfType node types
      check.demand node (test holds) (complaint type)) = .ok found) :
    Agree (do
        let (holds, found) ← isOfType node types
        check.demand node (test holds) (complaint found))
      (do
        let (holds, found) ← isOfType node' types
        check'.demand node' (test holds) (complaint found)) := by
  cases typed : node.value.instanceType? with
  | none =>
    obtain ⟨found, ok⟩ := fits
    unfold isOfType InstanceNode.type at ok
    rw [typed] at ok
    cases ok
  | some type =>
    have typed' := nodes.value.instanceType_eq.symm.trans typed
    exact ⟨_, settles_type code typed types test complaint,
      settles_type code' typed' types test complaint⟩

theorem agree_least {least : Int} {complaint : Int → Nat → Complaint}
    (nodes : node.Reordered node')
    (fits : ∃ found, check.runLeast least complaint node = .ok found) :
    Agree (check.runLeast least complaint node) (check'.runLeast least complaint node') := by
  cases length : lengthOf? node.value with
  | none =>
    obtain ⟨found, ok⟩ := fits
    unfold runLeast at ok
    rw [length] at ok
    cases ok
  | some n =>
    have length' := nodes.value.lengthOf_eq.symm.trans length
    exact ⟨_, settles_least code length least complaint,
      settles_least code' length' least complaint⟩

theorem agree_most {most : Int} {complaint : Int → Nat → Complaint}
    (nodes : node.Reordered node')
    (fits : ∃ found, check.runMost most complaint node = .ok found) :
    Agree (check.runMost most complaint node) (check'.runMost most complaint node') := by
  cases length : lengthOf? node.value with
  | none =>
    obtain ⟨found, ok⟩ := fits
    unfold runMost at ok
    rw [length] at ok
    cases ok
  | some n =>
    have length' := nodes.value.lengthOf_eq.symm.trans length
    exact ⟨_, settles_most code length most complaint, settles_most code' length' most complaint⟩

/-! ## Schemas for the same value -/

section Same

variable {ids ids' : List ValidatorId} (perm : ids.Perm ids')
  (each : ∀ id ∈ ids, Agree (evaluate id node) (evaluate' id node'))
include perm each

omit code code' in
/-- Where the first evaluation of a schema finds nothing, and what this says of the second one. -/
theorem settles_both :
    List.Forall₂ (fun id id' => Settles (evaluate id' node) (evaluate id node = .ok [])) ids ids ∧
      List.Forall₂ (fun id id' => Settles (evaluate' id' node') (evaluate id node = .ok []))
        ids' ids' :=
  ⟨List.forall₂_same.2 fun id mem => (each id mem).left,
    List.forall₂_same.2 fun id mem => (each id (perm.mem_iff.2 mem)).right⟩

theorem agree_all :
    Agree (check.runAll evaluate ids node) (check'.runAll evaluate' ids' node') := by
  obtain ⟨first, second⟩ := settles_both perm each
  refine agree_of_iff (settles_all code first) (settles_all code' second) ?_
  simp only [perm.mem_iff]

theorem agree_any :
    Agree (check.runAny evaluate ids node) (check'.runAny evaluate' ids' node') := by
  obtain ⟨first, second⟩ := settles_both perm each
  refine agree_of_iff (settles_any code first) (settles_any code' second) ?_
  simp only [perm.mem_iff]

theorem agree_one :
    Agree (check.runOne evaluate ids node) (check'.runOne evaluate' ids' node') := by
  classical
  obtain ⟨first, second⟩ := settles_both perm each
  refine agree_of_iff (settles_alone code first) (settles_alone code' second) ?_
  rw [(perm.filter _).length_eq]

end Same

theorem agree_not {id : ValidatorId} (agree : Agree (evaluate id node) (evaluate' id node')) :
    Agree (check.runNot evaluate id node) (check'.runNot evaluate' id node') :=
  agree_of_iff (settles_not code agree.left) (settles_not code' agree.right) .rfl

end Coded

/-! ## Items -/

/-- Two evaluations of a place agree at the values inside a value and inside a reordered one. -/
def AgreeInside (evaluate evaluate' : Evaluator) (node node' : InstanceNode) (id : ValidatorId) :
    Prop :=
  ∀ segment inner inner', inner.IsInside node.value → inner.Reordered inner' →
    Agree (evaluate id (node.child segment inner)) (evaluate' id (node'.child segment inner'))

theorem exists_items {run : List Json → Verdict}
    (fits : ∃ found, check.onItems node run = .ok found) : ∃ items, node.value = .array items := by
  obtain ⟨found, ok⟩ := fits
  unfold onItems at ok
  split at ok
  · next items array => exact ⟨items, array⟩
  · cases ok

theorem exists_members {run : List (String × Json) → Verdict}
    (fits : ∃ found, check.onMembers node run = .ok found) :
    ∃ members, node.value = .object members := by
  obtain ⟨found, ok⟩ := fits
  unfold onMembers at ok
  split at ok
  · next members object => exact ⟨members, object⟩
  · cases ok

theorem forall₂_zip {ι α β : Type} {R : α → β → Prop} {xs : List α} {ys : List β}
    (each : List.Forall₂ R xs ys) (ids : List ι) :
    List.Forall₂ (fun a b => a.1 = b.1 ∧ a.1 ∈ ids ∧ R a.2 b.2) (ids.zip xs) (ids.zip ys) := by
  have zipped : List.Forall₂ (fun a b => a.1 = b.1 ∧ R a.2 b.2) (ids.zip xs) (ids.zip ys) := by
    induction each generalizing ids with
    | nil =>
      rw [List.zip_nil_right, List.zip_nil_right]
      exact .nil
    | cons first _ ih =>
      cases ids with
      | nil => exact .nil
      | cons id ids => exact .cons ⟨rfl, first⟩ (ih ids)
  have known := (List.forall₂_and_left _ _).2
    ⟨fun (a : ι × α) mem => (List.of_mem_zip (a := a.1) (b := a.2) mem).1, zipped⟩
  exact known.imp fun a b both => ⟨both.2.1, both.1, both.2.2⟩

section Items

variable {xs ys : List Json} (array : node.value = .array xs)
include array

theorem AgreeInside.item {id : ValidatorId} (h : AgreeInside evaluate evaluate' node node' id)
    {x y : Json} (mem : x ∈ xs) (related : x.Reordered y) (position : Nat) :
    Agree (evaluate id (node.item position x)) (evaluate' id (node'.item position y)) := by
  refine h (toString position) x y ?_ related
  rw [array]
  exact .item mem

/-- Items at the same positions of the two arrays. -/
def NumberedAlike (xs : List Json) (us vs : List (Json × Nat)) : Prop :=
  List.Forall₂ (fun a b => a.2 = b.2 ∧ a.1 ∈ xs ∧ a.1.Reordered b.1) us vs

omit array in
theorem numberedAlike (each : List.Forall₂ Json.Reordered xs ys) :
    NumberedAlike xs xs.zipIdx ys.zipIdx :=
  forall₂_zipIdx ((List.forall₂_and_left _ _).2 ⟨fun _ mem => mem, each⟩) 0

theorem agree_numbered {id : ValidatorId} (h : AgreeInside evaluate evaluate' node node' id)
    {us vs : List (Json × Nat)} (numbered : NumberedAlike xs us vs) :
    Agree (together (fun (item, position) => evaluate id (node.item position item)) us)
      (together (fun (item, position) => evaluate' id (node'.item position item)) vs) := by
  refine agree_together (.of_forall₂ (numbered.imp ?_))
  rintro ⟨x, position⟩ ⟨y, position'⟩ ⟨same, mem, related⟩
  cases same
  exact h.item array mem related position

variable (each : List.Forall₂ Json.Reordered xs ys)
include each

theorem agree_listed {schemas : List ValidatorId}
    (listed : ∀ id ∈ schemas, AgreeInside evaluate evaluate' node node' id) :
    Agree
      (together (fun (schema, item, position) => evaluate schema (node.item position item))
        (schemas.zip xs.zipIdx))
      (together (fun (schema, item, position) => evaluate' schema (node'.item position item))
        (schemas.zip ys.zipIdx)) := by
  refine agree_together (.of_forall₂ ((forall₂_zip (numberedAlike each) schemas).imp ?_))
  rintro ⟨id, x, position⟩ ⟨id', y, position'⟩ ⟨rfl, known, same, mem, related⟩
  cases same
  exact (listed id known).item array mem related position

theorem agree_each {schemas : List ValidatorId} {additional : Option ValidatorId} (forbid : Bool)
    (place : String) (listed : ∀ id ∈ schemas, AgreeInside evaluate evaluate' node node' id)
    (more : ∀ id ∈ additional, AgreeInside evaluate evaluate' node node' id) :
    Agree (runEach evaluate schemas additional forbid place node xs)
      (runEach evaluate' schemas additional forbid place node' ys) := by
  obtain ⟨P, ⟨found, ok, iff⟩, ⟨found', ok', iff'⟩⟩ := agree_listed array each listed
  unfold runEach
  rw [ok, ok', each.length_eq]
  simp only [bind, Except.bind]
  by_cases short : ys.length ≤ schemas.length
  · rw [if_pos short, if_pos short]
    exact ⟨P, ⟨found, rfl, iff⟩, ⟨found', rfl, iff'⟩⟩
  rw [if_neg short, if_neg short]
  cases forbid with
  | true =>
    have code : ErrorCode.keywordKeys.contains Builtin.additionalItems.key = true := by decide
    rw [if_pos rfl, if_pos rfl, codeOf_ok code]
    exact ⟨False, ⟨_, rfl, by simp⟩, ⟨_, rfl, by simp⟩⟩
  | false =>
    rw [if_neg Bool.false_ne_true, if_neg Bool.false_ne_true]
    cases additional with
    | none => exact ⟨P, ⟨found, rfl, iff⟩, ⟨found', rfl, iff'⟩⟩
    | some id =>
      have rest := agree_numbered array (more id rfl)
        (List.forall₂_drop schemas.length (numberedAlike each))
      obtain ⟨Q, ⟨others, there, iff_rest⟩, ⟨others', there', iff_rest'⟩⟩ := rest
      dsimp only at there there' ⊢
      rw [there, there']
      refine ⟨P ∧ Q, ⟨_, rfl, ?_⟩, ⟨_, rfl, ?_⟩⟩
      · rw [List.append_eq_nil_iff, iff, iff_rest]
      · rw [List.append_eq_nil_iff, iff', iff_rest']

omit each in
/-- The search for an item that is accepted ends at the same position. -/
theorem someItem_agree {id : ValidatorId} (h : AgreeInside evaluate evaluate' node node' id)
    {us vs : List (Json × Nat)} (numbered : NumberedAlike xs us vs) :
    ∃ found, someItem evaluate id node us = .ok found ∧
      someItem evaluate' id node' vs = .ok found := by
  induction numbered with
  | nil => exact ⟨false, rfl, rfl⟩
  | @cons a b us vs first _ ih =>
    obtain ⟨x, position⟩ := a
    obtain ⟨y, position'⟩ := b
    obtain ⟨same, mem, related⟩ := first
    cases same
    obtain ⟨P, ⟨found, ok, iff⟩, ⟨found', ok', iff'⟩⟩ := h.item array mem related position
    have same : found.isEmpty = found'.isEmpty := by
      rw [Bool.eq_iff_iff, List.isEmpty_iff, List.isEmpty_iff, iff, iff']
    unfold someItem
    rw [ok, ok']
    simp only [bind, Except.bind, same]
    cases found'.isEmpty with
    | true => exact ⟨true, rfl, rfl⟩
    | false => exact ih

theorem agree_contains (code : check.HasCode) (code' : check'.HasCode) {id : ValidatorId}
    (h : AgreeInside evaluate evaluate' node node' id) :
    Agree (check.runContains evaluate id node xs) (check'.runContains evaluate' id node' ys) := by
  obtain ⟨found, ok, ok'⟩ := someItem_agree array h (numberedAlike each)
  unfold runContains
  rw [ok, ok']
  exact agree_demand code code' rfl _ _

theorem agree_unique (code : check.HasCode) (code' : check'.HasCode)
    (proper : node.value.IsProper) :
    Agree (check.runUnique node xs) (check'.runUnique node' ys) := by
  rw [array] at proper
  have proper_items : ∀ x ∈ xs, x.IsProper := fun x => proper.item
  have known : List.Forall₂ (fun x y => x ∈ xs ∧ x.Reordered y) xs ys :=
    (List.forall₂_and_left _ _).2 ⟨fun _ mem => mem, each⟩
  have proper_others : ∀ y ∈ ys, y.IsProper := by
    intro y mem
    obtain ⟨x, mem', _, related⟩ := exists_of_forall₂ known.flip mem
    exact related.isProper (proper_items x mem')
  refine agree_of_iff (settles_unique code proper_items) (settles_unique code' proper_others) ?_
  exact Json.Reordered.pairwise_equals (known.imp fun x y both => ⟨proper_items x both.1, both.2⟩)

end Items

/-! ## Members -/

section Members

variable {xs ys : List (String × Json)} (object : node.value = .object xs)

include object in
theorem AgreeInside.member {id : ValidatorId} (h : AgreeInside evaluate evaluate' node node' id)
    {name : String} {x y : Json} (mem : (name, x) ∈ xs) (related : x.Reordered y) :
    Agree (evaluate id (node.child name x)) (evaluate' id (node'.child name y)) := by
  refine h name x y ?_ related
  rw [object]
  exact .member mem

variable (matched : Matched (Members.Paired Json.Reordered) xs ys)
include matched

/-- Reordered objects have members of the same names. -/
theorem isNone_lookup_eq (distinct : (Members.keys xs).Nodup) (name : String) :
    (xs.lookup name).isNone = (ys.lookup name).isNone := by
  have related := Members.lookup_of_matched distinct matched name
  generalize xs.lookup name = here at related
  generalize ys.lookup name = there at related
  cases related <;> rfl

theorem missingNames_eq (distinct : (Members.keys xs).Nodup) (names : List String) :
    missingNames xs names = missingNames ys names := by
  unfold missingNames
  simp only [isNone_lookup_eq matched distinct]

theorem agree_required (code : check.HasCode) (code' : check'.HasCode)
    (distinct : (Members.keys xs).Nodup) (names : List String) :
    Agree (check.runRequired names node xs) (check'.runRequired names node' ys) := by
  refine agree_of_iff (settles_required code names) (settles_required code' names) ?_
  rw [← missingNames_eq_nil, ← missingNames_eq_nil, missingNames_eq matched distinct]

include object

theorem agree_properties {schemas schemas' : List (String × ValidatorId)}
    {required required' : List (String × String)} (perm : schemas.Perm schemas')
    (flags : required.Perm required') (distinct : (Members.keys xs).Nodup)
    (h : ∀ entry ∈ schemas, AgreeInside evaluate evaluate' node node' entry.2) :
    Agree (runProperties evaluate schemas required node xs)
      (runProperties evaluate' schemas' required' node' ys) := by
  refine agree_together_perm perm ?_
  rintro ⟨name, id⟩ mem
  have related := Members.lookup_of_matched distinct matched name
  dsimp only
  cases found : xs.lookup name <;> cases found' : ys.lookup name <;> rw [found, found'] at related
  case some.some x y =>
    cases related with
    | some inner => exact (h (name, id) mem).member object (Members.mem_of_lookup found) inner
  case none.none =>
    have flagged : (required.lookup name).isSome = (required'.lookup name).isSome := by
      rw [Bool.eq_iff_iff, List.lookup_isSome_iff, List.lookup_isSome_iff]
      simp only [flags.mem_iff]
    cases here : required.lookup name <;> cases there : required'.lookup name <;>
      rw [here, there] at flagged
    case some.some =>
      have code : ErrorCode.keywordKeys.contains Builtin.required.key = true := by decide
      dsimp only
      rw [codeOf_ok code]
      exact agree_cons _ _ _ _
    case none.none => exact agree_nil
    all_goals cases flagged
  all_goals cases related

theorem agree_patterns {schemas schemas' : List ((String → Bool) × ValidatorId)}
    (perm : schemas.Perm schemas')
    (h : ∀ entry ∈ schemas, AgreeInside evaluate evaluate' node node' entry.2) :
    Agree (runPatterns evaluate schemas node xs) (runPatterns evaluate' schemas' node' ys) := by
  refine agree_together (matched.with_mem.imp ?_)
  rintro ⟨name, x⟩ ⟨name', y⟩ ⟨mem, same, related⟩
  cases same
  refine agree_together_perm perm ?_
  rintro ⟨search, id⟩ known
  dsimp only
  by_cases found : search name = true
  · rw [if_pos found, if_pos found]
    exact (h (search, id) known).member object mem related
  · rw [if_neg found, if_neg found]
    exact agree_nil

theorem agree_additional (code : check.HasCode) (code' : check'.HasCode) {id : ValidatorId}
    (forbid : Bool) {declared declared' : List String} {patterns patterns' : List (String → Bool)}
    (names : declared.Perm declared') (searches : patterns.Perm patterns')
    (h : AgreeInside evaluate evaluate' node node' id) :
    Agree (check.runAdditional evaluate id forbid declared patterns node xs)
      (check'.runAdditional evaluate' id forbid declared' patterns' node' ys) := by
  have additional : ∀ name,
      isAdditional declared patterns name = isAdditional declared' patterns' name := by
    intro name
    unfold isAdditional
    rw [Bool.eq_iff_iff]
    simp [names.mem_iff, searches.mem_iff]
  have kept := matched.with_mem.filter (p := fun member => isAdditional declared patterns member.1)
    (q := fun member => isAdditional declared' patterns' member.1)
    fun x y both => by rw [additional, both.2.1]
  refine agree_together (kept.imp ?_)
  rintro ⟨name, x⟩ ⟨name', y⟩ ⟨mem, same, related⟩
  cases same
  cases forbid with
  | true => exact agree_fails code code' _ _ _ _
  | false => exact h.member object mem related

theorem agree_names (code : check.HasCode) (code' : check'.HasCode) {id : ValidatorId}
    (h : AgreeInside evaluate evaluate' node node' id) :
    Agree (check.runNames evaluate id node xs) (check'.runNames evaluate' id node' ys) := by
  have perm : (Members.keys xs).Perm (Members.keys ys) :=
    matched.perm_map fun _ _ paired => paired.1
  have each : ∀ name ∈ Members.keys xs, Agree (evaluate id (node.child name (.string name)))
      (evaluate' id (node'.child name (.string name))) := by
    intro name mem
    obtain ⟨⟨name, x⟩, member, rfl⟩ := List.mem_map.1 mem
    refine h name (.string name) (.string name) ?_ (.refl _)
    rw [object]
    exact .name member
  obtain ⟨P, ⟨found, ok, iff⟩, ⟨found', ok', iff'⟩⟩ := agree_together_perm perm each
  unfold runNames
  rw [ok, ok']
  simp only [bind, Except.bind]
  by_cases holds : P
  · rw [iff.2 holds, iff'.2 holds]
    exact agree_nil
  · rw [if_neg fun none => holds (iff.1 (List.isEmpty_iff.1 none)),
      if_neg fun none => holds (iff'.1 (List.isEmpty_iff.1 none))]
    exact agree_fails code code' _ _ _ _

omit object in
theorem agree_dependencies (code : check.HasCode) (code' : check'.HasCode)
    (distinct : (Members.keys xs).Nodup) {names names' : List (String × List String)}
    {schemas schemas' : List (String × ValidatorId)} (needs : names.Perm names')
    (perm : schemas.Perm schemas')
    (h : ∀ entry ∈ schemas, Agree (evaluate entry.2 node) (evaluate' entry.2 node')) :
    Agree (check.runDependencies evaluate names schemas node xs)
      (check'.runDependencies evaluate' names' schemas' node' ys) := by
  have absent := isNone_lookup_eq matched distinct
  refine agree_append (agree_together_perm needs ?_) (agree_together_perm perm ?_)
  · rintro ⟨name, needed⟩ -
    dsimp only
    rw [absent, missingNames_eq matched distinct]
    split
    · exact agree_nil
    · exact agree_demand code code' rfl _ _
  · rintro ⟨name, id⟩ mem
    dsimp only
    rw [absent]
    split
    · exact agree_nil
    · exact h (name, id) mem

end Members

/-! ## Rules -/

/-- A check that can say what is wrong by itself, where its rule has to. -/
def IsCoded (check : Check) : Prop :=
  match check.rule with
  | .properties .. | .patternProperties _ | .reference _ | .items .. | .nothing => True
  | _ => check.HasCode

/-- Two evaluations agree on the places that a rule goes on to from a value and a reordered one. -/
structure AgreeOn (rule : Rule) (node node' : InstanceNode)
    (evaluate refer evaluate' refer' : Evaluator) : Prop where
  here : ∀ use id, (use, id) ∈ rule.uses → use = .beside ∨ use = .judged →
    Agree (evaluate id node) (evaluate' id node')
  target : ∀ id, (.target, id) ∈ rule.uses → Agree (refer id node) (refer' id node')
  inside : ∀ id, (.inside, id) ∈ rule.uses → AgreeInside evaluate evaluate' node node' id

section Kinds

variable (nodes : node.Reordered node')
include nodes

theorem agree_onItems {run₀ run run' : List Json → Verdict}
    (fits : ∃ found, check.onItems node run₀ = .ok found)
    (h : ∀ xs ys, node.value = .array xs → List.Forall₂ Json.Reordered xs ys →
      Agree (run xs) (run' ys)) :
    Agree (check.onItems node run) (check'.onItems node' run') := by
  obtain ⟨xs, array⟩ := exists_items fits
  have values := nodes.value
  rw [array] at values
  obtain ⟨ys, array', each⟩ := values.array
  unfold onItems
  rw [array, array']
  exact h xs ys array each

theorem agree_onMembers {run₀ run run' : List (String × Json) → Verdict}
    (proper : node.value.IsProper) (fits : ∃ found, check.onMembers node run₀ = .ok found)
    (h : ∀ xs ys, node.value = .object xs → (Members.keys xs).Nodup →
      Matched (Members.Paired Json.Reordered) xs ys → Agree (run xs) (run' ys)) :
    Agree (check.onMembers node run) (check'.onMembers node' run') := by
  obtain ⟨xs, object⟩ := exists_members fits
  have values := nodes.value
  rw [object] at values proper
  obtain ⟨ys, object', matched⟩ := values.object
  unfold onMembers
  rw [object, object']
  exact h xs ys object proper.1 matched

/-- A value on which a check runs is the same in any order, if the check does not work with arrays
and objects. -/
theorem eq_of_misfit (fits : ∃ found, check.run evaluate refer node = .ok found)
    (noArray : ∀ items, check.run evaluate refer { node with value := .array items } =
      check.misfit)
    (noObject : ∀ members, check.run evaluate refer { node with value := .object members } =
      check.misfit) : node' = node := by
  obtain ⟨found, ok⟩ := fits
  obtain ⟨v, path⟩ := node
  obtain ⟨w, path'⟩ := node'
  obtain ⟨same, values⟩ := nodes
  cases same
  have scalar : v = w := by
    refine values.eq_of_scalar ?_ ?_
    · rintro items rfl
      cases ok.symm.trans (noArray items)
    · rintro members rfl
      cases ok.symm.trans (noObject members)
  rw [scalar]

end Kinds

/-- A check agrees with a reordered one on a reordered value, if the places that its rule goes on to
do and it runs without a fault with some evaluators. -/
theorem agree_run (checks : check.Reordered check') (nodes : node.Reordered node')
    (proper : node.value.IsProper) (code : check.IsCoded)
    (fits : ∃ evaluate₀ refer₀ found, check.run evaluate₀ refer₀ node = .ok found)
    (h : AgreeOn check.rule node node' evaluate refer evaluate' refer') :
    Agree (check.run evaluate refer node) (check'.run evaluate' refer' node') := by
  obtain ⟨keyword, location, rule⟩ := check
  obtain ⟨keyword', location', rule'⟩ := check'
  obtain ⟨same, same', rules⟩ := checks
  cases same
  cases same'
  obtain ⟨evaluate₀, refer₀, fits⟩ := fits
  cases rules with
  | allOf perm =>
    exact agree_all code code perm fun id mem =>
      h.here .beside id (List.mem_map_of_mem mem) (.inl rfl)
  | anyOf perm =>
    exact agree_any code code perm fun id mem =>
      h.here .beside id (List.mem_map_of_mem mem) (.inl rfl)
  | oneOf perm =>
    exact agree_one code code perm fun id mem =>
      h.here .judged id (List.mem_map_of_mem mem) (.inr rfl)
  | properties perm flags =>
    exact agree_onMembers nodes proper fits fun xs ys object distinct matched =>
      agree_properties object matched perm flags distinct fun entry mem =>
        h.inside entry.2 (mem_uses_map mem)
  | patternProperties perm =>
    exact agree_onMembers nodes proper fits fun xs ys object _ matched =>
      agree_patterns object matched perm fun entry mem => h.inside entry.2 (mem_uses_map mem)
  | additionalProperties schema forbid names searches =>
    exact agree_onMembers nodes proper fits fun xs ys object _ matched =>
      agree_additional object matched code code forbid names searches
        (h.inside schema List.mem_cons_self)
  | dependencies needs perm =>
    exact agree_onMembers nodes proper fits fun xs ys object distinct matched =>
      agree_dependencies matched code code distinct needs perm fun entry mem =>
        h.here .beside entry.2 (mem_uses_map mem) (.inl rfl)
  | fixed isFixed =>
    cases rule with
    | allOf | anyOf | oneOf | properties | patternProperties | additionalProperties
    | dependencies => exact isFixed.elim
    | type types =>
      exact agree_type code code nodes types id (fun found => .wrongType types found.name) fits
    | disallow types =>
      exact agree_type code code nodes types (!·) (fun found => .disallowedType found.name) fits
    | enum values =>
      have equal : node.value.equals = node'.value.equals := funext nodes.value.equals_left
      exact agree_demand code code (congrArg values.any equal) _ _
    | const value => exact agree_demand code code (nodes.value.equals_left value) _ _
    | not schema => exact agree_not code code (h.here .judged schema List.mem_cons_self (.inr rfl))
    | reference target => exact h.target target List.mem_cons_self
    | multipleOf | minimum | maximum | pattern | format =>
      rw [eq_of_misfit nodes fits (fun _ => rfl) fun _ => rfl]
      exact agree_refl fits
    | minLength least | minItems least | minProperties least =>
      exact agree_least code code nodes fits
    | maxLength most | maxItems most | maxProperties most => exact agree_most code code nodes fits
    | items every each additional forbid place =>
      have inside : ∀ id ∈ every.toList ++ each.getD [] ++ additional.toList,
          AgreeInside evaluate evaluate' node node' id :=
        fun id mem => h.inside id (List.mem_map_of_mem mem)
      refine agree_onItems nodes fits fun xs ys array alike => ?_
      cases each with
      | some schemas =>
        refine agree_each array alike forbid place (fun id mem => inside id ?_)
          (fun id more => inside id ?_)
        · exact List.mem_append_left _ (List.mem_append_right _ mem)
        · exact List.mem_append_right _ (Option.mem_toList.2 more)
      | none =>
        cases every with
        | some schema => exact agree_numbered array (inside schema (by simp)) (numberedAlike alike)
        | none => exact agree_nil
    | uniqueItems =>
      exact agree_onItems nodes fits fun xs ys array each =>
        agree_unique array each code code proper
    | contains schema =>
      exact agree_onItems nodes fits fun xs ys array each =>
        agree_contains array each code code (h.inside schema List.mem_cons_self)
    | required names =>
      exact agree_onMembers nodes proper fits fun xs ys object distinct matched =>
        agree_required matched code code distinct names
    | propertyNames schema =>
      exact agree_onMembers nodes proper fits fun xs ys object _ matched =>
        agree_names object matched code code (h.inside schema List.mem_cons_self)
    | nothing => exact agree_cons _ _ _ _
    | unfit kind =>
      obtain ⟨found, ok⟩ := fits
      cases ok

end Check

end JsonSchema
