import JsonSchema.Proofs.Uniqueness
import Mathlib.Data.List.Forall2
import Mathlib.Data.Rat.Lemmas

/-!
# What checks find

`Settles verdict P` says that a verdict is reached, and that it has no violations exactly if `P`
holds. For each kind of check there is a lemma that says what it settles, given what the evaluation
of the schemas below it settles. Faults do not occur: a check of a keyword that applies to a value
works with values of its type.

* `settles_together`, `settles_all`, `settles_any`, `settles_one`, `settles_not`: several verdicts.
* `settles_every`, `settles_each`, `settles_unique`, `settles_contains`: items.
* `settles_properties`, `settles_patterns`, `settles_additional`, `settles_required`,
  `settles_names`, `settles_dependencies`: members.
-/

namespace JsonSchema

/-- A verdict that is reached and has no violations exactly if `P` holds. -/
def Settles (verdict : Verdict) (P : Prop) : Prop :=
  ∃ found, verdict = .ok found ∧ (found = [] ↔ P)

theorem Settles.congr {verdict : Verdict} {P Q : Prop} (h : Settles verdict P) (iff : P ↔ Q) :
    Settles verdict Q := by
  obtain ⟨found, ok, hP⟩ := h
  exact ⟨found, ok, hP.trans iff⟩

theorem settles_nil {P : Prop} (h : P) : Settles (.ok []) P :=
  ⟨[], rfl, iff_of_true rfl h⟩

namespace Check

/-- A check of a keyword that can be violated by itself. -/
def HasCode (check : Check) : Prop :=
  ErrorCode.keywordKeys.contains check.key = true

theorem codeOf_ok {key : String} (h : ErrorCode.keywordKeys.contains key = true) :
    Report.codeOf key = .ok (.keyword key) := by
  unfold Report.codeOf
  rw [if_pos h]

variable {check : Check} {node : InstanceNode} {evaluate : Evaluator}

theorem settles_fails (code : check.HasCode) (complaint : Complaint) (causes : List Violation)
    {P : Prop} (h : ¬ P) : Settles (check.fails node complaint causes) P := by
  refine ⟨[.mk node.pointer check.location (some check.key) (.keyword check.key) complaint causes],
    ?_, iff_of_false (by simp) h⟩
  unfold fails
  rw [codeOf_ok code]
  rfl

theorem settles_demand (code : check.HasCode) (holds : Bool) (complaint : Complaint) :
    Settles (check.demand node holds complaint) (holds = true) := by
  unfold demand
  cases holds with
  | true => exact settles_nil rfl
  | false => exact settles_fails code complaint [] (by simp)

/-- A demand on the type of a value. -/
theorem settles_type (code : check.HasCode) {type : InstanceType}
    (typed : node.value.instanceType? = some type) (types : List InstanceType)
    (test : Bool → Bool) (complaint : InstanceType → Complaint) :
    Settles (do
      let (holds, found) ← isOfType node types
      check.demand node (test holds) (complaint found))
      (test (type.admittedBy types) = true) := by
  unfold isOfType InstanceNode.type
  rw [typed]
  exact settles_demand code _ _

/-! ## Several verdicts -/

/-- Two verdicts together have no violations exactly if neither has. -/
theorem settles_append {verdict verdict' : Verdict} {P Q : Prop} (h : Settles verdict P)
    (h' : Settles verdict' Q) :
    Settles (do
      let found ← verdict
      let found' ← verdict'
      return found ++ found') (P ∧ Q) := by
  obtain ⟨found, rfl, iff⟩ := h
  obtain ⟨found', rfl, iff'⟩ := h'
  exact ⟨found ++ found', rfl, by rw [List.append_eq_nil_iff, iff, iff']⟩

section Several

variable {α β : Type}

/-- The verdicts on several values are reached, one for each. -/
theorem verdicts_ok {f : β → Verdict} {P : α → Prop} {xs : List α} {ys : List β}
    (h : List.Forall₂ (fun x y => Settles (f y) (P x)) xs ys) :
    ∃ found, verdicts f ys = .ok found ∧
      List.Forall₂ (fun x violations => violations = [] ↔ P x) xs found := by
  induction h with
  | nil => exact ⟨[], rfl, .nil⟩
  | @cons x y xs ys first rest ih =>
    obtain ⟨violations, ok, iff⟩ := first
    obtain ⟨found, oks, iffs⟩ := ih
    refine ⟨violations :: found, ?_, .cons iff iffs⟩
    unfold verdicts at oks ⊢
    rw [List.mapM_cons, ok, oks]
    rfl

theorem settles_together {f : β → Verdict} {P : α → Prop} {xs : List α} {ys : List β}
    (h : List.Forall₂ (fun x y => Settles (f y) (P x)) xs ys) :
    Settles (together f ys) (∀ x ∈ xs, P x) := by
  obtain ⟨found, ok, iffs⟩ := verdicts_ok h
  refine ⟨found.flatten, ?_, ?_⟩
  · unfold together
    rw [ok]
    rfl
  · clear ok h
    induction iffs with
    | nil => simp
    | @cons x violations xs found first rest ih => simp [first, ih]

/-- The same over one list. -/
theorem settles_together_self {f : α → Verdict} {P : α → Prop} {xs : List α}
    (h : ∀ x ∈ xs, Settles (f x) (P x)) : Settles (together f xs) (∀ x ∈ xs, P x) :=
  settles_together (List.forall₂_same.2 h)

end Several

/-! ## Schemas for the same value -/

section Same

variable {α : Type} {P : α → Prop} {schemas : List α} {ids : List ValidatorId}

theorem settles_all (code : check.HasCode)
    (h : List.Forall₂ (fun schema id => Settles (evaluate id node) (P schema)) schemas ids) :
    Settles (check.runAll evaluate ids node) (∀ schema ∈ schemas, P schema) := by
  obtain ⟨found, ok, iffs⟩ := verdicts_ok h
  unfold runAll
  rw [ok]
  have none_failed : (found.filter (!·.isEmpty)).length = 0 ↔ ∀ schema ∈ schemas, P schema := by
    clear ok h
    induction iffs with
    | nil => simp
    | @cons schema violations schemas found first rest ih =>
      rw [List.forall_mem_cons, ← ih, ← first]
      cases violations with
      | nil => simp
      | cons violation others => simp
  simp only [bind, Except.bind]
  split
  · next failed => exact settles_nil (none_failed.1 failed)
  · next failed => exact settles_fails code _ _ (fun all => failed (none_failed.2 all))

theorem upToMatch_ok
    (h : List.Forall₂ (fun schema id => Settles (evaluate id node) (P schema)) schemas ids) :
    ∃ matched found, upToMatch evaluate node ids = .ok (matched, found) ∧
      (matched = true ↔ ∃ schema ∈ schemas, P schema) := by
  induction h with
  | nil => exact ⟨false, [], rfl, by simp⟩
  | @cons schema id schemas ids first rest ih =>
    obtain ⟨violations, ok, iff⟩ := first
    obtain ⟨matched, found, oks, iffs⟩ := ih
    unfold upToMatch
    rw [ok]
    cases violations with
    | nil => exact ⟨true, [], rfl, by simp [iff.1 rfl]⟩
    | cons violation others =>
      have no : ¬ P schema := fun accepted => by simpa using iff.2 accepted
      refine ⟨matched, violation :: others ++ found, ?_, by simp [no, iffs]⟩
      simp only [bind, Except.bind, List.isEmpty_cons, Bool.false_eq_true, if_false, oks]
      rfl

theorem settles_any (code : check.HasCode)
    (h : List.Forall₂ (fun schema id => Settles (evaluate id node) (P schema)) schemas ids) :
    Settles (check.runAny evaluate ids node) (∃ schema ∈ schemas, P schema) := by
  obtain ⟨matched, found, ok, iff⟩ := upToMatch_ok h
  unfold runAny
  rw [ok]
  cases matched with
  | true => exact settles_nil (iff.1 rfl)
  | false => exact settles_fails code _ _ (fun some => by simpa using iff.2 some)

/-- A list has one element with a property exactly if one position has one. -/
theorem length_filter_eq_one {test : α → Bool} (xs : List α) :
    (xs.filter test).length = 1 ↔ ∃ (position : Nat) (x : α), xs[position]? = some x ∧
      test x = true ∧ ∀ (other : Nat) (y : α), xs[other]? = some y → test y = true →
        other = position := by
  induction xs with
  | nil => simp
  | cons x xs ih =>
    cases hx : test x with
    | true =>
      have tail : (xs.filter test).length = 0 ↔ ∀ y ∈ xs, test y = false := by
        simp [List.filter_eq_nil_iff]
      simp only [List.filter_cons, hx, if_true, List.length_cons, Nat.add_eq_right, tail]
      constructor
      · intro none
        refine ⟨0, x, rfl, hx, fun other y at_other hy => ?_⟩
        cases other with
        | zero => rfl
        | succ other =>
          have := none y (List.mem_of_getElem? (by simpa using at_other))
          simp [this] at hy
      · rintro ⟨position, z, at_position, hz, alone⟩ y mem
        have zero := alone 0 x rfl hx
        obtain ⟨other, at_other⟩ := List.getElem?_of_mem mem
        cases hy : test y with
        | false => rfl
        | true =>
          have := alone (other + 1) y (by simpa using at_other) hy
          omega
    | false =>
      simp only [List.filter_cons, hx, Bool.false_eq_true, if_false, ih]
      constructor
      · rintro ⟨position, z, at_position, hz, alone⟩
        refine ⟨position + 1, z, by simpa using at_position, hz, fun other y at_other hy => ?_⟩
        cases other with
        | zero => simp_all
        | succ other => rw [alone other y (by simpa using at_other) hy]
      · rintro ⟨position, z, at_position, hz, alone⟩
        cases position with
        | zero => simp_all
        | succ position =>
          refine ⟨position, z, by simpa using at_position, hz, fun other y at_other hy => ?_⟩
          have := alone (other + 1) y (by simpa using at_other) hy
          omega

/-- Exactly one schema accepts the value, by the number of those that do. -/
theorem settles_alone [DecidablePred P] (code : check.HasCode)
    (h : List.Forall₂ (fun schema id => Settles (evaluate id node) (P schema)) schemas ids) :
    Settles (check.runOne evaluate ids node) ((schemas.filter (P ·)).length = 1) := by
  obtain ⟨found, ok, iffs⟩ := verdicts_ok h
  have same : (found.filter (·.isEmpty)).length = (schemas.filter (P ·)).length := by
    clear ok h
    induction iffs with
    | nil => rfl
    | @cons schema violations schemas found first rest ih =>
      by_cases accepted : P schema
      · simp [first.2 accepted, accepted, ih]
      · have some_violation : violations.isEmpty = false := by
          rw [List.isEmpty_eq_false_iff]
          exact fun none => accepted (first.1 none)
        simp [some_violation, accepted, ih]
  rw [← same]
  unfold runOne
  rw [ok]
  simp only [bind, Except.bind]
  split
  · next matched => exact settles_nil matched
  · next matched => exact settles_fails code _ _ matched

theorem settles_one (code : check.HasCode)
    (h : List.Forall₂ (fun schema id => Settles (evaluate id node) (P schema)) schemas ids) :
    Settles (check.runOne evaluate ids node)
      (∃ (position : Nat) (schema : α), schemas[position]? = some schema ∧ P schema ∧
        ∀ (other : Nat) (schema' : α), schemas[other]? = some schema' → P schema' →
          other = position) := by
  classical
  refine (settles_alone code h).congr ?_
  rw [length_filter_eq_one]
  simp

theorem settles_not (code : check.HasCode) {id : ValidatorId} {Q : Prop}
    (h : Settles (evaluate id node) Q) : Settles (check.runNot evaluate id node) (¬ Q) := by
  obtain ⟨violations, ok, iff⟩ := h
  unfold runNot
  rw [ok]
  refine (settles_demand code (!violations.isEmpty) .forbiddenMatch).congr ?_
  rw [← iff]
  cases violations <;> simp

end Same

end Check

/-! ## Numbers -/

namespace Limit

theorem compare_ok {bound : Json} {b n : Number} (h : bound.plainNumber? = some b)
    (compares : n.compares b = true) (operator : String) (test : Number → Number → Bool) :
    compare operator test n bound = .ok (test n b) := by
  unfold Limit.compare
  rw [h]
  exact if_pos compares

/-- What is demanded of the number of a bound is demanded of one number. -/
theorem forall_bound {bound : Json} {b : Number} (h : bound.plainNumber? = some b)
    (demand : Number → Prop) :
    (∀ bound' b', some bound = some bound' → bound'.plainNumber? = some b' → demand b') ↔
      demand b := by
  constructor
  · exact fun all => all bound b rfl h
  · rintro holds bound' b' same found
    cases same
    rw [h] at found
    cases found
    exact holds

variable {limit : Limit} (strict loose : String) (beyond : Number → Number → Bool)

/-- The violation of the exclusive bound alone. -/
theorem exclusiveViolation_ok (numeric : limit.IsNumeric) {n : Number}
    (compares : limit.Compares n) :
    ∃ found : Option (Json × Bool),
      (match limit.exclusiveBound with
        | some bound => do
          let outside ← compare loose (fun x y => beyond x y || x.equals y) n bound
          if outside = true then pure (some (bound, true)) else pure none
        | _ => pure none) = (.ok found : Except Fault (Option (Json × Bool))) ∧
      (found = none ↔ ∀ bound b, limit.exclusiveBound = some bound →
        bound.plainNumber? = some b → beyond n b = false ∧ n.equals b = false) := by
  cases h : limit.exclusiveBound with
  | none => exact ⟨none, rfl, by simp⟩
  | some bound =>
    obtain ⟨b, hb⟩ := Option.isSome_iff_exists.1 (numeric bound (.inr h))
    rw [forall_bound hb fun b => beyond n b = false ∧ n.equals b = false]
    simp only [compare_ok hb (compares bound b (.inr h) hb), bind, Except.bind]
    cases outside : (beyond n b || n.equals b) with
    | true =>
      refine ⟨some (bound, true), rfl, iff_of_false (by simp) ?_⟩
      rintro ⟨inside, apart⟩
      simp [inside, apart] at outside
    | false => exact ⟨none, rfl, by simpa using outside⟩

theorem violation_ok (numeric : limit.IsNumeric) {n : Number} (compares : limit.Compares n) :
    ∃ found, violation strict loose beyond limit n = .ok found ∧
      (found = none ↔ limit.Admits beyond n) := by
  obtain ⟨found, ok, iff⟩ := exclusiveViolation_ok loose beyond numeric compares
  unfold violation Admits
  rw [← iff]
  cases h : limit.bound with
  | none => exact ⟨found, ok, by simp⟩
  | some bound =>
    obtain ⟨b, hb⟩ := Option.isSome_iff_exists.1 (numeric bound (.inl h))
    rw [forall_bound hb fun b => beyond n b = false ∧ (limit.exclusive = true → n.equals b = false)]
    have met : meets n bound = n.equals b := by
      unfold meets
      rw [hb]
    simp only [compare_ok hb (compares bound b (.inl h) hb), met, bind, Except.bind]
    cases outside : (beyond n b || limit.exclusive && n.equals b) with
    | true =>
      refine ⟨some (bound, limit.exclusive), rfl, iff_of_false (by simp) ?_⟩
      rintro ⟨⟨inside, apart⟩, -⟩
      cases exclusive : limit.exclusive <;> simp_all
    | false =>
      refine ⟨found, ok, ?_⟩
      rw [Bool.or_eq_false_iff, Bool.and_eq_false_imp] at outside
      exact (and_iff_right outside).symm

end Limit

namespace Number

theorem isFinite_iff (n : Number) : n.isFinite = true ↔ ∃ q, n.fraction = .ok q := by
  rcases n with n | (_ | _ | _) | (_ | _) <;>
    simp [isFinite, fraction, Double.isFinite, Double.decimalValue?, Decimal.isFinite,
      Decimal.value?]

/-- A quotient is whole exactly if the dividend is a multiple. -/
theorem isMultipleOf_iff {n divisor : Number} {q r : Rat} (hn : n.fraction = .ok q)
    (hd : divisor.fraction = .ok r) (nonzero : r ≠ 0) :
    n.IsMultipleOf divisor ↔ (q / r).den = 1 := by
  unfold IsMultipleOf
  rw [Rat.den_eq_one_iff]
  constructor
  · rintro ⟨q', r', k, hn', hd', rfl⟩
    rw [hn] at hn'
    rw [hd] at hd'
    cases hn'
    cases hd'
    rw [mul_div_assoc, div_self nonzero, mul_one, Rat.num_intCast]
  · intro whole
    refine ⟨q, r, (q / r).num, hn, hd, ?_⟩
    rw [whole, div_mul_cancel₀ q nonzero]

end Number

namespace Check

variable {check : Check} {node : InstanceNode} {evaluate : Evaluator}

theorem settles_multiple (code : check.HasCode) {n divisor : Number} {r : Rat}
    (number : node.value = .number n) (hd : divisor.fraction = .ok r) (nonzero : r ≠ 0) :
    Settles (check.runMultiple (.number divisor) r node) (n.IsMultipleOf divisor) := by
  unfold runMultiple
  rw [number]
  dsimp only
  split
  · next infinite =>
    refine settles_fails code _ _ ?_
    rintro ⟨q, r', k, hn, -⟩
    have finite := n.isFinite_iff.2 ⟨q, hn⟩
    simp [finite] at infinite
  · next finite =>
    obtain ⟨q, hn⟩ := n.isFinite_iff.1 (by simpa using finite)
    rw [hn]
    refine (settles_demand code _ _).congr ?_
    rw [decide_eq_true_iff]
    exact (Number.isMultipleOf_iff hn hd nonzero).symm

theorem settles_limit (code : check.HasCode) {limit : Limit} {strict loose : String}
    {beyond : Number → Number → Bool} (numeric : limit.IsNumeric) {n : Number}
    (compares : limit.Compares n) (number : node.value = .number n)
    (complaint : Json → Json → Bool → Complaint) :
    Settles (check.runLimit (limit.violation strict loose beyond) complaint node)
      (limit.Admits beyond n) := by
  obtain ⟨found, ok, iff⟩ := Limit.violation_ok strict loose beyond numeric compares
  unfold runLimit
  rw [number]
  simp only [ok, bind, Except.bind]
  cases found with
  | none => exact settles_nil (iff.1 rfl)
  | some violated => exact settles_fails code _ _ (fun admits => by simpa using iff.2 admits)

/-! ## Texts and lengths -/

theorem settles_least (code : check.HasCode) {length : Nat} (h : lengthOf? node.value = some length)
    (least : Int) (complaint : Int → Nat → Complaint) :
    Settles (check.runLeast least complaint node) (least ≤ length) := by
  unfold runLeast
  rw [h]
  exact (settles_demand code _ _).congr decide_eq_true_iff

theorem settles_most (code : check.HasCode) {length : Nat} (h : lengthOf? node.value = some length)
    (most : Int) (complaint : Int → Nat → Complaint) :
    Settles (check.runMost most complaint node) (length ≤ most) := by
  unfold runMost
  rw [h]
  exact (settles_demand code _ _).congr decide_eq_true_iff

/-! ## Items -/

section Items

variable {P : Schema → Json → Prop} {items : List Json}

theorem mem_of_mem_zipIdx {α : Type} {xs : List α} {x : α} {position : Nat}
    (mem : (x, position) ∈ xs.zipIdx) : x ∈ xs :=
  List.mem_of_getElem? (List.mem_zipIdx_iff_getElem?.1 mem)

/-- The verdicts on numbered items, whatever their numbers. -/
theorem settles_numbered {Q : Json → Prop} {id : ValidatorId} {numbered : List (Json × Nat)}
    (h : ∀ item position, (item, position) ∈ numbered →
      Settles (evaluate id (node.item position item)) (Q item)) :
    Settles (together (fun (item, position) => evaluate id (node.item position item)) numbered)
      (∀ item ∈ numbered.map (·.1), Q item) := by
  have all : Settles (together (fun (item, position) => evaluate id (node.item position item))
      numbered) (∀ entry ∈ numbered, Q entry.1) :=
    settles_together_self (fun entry mem => h entry.1 entry.2 mem)
  refine all.congr ?_
  simp

theorem settles_every {Q : Json → Prop} {id : ValidatorId}
    (h : ∀ position, ∀ item ∈ items, Settles (evaluate id (node.item position item)) (Q item)) :
    Settles (runEvery evaluate id node items) (∀ item ∈ items, Q item) := by
  unfold runEvery
  refine (settles_numbered (Q := Q) (fun item position mem =>
    h position item (mem_of_mem_zipIdx mem))).congr ?_
  simp

theorem forall₂_zip_zipIdx {α β γ : Type} {R : α → β → Prop} {xs : List α} {ys : List β}
    (h : List.Forall₂ R xs ys) (zs : List γ) (start : Nat) :
    List.Forall₂ (fun p q => R p.1 q.1 ∧ q.2.1 = p.2) (xs.zip zs) (ys.zip (zs.zipIdx start)) := by
  induction h generalizing zs start with
  | nil => exact .nil
  | cons first rest ih =>
    cases zs with
    | nil => exact .nil
    | cons z zs => exact .cons ⟨first, rfl⟩ (ih zs (start + 1))

/-- The items that have a schema of their own. -/
theorem settles_listed {schemas : List Schema} {ids : List ValidatorId}
    (h : List.Forall₂ (fun schema id => ∀ position, ∀ item ∈ items,
      Settles (evaluate id (node.item position item)) (P schema item)) schemas ids) :
    Settles (together (fun (id, item, position) => evaluate id (node.item position item))
        (ids.zip items.zipIdx))
      (∀ (position : Nat) schema item, schemas[position]? = some schema →
        items[position]? = some item → P schema item) := by
  have pairs := forall₂_zip_zipIdx h items 0
  have settled : Settles
      (together (fun (id, item, position) => evaluate id (node.item position item))
        (ids.zip items.zipIdx))
      (∀ p ∈ schemas.zip items, P p.1 p.2) := by
    refine settles_together ?_
    have known : List.Forall₂ (fun p (q : ValidatorId × Json × Nat) => p ∈ schemas.zip items ∧
        (∀ position, ∀ item ∈ items,
          Settles (evaluate q.1 (node.item position item)) (P p.1 item)) ∧ q.2.1 = p.2)
        (schemas.zip items) (ids.zip items.zipIdx) := by
      rw [List.forall₂_and_left]
      exact ⟨fun p mem => mem, pairs⟩
    refine known.imp ?_
    rintro ⟨schema, item⟩ ⟨id, item', position⟩ ⟨mem, settles, rfl⟩
    exact settles position item' (List.of_mem_zip mem).2
  refine settled.congr ?_
  constructor
  · intro all position schema item at_schema at_item
    have mem : (schema, item) ∈ schemas.zip items :=
      List.mem_of_getElem? (List.getElem?_zip_eq_some.2 ⟨at_schema, at_item⟩)
    exact all (schema, item) mem
  · rintro all ⟨schema, item⟩ mem
    obtain ⟨position, at_position⟩ := List.getElem?_of_mem mem
    have both := List.getElem?_zip_eq_some.1 at_position
    exact all position schema item both.1 both.2

theorem settles_each {schemas : List Schema} {ids : List ValidatorId}
    (h : List.Forall₂ (fun schema id => ∀ position, ∀ item ∈ items,
      Settles (evaluate id (node.item position item)) (P schema item)) schemas ids)
    {additional : Option Schema} {more : Option ValidatorId} {forbid : Bool} (place : String)
    (forbidden : forbid = true → ∃ schema, additional = some schema ∧
      ∀ item ∈ items, ¬ P schema item)
    (allowed : forbid = false → additional = none ∧ more = none ∨ ∃ schema id,
      additional = some schema ∧ more = some id ∧ ∀ position, ∀ item ∈ items,
        Settles (evaluate id (node.item position item)) (P schema item)) :
    Settles (runEach evaluate ids more forbid place node items)
      ((∀ (position : Nat) schema item, schemas[position]? = some schema →
        items[position]? = some item → P schema item) ∧
      (∀ schema, additional = some schema → ∀ item ∈ items.drop schemas.length,
        P schema item)) := by
  obtain ⟨listed, ok, iff⟩ := settles_listed h
  have lengths := h.length_eq
  unfold runEach
  rw [ok]
  simp only [bind, Except.bind]
  split
  · next short =>
    have nothing : items.drop schemas.length = [] :=
      List.drop_eq_nil_of_le (by omega)
    exact ⟨listed, rfl, by rw [iff, nothing]; simp⟩
  · next long =>
    split
    · next forbids =>
      obtain ⟨schema, some_schema, never⟩ := forbidden forbids
      have code : ErrorCode.keywordKeys.contains Builtin.additionalItems.key = true := by decide
      rw [codeOf_ok code]
      refine ⟨_, rfl, iff_of_false (by simp) ?_⟩
      rintro ⟨-, all⟩
      obtain ⟨item, mem⟩ : ∃ item, item ∈ items.drop schemas.length := by
        refine List.exists_mem_of_ne_nil _ (fun nothing => ?_)
        have := List.drop_eq_nil_iff.1 nothing
        omega
      exact never item (List.mem_of_mem_drop mem) (all schema some_schema item mem)
    · next allows =>
      rcases allowed (by simpa using allows) with ⟨rfl, rfl⟩ | ⟨schema, id, rfl, rfl, settles⟩
      · exact ⟨listed, rfl, by rw [iff]; simp⟩
      · have surplus : Settles
            (together (fun (item, position) => evaluate id (node.item position item))
              (items.zipIdx.drop ids.length))
            (∀ item ∈ (items.zipIdx.drop ids.length).map (·.1), P schema item) :=
          settles_numbered (fun item position mem =>
            settles position item (mem_of_mem_zipIdx (List.mem_of_mem_drop mem)))
        obtain ⟨others, ok', iff'⟩ := surplus
        dsimp only at ok' ⊢
        rw [ok']
        refine ⟨listed ++ others, rfl, ?_⟩
        rw [List.append_eq_nil_iff, iff, iff', List.map_drop, List.zipIdx_map_fst, ← lengths]
        simp

theorem settles_unique (code : check.HasCode) (proper : ∀ item ∈ items, item.IsProper) :
    Settles (check.runUnique node items) (items.Pairwise fun x y => x.equals y = false) := by
  obtain ⟨found, ok, absent, first⟩ := firstRepetition_finds .nil proper
  unfold runUnique
  rw [show firstRepetition 0 [] items = .ok found from ok, Json.pairwise_iff_equalAt]
  cases found with
  | none => exact settles_nil (absent rfl)
  | some pair =>
    have repetition := first pair.1 pair.2 rfl
    exact settles_fails code _ _ fun apart => apart _ _ repetition.before repetition.equal

theorem someItem_ok {Q : Json → Prop} {id : ValidatorId} {numbered : List (Json × Nat)}
    (h : ∀ item position, (item, position) ∈ numbered →
      Settles (evaluate id (node.item position item)) (Q item)) :
    ∃ found, someItem evaluate id node numbered = .ok found ∧
      (found = true ↔ ∃ item ∈ numbered.map (·.1), Q item) := by
  induction numbered with
  | nil => exact ⟨false, rfl, by simp⟩
  | cons entry rest ih =>
    obtain ⟨item, position⟩ := entry
    obtain ⟨violations, ok, iff⟩ := h item position List.mem_cons_self
    obtain ⟨found, oks, iffs⟩ := ih (fun item' position' mem =>
      h item' position' (List.mem_cons_of_mem _ mem))
    unfold someItem
    rw [ok]
    simp only [bind, Except.bind]
    cases violations with
    | nil => exact ⟨true, rfl, by simp [iff.1 rfl]⟩
    | cons violation others =>
      have no : ¬ Q item := fun accepted => by simpa using iff.2 accepted
      refine ⟨found, oks, ?_⟩
      rw [iffs]
      simp [no]

theorem settles_contains (code : check.HasCode) {Q : Json → Prop} {id : ValidatorId}
    (h : ∀ position, ∀ item ∈ items, Settles (evaluate id (node.item position item)) (Q item)) :
    Settles (check.runContains evaluate id node items) (∃ item ∈ items, Q item) := by
  obtain ⟨found, ok, iff⟩ := someItem_ok (Q := Q)
    (fun item position mem => h position item (mem_of_mem_zipIdx mem))
  unfold runContains
  rw [ok]
  refine (settles_demand code _ _).congr ?_
  rw [iff]
  simp

end Items

/-! ## Members -/

section Members

variable {P : Schema → Json → Prop} {members : List (String × Json)}

/-- Names are flagged for schemas that say so. -/
theorem mem_flaggedNames {named : List (String × Schema)} {name place base : String}
    (mem : (name, place) ∈ Compile.flaggedNames named base) :
    ∃ schema, (name, schema) ∈ named ∧ schema.IsFlagged ∧
      place = Place.join base [name, Builtin.required.key] := by
  obtain ⟨⟨other, schema⟩, listed, flagged⟩ := List.mem_filterMap.1 mem
  dsimp only at flagged
  split at flagged
  · next flag found =>
    split at flagged
    · next truthy =>
      cases flagged
      exact ⟨schema, listed, ⟨flag, found, truthy⟩, rfl⟩
    · cases flagged
  · cases flagged

/-- The flagged names are those of the schemas with the flag. -/
theorem flagged_iff {schemas : List (String × Schema)} {place name : String} :
    ((Compile.flaggedNames schemas place).lookup name).isSome ↔
      ∃ schema, (name, schema) ∈ schemas ∧ schema.IsFlagged := by
  rw [List.lookup_isSome_iff]
  constructor
  · rintro ⟨⟨other, flagPlace⟩, mem, same⟩
    obtain rfl : name = other := eq_of_beq same
    obtain ⟨schema, listed, flagged, -⟩ := mem_flaggedNames mem
    exact ⟨schema, listed, flagged⟩
  · rintro ⟨schema, mem, flag, found, truthy⟩
    refine ⟨(name, Place.join place [name, Builtin.required.key]), List.mem_filterMap.2
      ⟨(name, schema), mem, ?_⟩, beq_self_eq_true name⟩
    simp only [found, truthy, if_true]

theorem settles_properties {schemas : List (String × Schema)}
    {ids : List (String × ValidatorId)} (place : String)
    (h : List.Forall₂ (fun entry entry' => entry'.1 = entry.1 ∧
      ∀ inner, (entry.1, inner) ∈ members →
        Settles (evaluate entry'.2 (node.child entry.1 inner)) (P entry.2 inner)) schemas ids) :
    Settles (runProperties evaluate ids (Compile.flaggedNames schemas place) node members)
      (∀ name schema, (name, schema) ∈ schemas →
        (∀ inner, members.lookup name = some inner → P schema inner) ∧
        (schema.IsFlagged → (members.lookup name).isSome)) := by
  have settled : Settles
      (runProperties evaluate ids (Compile.flaggedNames schemas place) node members)
      (∀ entry ∈ schemas, (∀ inner, members.lookup entry.1 = some inner → P entry.2 inner) ∧
        (((Compile.flaggedNames schemas place).lookup entry.1).isSome →
          (members.lookup entry.1).isSome)) := by
    unfold runProperties
    refine settles_together (h.imp ?_)
    rintro ⟨name, schema⟩ ⟨name', id⟩ ⟨rfl, settles⟩
    dsimp only at settles ⊢
    cases found : members.lookup name' with
    | some value =>
      refine (settles value (Members.mem_of_lookup found)).congr ?_
      simp
    | none =>
      cases flagged : (Compile.flaggedNames schemas place).lookup name' with
      | none => exact settles_nil (by simp)
      | some flagPlace =>
        have code : ErrorCode.keywordKeys.contains Builtin.required.key = true := by decide
        dsimp only
        rw [codeOf_ok code]
        exact ⟨_, rfl, iff_of_false (by simp) (by simp)⟩
  refine settled.congr ?_
  constructor
  · intro all name schema mem
    refine ⟨(all (name, schema) mem).1, fun flagged => ?_⟩
    exact (all (name, schema) mem).2 (flagged_iff.2 ⟨schema, mem, flagged⟩)
  · rintro all ⟨name, schema⟩ mem
    refine ⟨(all name schema mem).1, fun flagged => ?_⟩
    obtain ⟨other, mem', isFlagged⟩ := flagged_iff.1 flagged
    exact (all name other mem').2 isFlagged

theorem settles_patterns {compiler : Compiler} {schemas : List (String × Schema)}
    {searches : List ((String → Bool) × ValidatorId)}
    (h : List.Forall₂ (fun entry entry' => compiler.search entry.1 = .ok entry'.1 ∧
      ∀ name inner, (name, inner) ∈ members →
        Settles (evaluate entry'.2 (node.child name inner)) (P entry.2 inner)) schemas searches) :
    Settles (runPatterns evaluate searches node members)
      (∀ name inner, (name, inner) ∈ members → ∀ pattern schema, (pattern, schema) ∈ schemas →
        ∀ search, compiler.search pattern = .ok search → search name = true →
          P schema inner) := by
  have settled : Settles (runPatterns evaluate searches node members)
      (∀ member ∈ members, ∀ entry ∈ schemas, ∀ search, compiler.search entry.1 = .ok search →
        search member.1 = true → P entry.2 member.2) := by
    unfold runPatterns
    refine settles_together_self ?_
    rintro ⟨name, inner⟩ mem
    refine settles_together (h.imp ?_)
    rintro ⟨pattern, schema⟩ ⟨search, id⟩ ⟨compiled, settles⟩
    dsimp only at compiled settles ⊢
    rw [compiled]
    split
    · next found =>
      refine (settles name inner mem).congr ?_
      simp [found]
    · next missed =>
      refine settles_nil ?_
      rintro search' same found
      cases same
      exact absurd found missed
  refine settled.congr ?_
  exact ⟨fun all name inner mem pattern schema mem' => all (name, inner) mem (pattern, schema) mem',
    fun all member mem entry mem' => all member.1 member.2 mem entry.1 entry.2 mem'⟩

/-- A name is additional if it is neither declared nor found by a pattern. -/
theorem isAdditional_iff {compiler : Compiler} {declared patterns : List String}
    {searches : List (String → Bool)}
    (h : List.Forall₂ (fun pattern search => compiler.search pattern = .ok search) patterns
      searches) (name : String) :
    isAdditional declared searches name = true ↔ name ∉ declared ∧
      ∀ pattern ∈ patterns, ∀ search, compiler.search pattern = .ok search →
        search name = false := by
  have unmatched : (∀ search ∈ searches, search name = false) ↔
      ∀ pattern ∈ patterns, ∀ search, compiler.search pattern = .ok search →
        search name = false := by
    induction h with
    | nil => simp
    | @cons pattern search patterns searches first rest ih =>
      rw [List.forall_mem_cons, List.forall_mem_cons, ih]
      simp [first]
  rw [← unmatched]
  unfold isAdditional
  simp

theorem settles_additional (code : check.HasCode) {compiler : Compiler}
    {declared patterns : List String} {searches : List (String → Bool)}
    (compiled : List.Forall₂ (fun pattern search => compiler.search pattern = .ok search) patterns
      searches) {Q : Json → Prop} {id : ValidatorId} {forbid : Bool}
    (forbidden : forbid = true → ∀ name inner, (name, inner) ∈ members → ¬ Q inner)
    (allowed : forbid = false → ∀ name inner, (name, inner) ∈ members →
      Settles (evaluate id (node.child name inner)) (Q inner)) :
    Settles (check.runAdditional evaluate id forbid declared searches node members)
      (∀ name inner, (name, inner) ∈ members → name ∉ declared →
        (∀ pattern ∈ patterns, ∀ search, compiler.search pattern = .ok search →
          search name = false) → Q inner) := by
  have settled : Settles (check.runAdditional evaluate id forbid declared searches node members)
      (∀ member ∈ members.filter fun member => isAdditional declared searches member.1,
        Q member.2) := by
    unfold runAdditional
    refine settles_together_self ?_
    rintro ⟨name, inner⟩ mem
    have member := (List.mem_filter.1 mem).1
    dsimp only
    split
    · next forbids => exact settles_fails code _ _ (forbidden forbids name inner member)
    · next allows => exact allowed (by simpa using allows) name inner member
  refine settled.congr ?_
  constructor
  · intro all name inner mem undeclared unmatched
    have additional := (isAdditional_iff compiled name).2 ⟨undeclared, unmatched⟩
    exact all (name, inner) (List.mem_filter.2 ⟨mem, additional⟩)
  · rintro all ⟨name, inner⟩ mem
    obtain ⟨member, additional⟩ := List.mem_filter.1 mem
    obtain ⟨undeclared, unmatched⟩ := (isAdditional_iff compiled name).1 additional
    exact all name inner member undeclared unmatched

theorem missingNames_eq_nil {names : List String} :
    missingNames members names = [] ↔ ∀ name ∈ names, (members.lookup name).isSome := by
  unfold missingNames
  rw [List.filter_eq_nil_iff]
  simp [Option.isSome_iff_ne_none]

theorem settles_required (code : check.HasCode) (names : List String) :
    Settles (check.runRequired names node members)
      (∀ name ∈ names, (members.lookup name).isSome) := by
  rw [← missingNames_eq_nil]
  unfold runRequired
  split
  · next none => exact settles_nil none
  · next one => exact settles_fails code _ _ (by simp [one])
  · next missing several _ => exact settles_fails code _ _ (fun none => several none)

theorem settles_names (code : check.HasCode) {Q : Json → Prop} {id : ValidatorId}
    (h : ∀ name inner, (name, inner) ∈ members →
      Settles (evaluate id (node.child name (.string name))) (Q (.string name))) :
    Settles (check.runNames evaluate id node members)
      (∀ name inner, (name, inner) ∈ members → Q (.string name)) := by
  have settled : Settles
      (together (fun name => evaluate id (node.child name (.string name))) (Members.keys members))
      (∀ name ∈ Members.keys members, Q (.string name)) := by
    refine settles_together_self (fun name mem => ?_)
    obtain ⟨⟨name, inner⟩, member, rfl⟩ := List.mem_map.1 mem
    exact h name inner member
  have names : (∀ name ∈ Members.keys members, Q (.string name)) ↔
      ∀ name inner, (name, inner) ∈ members → Q (.string name) := by
    simp [Members.keys]
  obtain ⟨found, ok, iff⟩ := settled
  unfold runNames
  rw [ok]
  simp only [bind, Except.bind]
  rw [names] at iff
  cases found with
  | nil => exact settles_nil (iff.1 rfl)
  | cons violation others => exact settles_fails code _ _ (fun all => by simpa using iff.2 all)

theorem settles_dependencies (code : check.HasCode) (names : List (String × List String))
    {α : Type} {Q : α → Prop} {schemas : List (String × α)} {ids : List (String × ValidatorId)}
    (h : List.Forall₂ (fun entry entry' => entry'.1 = entry.1 ∧
      Settles (evaluate entry'.2 node) (Q entry.2)) schemas ids) :
    Settles (check.runDependencies evaluate names ids node members)
      ((∀ name needed, (name, needed) ∈ names → (members.lookup name).isSome →
        ∀ other ∈ needed, (members.lookup other).isSome) ∧
      (∀ name schema, (name, schema) ∈ schemas → (members.lookup name).isSome → Q schema)) := by
  have fromNames : Settles (together (fun entry =>
      if (members.lookup entry.1).isNone then .ok []
      else
        let missing := missingNames members entry.2
        check.demand node missing.isEmpty (.dependencyMissing entry.1 missing)) names)
      (∀ entry ∈ names, (members.lookup entry.1).isSome →
        ∀ other ∈ entry.2, (members.lookup other).isSome) := by
    refine settles_together_self ?_
    rintro ⟨name, needed⟩ -
    dsimp only
    split
    · next absent =>
      refine settles_nil (fun present => ?_)
      rw [Option.isNone_iff_eq_none.1 absent] at present
      cases present
    · next present =>
      refine (settles_demand code _ _).congr ?_
      rw [List.isEmpty_iff, missingNames_eq_nil]
      have there : (members.lookup name).isSome := by simpa using present
      simp [there]
  have fromSchemas : Settles (together (fun entry =>
      if (members.lookup entry.1).isNone then .ok [] else evaluate entry.2 node) ids)
      (∀ entry ∈ schemas, (members.lookup entry.1).isSome → Q entry.2) := by
    refine settles_together (h.imp ?_)
    rintro ⟨name, schema⟩ ⟨name', id⟩ ⟨rfl, settles⟩
    dsimp only at settles ⊢
    split
    · next absent =>
      refine settles_nil (fun present => ?_)
      rw [Option.isNone_iff_eq_none.1 absent] at present
      cases present
    · next present =>
      refine settles.congr ?_
      have there : (members.lookup name').isSome := by simpa using present
      simp [there]
  refine (settles_append fromNames fromSchemas).congr ?_
  exact and_congr ⟨fun all name needed mem => all (name, needed) mem,
      fun all entry mem => all entry.1 entry.2 mem⟩
    ⟨fun all name schema mem => all (name, schema) mem,
      fun all entry mem => all entry.1 entry.2 mem⟩

end Members

end Check

end JsonSchema
