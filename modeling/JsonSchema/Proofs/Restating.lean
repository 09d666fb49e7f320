import JsonSchema.Proofs.Agreement
import JsonSchema.Proofs.Verdict

/-!
# Other ways to write a value

A value is restated if the members of objects in it are put in another order, or numbers in it are
exchanged for related ones, step by step and at any depth (`Json.Restated`). With numbers exchanged
for numbers at the same place of the extended number line, this is just equality, for the values
that a text or a program can hold and compare with themselves: those without a NaN
(`Json.equals_iff_restated`).

So there is one notion of equality. Frozen forms are the same where the values are equal, and this
is what equality of schemas, `uniqueItems`, `enum` and `const` ask for (`Json.one_equality`). A NaN
is left out because it is not equal to itself.
-/

namespace JsonSchema

namespace Json

variable {exchange : Number → Number → Prop} {u v w x y : Json} {items xs ys : List Json}
  {members : List (String × Json)} {name : String}

/-! ## Restated values -/

/-- A value is the other one with its members in another order, and its numbers exchanged. -/
inductive Restated (exchange : Number → Number → Prop) : Json → Json → Prop
  | refl (v : Json) : Restated exchange v v
  | trans {u v w : Json} (first : Restated exchange u v) (second : Restated exchange v w) :
    Restated exchange u w
  | number {m n : Number} (related : exchange m n) : Restated exchange (.number m) (.number n)
  | reorder {members members' : List (String × Json)} (perm : members.Perm members') :
    Restated exchange (.object members) (.object members')
  | item {x y : Json} (front back : List Json) (inner : Restated exchange x y) :
    Restated exchange (.array (front ++ x :: back)) (.array (front ++ y :: back))
  | member {x y : Json} (front : List (String × Json)) (name : String)
    (back : List (String × Json)) (inner : Restated exchange x y) :
    Restated exchange (.object (front ++ (name, x) :: back))
      (.object (front ++ (name, y) :: back))

theorem mem_middle {α : Type} {a b : α} {front back : List α} :
    a ∈ front ++ b :: back ↔ a = b ∨ a ∈ front ++ back := by
  rw [List.perm_middle.mem_iff, List.mem_cons]

namespace Restated

/-- All items may be restated. -/
theorem each_item (each : List.Forall₂ (Restated exchange) xs ys) (front : List Json) :
    Restated exchange (.array (front ++ xs)) (.array (front ++ ys)) := by
  induction each generalizing front with
  | nil => exact .refl _
  | @cons x y xs ys first _ ih =>
    have rest := ih (front ++ [y])
    rw [List.append_assoc, List.append_assoc] at rest
    exact .trans (.item front xs first) rest

/-- All members may be restated. -/
theorem each_member {members members' : List (String × Json)}
    (each : List.Forall₂ (Members.Paired (Restated exchange)) members members')
    (front : List (String × Json)) :
    Restated exchange (.object (front ++ members)) (.object (front ++ members')) := by
  induction each generalizing front with
  | nil => exact .refl _
  | @cons first first' rest rest' paired _ ih =>
    obtain ⟨name, x⟩ := first
    obtain ⟨name', y⟩ := first'
    obtain ⟨rfl, inner⟩ := paired
    have further := ih (front ++ [(name, y)])
    rw [List.append_assoc, List.append_assoc] at further
    exact .trans (.member front name rest inner) further

theorem matched {members members' : List (String × Json)}
    (matched : Matched (Members.Paired (Restated exchange)) members members') :
    Restated exchange (.object members) (.object members') := by
  obtain ⟨between, perm, each⟩ := matched
  exact .trans (.reorder perm) (.each_member each [])

end Restated

/-! ## Values without a NaN -/

/-- A proper value in which every number has a place. -/
structure IsPlaced (v : Json) : Prop where
  proper : v.IsProper
  places : ∀ n, v.HasNumber n → n.place?.isSome = true

theorem hasNumber_number {m n : Number} : (Json.number m).HasNumber n ↔ n = m := by
  constructor
  · intro has
    cases has with
    | here => rfl
    | inside inside _ => cases inside
  · rintro rfl
    exact .here

theorem hasNumber_array {n : Number} :
    (Json.array items).HasNumber n ↔ ∃ item ∈ items, item.HasNumber n := by
  constructor
  · intro has
    cases has with
    | inside inside has =>
      cases inside with
      | item mem => exact ⟨_, mem, has⟩
  · rintro ⟨item, mem, has⟩
    exact .inside (.item mem) has

theorem hasNumber_object {n : Number} :
    (Json.object members).HasNumber n ↔
      ∃ name value, (name, value) ∈ members ∧ value.HasNumber n := by
  constructor
  · intro has
    cases has with
    | inside inside has =>
      cases inside with
      | member mem => exact ⟨_, _, mem, has⟩
      | name mem =>
        cases has with
        | inside inside _ => cases inside
  · rintro ⟨name, value, mem, has⟩
    exact .inside (.member mem) has

theorem isPlaced_number {n : Number} : (Json.number n).IsPlaced ↔ n.place?.isSome = true := by
  constructor
  · intro placed
    exact placed.places n .here
  · intro place
    refine ⟨trivial, fun m has => ?_⟩
    rw [hasNumber_number.1 has]
    exact place

theorem isPlaced_array : (Json.array items).IsPlaced ↔ ∀ item ∈ items, item.IsPlaced := by
  constructor
  · intro placed item mem
    exact ⟨placed.proper.item mem, fun n has => placed.places n (.inside (.item mem) has)⟩
  · intro each
    refine ⟨(areProper_iff items).2 fun item mem => (each item mem).proper, fun n has => ?_⟩
    obtain ⟨item, mem, has⟩ := hasNumber_array.1 has
    exact (each item mem).places n has

theorem isPlaced_object : (Json.object members).IsPlaced ↔
    (Members.keys members).Nodup ∧ ∀ name value, (name, value) ∈ members → value.IsPlaced := by
  constructor
  · intro placed
    refine ⟨placed.proper.1, fun name value mem => ?_⟩
    exact ⟨placed.proper.member mem, fun n has => placed.places n (.inside (.member mem) has)⟩
  · rintro ⟨distinct, each⟩
    refine ⟨⟨distinct, (areProperMembers_iff members).2 fun member mem => ?_⟩, fun n has => ?_⟩
    · exact (each member.1 member.2 mem).proper
    · obtain ⟨name, value, mem, has⟩ := hasNumber_object.1 has
      exact (each name value mem).places n has

mutual

/-- A value without a NaN is equal to itself. -/
theorem equals_refl : ∀ v : Json, v.IsPlaced → v.equals v = true
  | .null, _ => rfl
  | .bool _, _ => by simp [equals]
  | .number n, placed => by
    obtain ⟨place, here⟩ := Option.isSome_iff_exists.1 (isPlaced_number.1 placed)
    exact equals_number_iff.2 ⟨n, rfl, Number.equals_iff.2 ⟨place, here, here⟩⟩
  | .string _, _ => equals_string_iff.2 rfl
  | .array items, placed =>
    equals_array_iff.2 ⟨items, rfl,
      List.forall₂_same.2 (items_refl items (isPlaced_array.1 placed))⟩
  | .object members, placed => by
    obtain ⟨distinct, each⟩ := isPlaced_object.1 placed
    refine equals_object_iff.2 ⟨members, rfl, rfl, fun name value mem => ?_⟩
    exact ⟨value, Members.lookup_of_mem distinct mem, members_refl members each name value mem⟩
  | .bytes _, placed => absurd placed.proper (by simp [IsProper])

theorem items_refl : ∀ items : List Json, (∀ item ∈ items, item.IsPlaced) →
    ∀ item ∈ items, item.equals item = true
  | [], _ => nofun
  | first :: rest, placed => by
    intro item mem
    rcases List.mem_cons.1 mem with same | later
    · rw [same]
      exact equals_refl first (placed first List.mem_cons_self)
    · exact items_refl rest (fun item mem => placed item (List.mem_cons_of_mem _ mem)) item later

theorem members_refl : ∀ members : List (String × Json),
    (∀ name value, (name, value) ∈ members → value.IsPlaced) →
    ∀ name value, (name, value) ∈ members → value.equals value = true
  | [], _ => nofun
  | (first, x) :: rest, placed => by
    intro name value mem
    rcases List.mem_cons.1 mem with same | later
    · cases same
      exact equals_refl x (placed first x List.mem_cons_self)
    · exact members_refl rest (fun name value mem => placed name value (List.mem_cons_of_mem _ mem))
        name value later

end

/-! ## Equality -/

/-- Two numbers stand at the same place. -/
def SamePlace (m n : Number) : Prop :=
  m.place? = n.place?

mutual

/-- Equal values are restatements of each other. -/
theorem restated_of_agrees : ∀ (v : Json) {w : Json}, v.Agrees w → Restated SamePlace v w
  | .array items, w, agrees => by
    obtain ⟨items', rfl, each⟩ := agrees.array
    exact .each_item (items_restated items each) []
  | .object members, w, agrees => by
    obtain ⟨members', rfl, matched⟩ := agrees.object
    obtain ⟨between, perm, each⟩ := matched
    refine .matched ⟨between, perm, ?_⟩
    have known : List.Forall₂
        (fun first first' => first ∈ members ∧ Members.Paired Agrees first first')
        between members' :=
      (List.forall₂_and_left _ _).2 ⟨fun first mem => perm.mem_iff.2 mem, each⟩
    refine known.imp ?_
    rintro ⟨name, x⟩ ⟨name', y⟩ ⟨mem, same, inner⟩
    exact ⟨same, members_restated members name x mem inner⟩
  | .number m, w, agrees => by
    obtain ⟨n, rfl, equal⟩ := equals_number_iff.1 agrees.equal
    exact .number (Number.place_congr equal)
  | .null, w, agrees => by
    have equal := agrees.equal
    cases w <;> simp [equals] at equal
    exact .refl _
  | .bool b, w, agrees => by
    have equal := agrees.equal
    cases w <;> simp only [equals, decide_eq_true_eq, Bool.false_eq_true] at equal
    rw [equal]
    exact .refl _
  | .string text, w, agrees => by
    rw [agrees.string]
    exact .refl _
  | .bytes text, w, agrees => absurd agrees.proper (by simp [IsProper])

theorem items_restated : ∀ (xs : List Json) {ys : List Json}, List.Forall₂ Agrees xs ys →
    List.Forall₂ (Restated SamePlace) xs ys
  | [], _, .nil => .nil
  | x :: xs, _, .cons first rest => .cons (restated_of_agrees x first) (items_restated xs rest)

theorem members_restated : ∀ (members : List (String × Json)) (name : String) (x : Json),
    (name, x) ∈ members → ∀ {y : Json}, x.Agrees y → Restated SamePlace x y
  | [], _, _, mem, _, _ => absurd mem List.not_mem_nil
  | (first, z) :: rest, name, x, mem, y, agrees => by
    rcases List.mem_cons.1 mem with same | later
    · cases same
      exact restated_of_agrees z agrees
    · exact members_restated rest name x later agrees

end

/-- A restatement of a value without a NaN has none either, and is equal to the value. -/
theorem Restated.equals (restated : Restated SamePlace v w) :
    v.IsPlaced → w.IsPlaced ∧ v.equals w = true := by
  induction restated with
  | refl v => exact fun placed => ⟨placed, equals_refl v placed⟩
  | @trans u v w _ _ ih ih' =>
    intro placed
    obtain ⟨placed', equal⟩ := ih placed
    obtain ⟨placed'', equal'⟩ := ih' placed'
    exact ⟨placed'', equals_trans u equal equal'⟩
  | @number m n related =>
    intro placed
    obtain ⟨place, here⟩ := Option.isSome_iff_exists.1 (isPlaced_number.1 placed)
    have there : n.place? = some place := related.symm.trans here
    refine ⟨isPlaced_number.2 (by rw [there]; rfl), ?_⟩
    exact equals_number_iff.2 ⟨n, rfl, Number.equals_iff.2 ⟨place, here, there⟩⟩
  | @reorder members members' perm =>
    intro placed
    obtain ⟨distinct, each⟩ := isPlaced_object.1 placed
    have distinct' : (Members.keys members').Nodup := (perm.map Prod.fst).nodup_iff.1 distinct
    refine ⟨isPlaced_object.2 ⟨distinct', fun name value mem => ?_⟩, ?_⟩
    · exact each name value (perm.mem_iff.2 mem)
    · refine equals_object_iff.2 ⟨members', rfl, perm.length_eq, fun name value mem => ?_⟩
      have found := Members.lookup_of_mem distinct' (perm.mem_iff.1 mem)
      exact ⟨value, found, equals_refl value (each name value mem)⟩
  | @item x y front back _ ih =>
    intro placed
    have each := isPlaced_array.1 placed
    obtain ⟨placed', equal⟩ := ih (each x (by simp))
    have rest : ∀ item ∈ front ++ back, item.IsPlaced := fun item mem =>
      each item (mem_middle.2 (.inr mem))
    have same : ∀ item ∈ front ++ back, item.equals item = true := fun item mem =>
      equals_refl item (rest item mem)
    refine ⟨isPlaced_array.2 fun item mem => ?_, ?_⟩
    · rcases mem_middle.1 mem with rfl | mem
      · exact placed'
      · exact rest item mem
    · refine equals_array_iff.2 ⟨_, rfl, List.rel_append ?_ (.cons equal ?_)⟩
      · exact List.forall₂_same.2 fun item mem => same item (List.mem_append_left _ mem)
      · exact List.forall₂_same.2 fun item mem => same item (List.mem_append_right _ mem)
  | @member x y front name back _ ih =>
    intro placed
    obtain ⟨distinct, each⟩ := isPlaced_object.1 placed
    obtain ⟨placed', equal⟩ := ih (each name x (by simp))
    have rest : ∀ other value, (other, value) ∈ front ++ back → value.IsPlaced :=
      fun other value mem => each other value (mem_middle.2 (.inr mem))
    have distinct' : (Members.keys (front ++ (name, y) :: back)).Nodup := by
      simpa [Members.keys] using distinct
    refine ⟨isPlaced_object.2 ⟨distinct', fun other value mem => ?_⟩, ?_⟩
    · rcases mem_middle.1 mem with same | mem
      · cases same
        exact placed'
      · exact rest other value mem
    · refine equals_object_iff.2 ⟨_, rfl, by simp, fun other value mem => ?_⟩
      rcases mem_middle.1 mem with same | mem
      · cases same
        exact ⟨y, Members.lookup_of_mem distinct' (by simp), equal⟩
      · exact ⟨value, Members.lookup_of_mem distinct' (mem_middle.2 (.inr mem)),
          equals_refl value (rest other value mem)⟩

/-- Values without a NaN are equal just if one is a restatement of the other. -/
theorem equals_iff_restated (placed : v.IsPlaced) (placed' : w.IsPlaced) :
    v.equals w = true ↔ Restated SamePlace v w := by
  constructor
  · intro equal
    exact restated_of_agrees v ⟨placed.proper, placed'.proper, equal⟩
  · intro restated
    exact (restated.equals placed).2

/-- The frozen forms of proper values are the same just if the values are equal. -/
theorem freeze_same (proper : v.IsProper) (proper' : w.IsProper) :
    ∃ a b, v.freeze = .ok a ∧ w.freeze = .ok b ∧ a.same b = v.equals w := by
  obtain ⟨a, some, ok⟩ := freeze_ok proper
  obtain ⟨b, some', ok'⟩ := freeze_ok proper'
  exact ⟨a, b, ok, ok', Frozen.same_eq_equals v w proper' a b some some'⟩

theorem mapM_freeze (proper : AreProper xs) :
    ∃ frozen, freezeItems? xs = some frozen ∧ xs.mapM freeze = .ok frozen := by
  induction xs with
  | nil => exact ⟨[], rfl, rfl⟩
  | cons x xs ih =>
    obtain ⟨head, some, ok⟩ := freeze_ok proper.1
    obtain ⟨rest, others, oks⟩ := ih proper.2
    refine ⟨head :: rest, by simp [freezeItems?, some, others], ?_⟩
    rw [List.mapM_cons, ok, oks]
    rfl

/-- Whether two bounds are equal, if there are any. -/
def equalBounds : Option Json → Option Json → Bool
  | none, none => true
  | some v, some w => v.equals w
  | _, _ => false

theorem freezeOptional_same {a b : Option Json} (proper : ∀ v ∈ a, v.IsProper)
    (proper' : ∀ v ∈ b, v.IsProper) :
    ∃ f g, freezeOptional a = .ok f ∧ freezeOptional b = .ok g ∧
      Frozen.sameOptional f g = equalBounds a b := by
  cases a with
  | none =>
    cases b with
    | none => exact ⟨none, none, rfl, rfl, rfl⟩
    | some w =>
      obtain ⟨frozen, -, ok⟩ := freeze_ok (proper' w rfl)
      exact ⟨none, some frozen, rfl, by rw [freezeOptional, ok]; rfl, rfl⟩
  | some v =>
    obtain ⟨frozen, some_v, ok⟩ := freeze_ok (proper v rfl)
    cases b with
    | none => exact ⟨some frozen, none, by rw [freezeOptional, ok]; rfl, rfl, rfl⟩
    | some w =>
      obtain ⟨frozen', some_w, ok'⟩ := freeze_ok (proper' w rfl)
      refine ⟨some frozen, some frozen', by rw [freezeOptional, ok]; rfl,
        by rw [freezeOptional, ok']; rfl, ?_⟩
      exact Frozen.same_eq_equals v w (proper' w rfl) frozen frozen' some_v some_w

end Json

/-! ## Where values are compared -/

namespace KeywordValue

variable {v w : Json} {xs ys : List Json}

/-- Schemas with values of `const` or `default` differ if the values do. -/
theorem equals_any (proper : v.IsProper) (proper' : w.IsProper) :
    KeywordValue.equals (.literal .any v) (.literal .any w) = .ok (v.equals w) := by
  obtain ⟨a, b, ok, ok', same⟩ := Json.freeze_same proper proper'
  rw [KeywordValue.equals]
  rw [ok, ok']
  exact congrArg Except.ok same

theorem equals_number (proper : v.IsProper) (proper' : w.IsProper) :
    KeywordValue.equals (.literal .number v) (.literal .number w) = .ok (v.equals w) := by
  obtain ⟨a, b, ok, ok', same⟩ := Json.freeze_same proper proper'
  rw [KeywordValue.equals]
  rw [ok, ok']
  exact congrArg Except.ok same

/-- Schemas with lists of values differ if the values at some position do. -/
theorem equals_jsonArray (proper : Json.AreProper xs) (proper' : Json.AreProper ys) :
    KeywordValue.equals (.jsonArray xs) (.jsonArray ys) = .ok (Json.equalItems xs ys) := by
  obtain ⟨as, some, ok⟩ := Json.mapM_freeze proper
  obtain ⟨bs, some', ok'⟩ := Json.mapM_freeze proper'
  rw [KeywordValue.equals]
  rw [ok, ok']
  exact congrArg Except.ok (Frozen.sameItems_eq xs ys proper' as bs some some')

theorem equals_limit {a b : Limit}
    (proper : ∀ v, a.bound = some v ∨ a.exclusiveBound = some v → v.IsProper)
    (proper' : ∀ v, b.bound = some v ∨ b.exclusiveBound = some v → v.IsProper) :
    KeywordValue.equals (.limit a) (.limit b) =
      .ok (Json.equalBounds a.bound b.bound && a.exclusive = b.exclusive &&
        Json.equalBounds a.exclusiveBound b.exclusiveBound) := by
  obtain ⟨f, g, ok, ok', same⟩ := Json.freezeOptional_same (a := a.bound) (b := b.bound)
    (fun v mem => proper v (.inl mem)) (fun v mem => proper' v (.inl mem))
  obtain ⟨f', g', ok'', ok''', same'⟩ :=
    Json.freezeOptional_same (a := a.exclusiveBound) (b := b.exclusiveBound)
      (fun v mem => proper v (.inr mem)) (fun v mem => proper' v (.inr mem))
  rw [KeywordValue.equals]
  unfold Limit.equals Limit.freeze
  rw [ok, ok', ok'', ok''']
  change Except.ok (_ && _ && _) = _
  rw [same, same']

end KeywordValue

namespace Check

variable {check : Check} {evaluate refer : Evaluator} {node : InstanceNode}

/-- `enum` asks for a value that is equal to one of its own. -/
theorem settles_enum {values : List Json} (code : check.HasCode)
    (rule : check.rule = .enum values) :
    Settles (check.run evaluate refer node) (∃ value ∈ values, node.value.equals value = true) := by
  unfold run
  rw [rule]
  exact (settles_demand code _ _).congr List.any_eq_true

theorem settles_const {value : Json} (code : check.HasCode) (rule : check.rule = .const value) :
    Settles (check.run evaluate refer node) (node.value.equals value = true) := by
  unfold run
  rw [rule]
  exact settles_demand code _ _

theorem settles_uniqueItems {items : List Json} (code : check.HasCode)
    (rule : check.rule = .uniqueItems) (array : node.value = .array items)
    (proper : node.value.IsProper) :
    Settles (check.run evaluate refer node)
      (items.Pairwise fun x y => x.equals y = false) := by
  rw [array] at proper
  unfold run onItems
  rw [rule, array]
  exact settles_unique code fun item mem => proper.item mem

end Check

/-- There is one equality of values. Between values without a NaN it is an equivalence, and the
least one that lets members change their order and numbers their form, at any depth. Frozen forms
are the same just where values are equal; keyword values are equal where the values in them are, and
`enum`, `const` and `uniqueItems` ask for equal values. -/
theorem Json.one_equality {u v : Json} (placed : u.IsPlaced) (placed' : v.IsPlaced) :
    (u.equals u = true ∧ (u.equals v = true → v.equals u = true) ∧
      ∀ w, u.equals v = true → v.equals w = true → u.equals w = true) ∧
    (u.equals v = true ↔ Restated SamePlace u v) ∧
    (∃ a b, u.freeze = .ok a ∧ v.freeze = .ok b ∧ (a.same b = true ↔ u.equals v = true)) ∧
    (KeywordValue.equals (.literal .any u) (.literal .any v) = .ok (u.equals v) ∧
      KeywordValue.equals (.literal .number u) (.literal .number v) = .ok (u.equals v) ∧
      (∀ xs ys, u = .array xs → v = .array ys →
        KeywordValue.equals (.jsonArray xs) (.jsonArray ys) = .ok (u.equals v)) ∧
      ∀ exclusive, KeywordValue.equals (.limit ⟨some u, exclusive, some u⟩)
        (.limit ⟨some v, exclusive, some v⟩) = .ok (u.equals v)) ∧
    ∀ (check : Check) (evaluate refer : Evaluator) (node : InstanceNode), check.HasCode →
      node.value = u →
      (∀ values, check.rule = .enum values →
        Settles (check.run evaluate refer node) (∃ value ∈ values, u.equals value = true)) ∧
      (∀ value, check.rule = .const value →
        Settles (check.run evaluate refer node) (u.equals value = true)) ∧
      (∀ items, u = .array items → check.rule = .uniqueItems →
        Settles (check.run evaluate refer node)
          (items.Pairwise fun x y => x.equals y = false)) := by
  refine ⟨⟨equals_refl u placed, equals_symm u placed.proper placed'.proper,
    fun w => equals_trans u⟩, equals_iff_restated placed placed', ?_, ⟨?_, ?_, ?_, ?_⟩, ?_⟩
  · obtain ⟨a, b, ok, ok', same⟩ := freeze_same placed.proper placed'.proper
    refine ⟨a, b, ok, ok', ?_⟩
    rw [same]
  · exact KeywordValue.equals_any placed.proper placed'.proper
  · exact KeywordValue.equals_number placed.proper placed'.proper
  · rintro xs ys rfl rfl
    rw [KeywordValue.equals_jsonArray placed.proper placed'.proper, equals]
  · intro exclusive
    have bounds : ∀ v : Json, v.IsPlaced → ∀ x, some v = some x ∨ some v = some x → x.IsProper := by
      rintro v placed x (same | same)
      · exact Option.some.inj same ▸ placed.proper
      · exact Option.some.inj same ▸ placed.proper
    rw [KeywordValue.equals_limit (bounds u placed) (bounds v placed')]
    simp [equalBounds]
  · rintro check evaluate refer node code rfl
    refine ⟨fun values rule => check.settles_enum code rule,
      fun value rule => check.settles_const code rule, ?_⟩
    intro items array rule
    exact check.settles_uniqueItems code rule array placed.proper

namespace Json

/-- Two members. -/
def inOrder : Json :=
  .object [("a", .number (.int 1)), ("b", .array [.null])]

/-- The same members in the other order, with the number written as a decimal. -/
def outOfOrder : Json :=
  .object [("b", .array [.null]), ("a", .number (.decimal (.finite false 10 (-1))))]

/-- Two ways to write one value. -/
theorem inOrder_restated :
    inOrder.equals outOfOrder = true ∧ Restated SamePlace inOrder outOfOrder ∧
      KeywordValue.equals (.literal .any inOrder) (.literal .any outOfOrder) = .ok true := by
  have null : Json.null.IsPlaced := by
    refine ⟨trivial, fun n has => ?_⟩
    cases has with
    | inside inside _ => cases inside
  have placed : inOrder.IsPlaced := by
    refine isPlaced_object.2 ⟨by decide, fun name value mem => ?_⟩
    simp only [List.mem_cons, List.not_mem_nil, or_false] at mem
    rcases mem with same | same
    · cases same
      exact isPlaced_number.2 rfl
    · cases same
      exact isPlaced_array.2 fun item mem => List.mem_singleton.1 mem ▸ null
  have placed' : outOfOrder.IsPlaced := by
    refine isPlaced_object.2 ⟨by decide, fun name value mem => ?_⟩
    simp only [List.mem_cons, List.not_mem_nil, or_false] at mem
    rcases mem with same | same
    · cases same
      exact isPlaced_array.2 fun item mem => List.mem_singleton.1 mem ▸ null
    · cases same
      exact isPlaced_number.2 rfl
  obtain ⟨-, restated, -, ⟨any, -⟩, -⟩ := one_equality placed placed'
  have equal : inOrder.equals outOfOrder = true := by decide +kernel
  rw [equal] at any
  exact ⟨equal, restated.1 equal, any⟩

end Json

end JsonSchema
