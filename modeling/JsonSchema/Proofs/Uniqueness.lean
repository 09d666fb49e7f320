import JsonSchema.Proofs.Equality
import JsonSchema.Proofs.Frozen
import JsonSchema.Validation.Validate

/-!
# Repetitions in arrays

`uniqueItems` goes through the items of an array once, with a table of the frozen forms that it has
come across and the positions where they stood. The table holds one entry for each item so far
(`Remembers`), so the search ends at the first position where a value stands again, and the other
position that it names is the only earlier one with an equal value (`firstRepetition_finds`).

* `Check.run_unique`: the check finds nothing exactly if no two items are equal, and otherwise has
  one violation, which names this pair.

A NaN is equal to nothing, so it never repeats.
-/

namespace JsonSchema

namespace Json

variable {items before rest : List Json} {i j : Nat}

/-- Equal values stand at two positions of a list. -/
def EqualAt (items : List Json) (i j : Nat) : Prop :=
  ∃ x y, items[i]? = some x ∧ items[j]? = some y ∧ x.equals y = true

/-- The first repetition in a list: `j` is the least position with a value that is equal to one
before it, and `i` is where the equal value stands. -/
structure IsFirstRepetition (items : List Json) (i j : Nat) : Prop where
  before : i < j
  equal : EqualAt items i j
  least : ∀ k m, k < m → EqualAt items k m → j ≤ m
  only : ∀ k, k < j → EqualAt items k j → k = i

theorem EqualAt.symm (proper : ∀ item ∈ items, item.IsProper) :
    EqualAt items i j → EqualAt items j i := by
  rintro ⟨x, y, first, second, equal⟩
  exact ⟨y, x, second, first, equals_symm x (proper x (List.mem_of_getElem? first))
    (proper y (List.mem_of_getElem? second)) equal⟩

/-- Only values of the list are compared. -/
theorem EqualAt.lt (equal : EqualAt items i j) : i < items.length ∧ j < items.length := by
  obtain ⟨x, y, first, second, -⟩ := equal
  exact ⟨(List.getElem?_eq_some_iff.1 first).1, (List.getElem?_eq_some_iff.1 second).1⟩

theorem equalAt_append (here : i < before.length) (there : j < before.length) :
    EqualAt (before ++ rest) i j ↔ EqualAt before i j := by
  unfold EqualAt
  rw [List.getElem?_append_left here, List.getElem?_append_left there]

/-- The last value of a list is equal to one before it exactly if that one is equal to it. -/
theorem equalAt_snoc {item : Json} (here : i < before.length) :
    EqualAt (before ++ item :: rest) i before.length ↔
      ∃ x, before[i]? = some x ∧ x.equals item = true := by
  unfold EqualAt
  rw [List.getElem?_append_left here, List.getElem?_append_right le_rfl, Nat.sub_self]
  constructor
  · rintro ⟨x, y, first, second, equal⟩
    cases second
    exact ⟨x, first, equal⟩
  · rintro ⟨x, first, equal⟩
    exact ⟨x, item, first, rfl, equal⟩

/-- No two values of a list are equal. -/
theorem pairwise_iff_equalAt : items.Pairwise (fun x y => x.equals y = false) ↔
    ∀ i j, i < j → ¬ EqualAt items i j := by
  rw [List.pairwise_iff_getElem]
  constructor
  · rintro apart i j order ⟨x, y, first, second, equal⟩
    obtain ⟨here, rfl⟩ := List.getElem?_eq_some_iff.1 first
    obtain ⟨there, rfl⟩ := List.getElem?_eq_some_iff.1 second
    rw [apart i j here there order] at equal
    cases equal
  · intro apart i j here there order
    rw [← Bool.not_eq_true]
    intro equal
    exact apart i j order
      ⟨_, _, List.getElem?_eq_getElem here, List.getElem?_eq_getElem there, equal⟩

end Json

namespace Check

open Json

variable {before items : List Json} {seen : List (Frozen × Nat)}

/-- What the table holds after a part of the items: the frozen form of each of them with its
position, and nothing else. No two of them are equal. -/
structure Remembers (before : List Json) (seen : List (Frozen × Nat)) : Prop where
  held : ∀ k x, before[k]? = some x → ∃ frozen, x.freeze? = some frozen ∧ (frozen, k) ∈ seen
  placed : ∀ frozen k, (frozen, k) ∈ seen → ∃ x, before[k]? = some x ∧ x.freeze? = some frozen
  apart : ∀ k m, k < m → ¬ EqualAt before k m

namespace Remembers

theorem nil : Remembers [] [] where
  held := nofun
  placed := nofun
  apart := fun _ _ _ equal => Nat.not_lt_zero _ equal.lt.1

variable {item : Json} {frozen : Frozen}

/-- An entry that is the same as the frozen form of a value stands for an equal value. -/
theorem find_some (table : Remembers before seen) (proper : item.IsProper)
    (form : item.freeze? = some frozen) {entry : Frozen × Nat}
    (found : seen.find? (fun entry => entry.1.same frozen) = some entry) :
    ∃ x, before[entry.2]? = some x ∧ x.equals item = true := by
  obtain ⟨x, stands, form'⟩ := table.placed entry.1 entry.2 (List.mem_of_find?_eq_some found)
  have same := List.find?_some found
  rw [Frozen.same_eq_equals x item proper entry.1 frozen form' form] at same
  exact ⟨x, stands, same⟩

/-- Without such an entry no value so far is equal. -/
theorem find_none (table : Remembers before seen) (proper : item.IsProper)
    (form : item.freeze? = some frozen)
    (found : seen.find? (fun entry => entry.1.same frozen) = none) :
    ∀ (k : Nat) (x : Json), before[k]? = some x → x.equals item = false := by
  intro k x stands
  obtain ⟨form', kept, mem⟩ := table.held k x stands
  have apart := List.find?_eq_none.1 found (form', k) mem
  rwa [Frozen.same_eq_equals x item proper form' frozen kept form, Bool.not_eq_true] at apart

/-- The table after one more value that is equal to none so far. -/
theorem snoc (table : Remembers before seen) (form : item.freeze? = some frozen)
    (fresh : ∀ (k : Nat) (x : Json), before[k]? = some x → x.equals item = false) :
    Remembers (before ++ [item]) (seen ++ [(frozen, before.length)]) where
  held := by
    intro k x stands
    rcases Nat.lt_or_ge k before.length with here | behind
    · rw [List.getElem?_append_left here] at stands
      obtain ⟨form', kept, mem⟩ := table.held k x stands
      exact ⟨form', kept, List.mem_append_left _ mem⟩
    · have last : k < (before ++ [item]).length := (List.getElem?_eq_some_iff.1 stands).1
      obtain rfl : k = before.length := by simp at last; omega
      simp only [List.getElem?_append_right le_rfl, Nat.sub_self, List.getElem?_cons_zero,
        Option.some.injEq] at stands
      subst stands
      exact ⟨frozen, form, by simp⟩
  placed := by
    intro form' k mem
    rcases List.mem_append.1 mem with mem | mem
    · obtain ⟨x, stands, kept⟩ := table.placed form' k mem
      exact ⟨x, by rw [List.getElem?_append_left (List.getElem?_eq_some_iff.1 stands).1, stands],
        kept⟩
    · cases List.mem_singleton.1 mem
      exact ⟨item, by simp, form⟩
  apart := by
    intro k m order equal
    have within := equal.lt.2
    rw [List.length_append, List.length_singleton] at within
    rcases Nat.lt_or_ge m before.length with here | behind
    · exact table.apart k m order ((equalAt_append (by omega) here).1 equal)
    · obtain rfl : m = before.length := by omega
      obtain ⟨x, stands, equal⟩ := (equalAt_snoc order).1 equal
      rw [fresh k x stands] at equal
      cases equal

/-- Where a value stands again for the first time, one position before it has an equal value. -/
theorem isFirstRepetition (table : Remembers before seen) {rest : List Json} {k : Nat} {x : Json}
    (proper : ∀ value ∈ before ++ item :: rest, value.IsProper) (stands : before[k]? = some x)
    (equal : x.equals item = true) :
    IsFirstRepetition (before ++ item :: rest) k before.length := by
  have order : k < before.length := (List.getElem?_eq_some_iff.1 stands).1
  refine ⟨order, (equalAt_snoc order).2 ⟨x, stands, equal⟩, ?_, ?_⟩
  · intro i m less same
    by_contra early
    exact table.apart i m less ((equalAt_append (by omega) (by omega)).1 same)
  · intro i less same
    obtain ⟨y, stands', equal'⟩ := (equalAt_snoc less).1 same
    have proper_item : item.IsProper := proper item (by simp)
    have proper_before : ∀ value ∈ before, value.IsProper := fun value mem =>
      proper value (List.mem_append_left _ mem)
    have proper_x := proper_before x (List.mem_of_getElem? stands)
    have meet : EqualAt before i k :=
      ⟨y, x, stands', stands, equals_trans y equal' (equals_symm x proper_x proper_item equal)⟩
    -- two different positions with values equal to this one would already be a repetition
    rcases Nat.lt_trichotomy i k with less | rfl | more
    · exact absurd meet (table.apart i k less)
    · rfl
    · exact absurd (meet.symm proper_before) (table.apart k i more)

end Remembers

/-- The search for a repetition, behind values that are already in the table: it finds the first one
of the whole list, or there is none. -/
theorem firstRepetition_finds (table : Remembers before seen)
    (proper : ∀ item ∈ before ++ items, item.IsProper) :
    ∃ found, firstRepetition before.length seen items = .ok found ∧
      (found = none → ∀ i j, i < j → ¬ EqualAt (before ++ items) i j) ∧
      ∀ i j, found = some (i, j) → IsFirstRepetition (before ++ items) i j := by
  induction items generalizing before seen with
  | nil => exact ⟨none, rfl, fun _ => by rw [List.append_nil]; exact table.apart, nofun⟩
  | cons item rest ih =>
    have proper_item : item.IsProper := proper item (by simp)
    obtain ⟨frozen, form, ok⟩ := Json.freeze_ok proper_item
    unfold firstRepetition
    rw [ok]
    simp only [bind, Except.bind]
    cases found : seen.find? (fun entry => entry.1.same frozen) with
    | some entry =>
      obtain ⟨x, stands, equal⟩ := table.find_some proper_item form found
      refine ⟨some (entry.2, before.length), rfl, nofun, ?_⟩
      rintro i j same
      cases same
      exact table.isFirstRepetition proper stands equal
    | none =>
      have longer := table.snoc form (table.find_none proper_item form found)
      have whole : before ++ [item] ++ rest = before ++ item :: rest := by simp
      have ih' := ih longer (by rw [whole]; exact proper)
      rw [whole, List.length_append, List.length_singleton] at ih'
      exact ih'

/-- The check of `uniqueItems` at a place. -/
def unique (location : String) : Check :=
  { keyword := some Builtin.uniqueItems, location, rule := .uniqueItems }

/-- Compiling makes this check of the keyword if its value is true, and none otherwise. -/
theorem checkOf_uniqueItems (compiler : Compiler) (graph : SchemaGraph)
    (recur : Compile.SchemaCompiler) (owner : Schema) (location : String)
    (kind : LiteralKind) (flag : Json) :
    Compile.checkOf compiler graph recur owner location Builtin.uniqueItems (.literal kind flag) =
      pure (if flag.isTruthy then
        some (unique (Place.join location [Builtin.uniqueItems.key])) else none) := by
  have assertion : Assertion.ofKey? Builtin.uniqueItems.key = some .uniqueItems := by decide
  unfold Compile.checkOf
  rw [assertion]
  simp only [Compile.ruleOf, pure_bind]
  cases flag.isTruthy <;> rfl

/-- `uniqueItems` reports the first pair of equal items: the check finds nothing exactly if no two
items are equal, and otherwise one violation, which names the least position with a value that stands
before it and the one position where it stands. -/
theorem run_unique (location : String) (evaluate refer : Evaluator) {node : InstanceNode}
    {items : List Json} (array : node.value = .array items)
    (proper : ∀ item ∈ items, item.IsProper) :
    ((unique location).run evaluate refer node = .ok [] ↔ ∀ i j, i ≠ j → ¬ EqualAt items i j) ∧
    ((∃ i j, i ≠ j ∧ EqualAt items i j) → ∃ i j, IsFirstRepetition items i j ∧
      (unique location).run evaluate refer node =
        .ok [.mk node.pointer location (some Builtin.uniqueItems.key)
          (.keyword Builtin.uniqueItems.key) (.equalItems i j) []]) := by
  obtain ⟨found, ok, absent, first⟩ := firstRepetition_finds .nil proper
  have runs : (unique location).run evaluate refer node = (unique location).runUnique node items := by
    unfold run onItems
    rw [array]
    rfl
  rw [runs]
  unfold runUnique
  rw [show firstRepetition 0 [] items = .ok found from ok]
  cases found with
  | none =>
    have apart : ∀ i j, i ≠ j → ¬ EqualAt items i j := by
      intro i j differ equal
      rcases Nat.lt_or_gt_of_ne differ with less | more
      · exact absent rfl i j less equal
      · exact absent rfl j i more (equal.symm proper)
    refine ⟨iff_of_true rfl apart, ?_⟩
    rintro ⟨i, j, differ, equal⟩
    exact absurd equal (apart i j differ)
  | some pair =>
    obtain ⟨i, j⟩ := pair
    have here : IsFirstRepetition items i j := first i j rfl
    have code : Report.codeOf Builtin.uniqueItems.key = .ok (.keyword Builtin.uniqueItems.key) := by
      rfl
    have runs : (unique location).fails node (.equalItems i j) [] =
        .ok [.mk node.pointer location (some Builtin.uniqueItems.key)
          (.keyword Builtin.uniqueItems.key) (.equalItems i j) []] := by
      unfold fails
      rw [show (unique location).key = Builtin.uniqueItems.key from rfl, code]
      rfl
    refine ⟨iff_of_false ?_ ?_, fun _ => ⟨i, j, here, runs⟩⟩
    · intro none
      have := runs.symm.trans none
      simp at this
    · intro apart
      exact apart i j here.before.ne here.equal

/-- One, two, and one again, written as a decimal and as an integer. -/
def ones : List Json :=
  [.number (.int 1), .number (.int 2), .number (.decimal (.finite false 10 (-1))), .number (.int 1)]

/-- Three items are equal; the first pair of them is reported. -/
theorem ones_repeat :
    (InstanceNode.root (.array ones)).value = .array ones ∧ (∀ item ∈ ones, item.IsProper) ∧
      (unique "#/uniqueItems").run (fun _ _ => .ok []) (fun _ _ => .ok []) (.root (.array ones)) =
        .ok [.mk "#" "#/uniqueItems" (some "uniqueItems") (.keyword "uniqueItems")
          (.equalItems 0 2) []] := by
  have array : (InstanceNode.root (.array ones)).value = .array ones := rfl
  have proper : ∀ item ∈ ones, item.IsProper := by
    simp [ones, IsProper]
  have again : EqualAt ones 0 2 := ⟨_, _, rfl, rfl, by decide +kernel⟩
  obtain ⟨-, reports⟩ :=
    run_unique "#/uniqueItems" (fun _ _ => .ok []) (fun _ _ => .ok []) array proper
  obtain ⟨i, j, first, runs⟩ := reports ⟨0, 2, by decide, again⟩
  have least : j ≤ 2 := first.least 0 2 (by decide) again
  have differ : j ≠ 1 := by
    rintro rfl
    obtain ⟨x, y, here, there, equal⟩ := first.equal
    obtain rfl : i = 0 := by have := first.before; omega
    cases here
    cases there
    revert equal
    decide +kernel
  obtain rfl : j = 2 := by have := first.before; omega
  obtain rfl : 0 = i := first.only 0 (by decide) again
  exact ⟨array, proper, runs⟩

end Check

end JsonSchema
