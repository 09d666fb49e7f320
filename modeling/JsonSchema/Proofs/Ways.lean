import JsonSchema.Loading.Loader
import JsonSchema.Proofs.Meaning
import Mathlib.Data.List.Induction
import Mathlib.Data.Set.Basic
import Mathlib.Tactic.IntervalCases

/-!
# The ways in a document

`Json.ways` lists the pointers to all values in a value; there are as many as its size. A pointer
that resolves leads to values whose ways are among those of the document (`Pointer.ways_resolve`),
because a position is written in one way only (`Pointer.index_eq`). The URIs of all ways of a value
are its keys. Whatever is loaded below a value, or is found in it by a pointer, has its keys among
them (`Json.IsKeyed`).
-/

namespace JsonSchema

/-! ## Positions -/

namespace Pointer

theorem digitsValue_concat (digits : List Char) (c : Char) :
    digitsValue? (digits ++ [c]) = (digitsValue? digits).bind fun v =>
      if c.isDigit then some (10 * v + (c.toNat - 48)) else none := by
  unfold digitsValue?
  rw [List.foldl_append]
  rfl

theorem digitChar_toNat {c : Char} (digit : c.isDigit = true) :
    (c.toNat - 48).digitChar = c := by
  have range : 48 ≤ c.toNat ∧ c.toNat ≤ 57 := by
    simp only [Char.isDigit, Bool.and_eq_true, decide_eq_true_eq, UInt32.le_iff_toNat_le] at digit
    exact digit
  have same : c = Char.ofNat c.toNat := (Char.ofNat_toNat c).symm
  obtain ⟨low, high⟩ := range
  generalize c.toNat = n at same low high
  subst same
  interval_cases n <;> rfl

/-- Digits without a leading zero are those of their value. -/
theorem toDigits_digitsValue (digits : List Char) (n : Nat) (nonempty : digits ≠ [])
    (leading : digits = ['0'] ∨ digits.head? ≠ some '0')
    (value : digitsValue? digits = some n) : Nat.toDigits 10 n = digits := by
  induction digits using List.reverseRecOn generalizing n with
  | nil => exact absurd rfl nonempty
  | append_singleton front c ih =>
    rw [digitsValue_concat, Option.bind_eq_some_iff] at value
    obtain ⟨v, frontValue, last⟩ := value
    split at last
    · next digit =>
      cases last
      have small : c.toNat - 48 < 10 := by
        simp only [Char.isDigit, Bool.and_eq_true, decide_eq_true_eq,
          UInt32.le_iff_toNat_le] at digit
        have high : c.toNat ≤ 57 := digit.2
        omega
      cases front with
      | nil =>
        cases frontValue
        rw [Nat.mul_zero, Nat.zero_add, Nat.toDigits_of_lt_base small, digitChar_toNat digit]
        rfl
      | cons first rest =>
        have head : first ≠ '0' := by
          rcases leading with same | other
          · cases rest <;> simp at same
          · simpa using other
        have front := ih v (by simp) (.inr (by simpa using head)) frontValue
        have positive : 0 < v := by
          rcases Nat.eq_zero_or_pos v with rfl | positive
          · rw [Nat.toDigits_zero] at front
            injection front with same
            exact absurd same.symm head
          · exact positive
        rw [← Nat.toDigits_append_toDigits (by decide) positive small, front,
          Nat.toDigits_of_lt_base small, digitChar_toNat digit]
    · cases last

/-- A position is written in one way. -/
theorem index_eq {segment : String} {position : Nat} (h : index? segment = some position) :
    segment = toString position := by
  have digits : Nat.toDigits 10 position = segment.toList := by
    unfold index? at h
    dsimp only at h
    split at h
    · next zero =>
      cases h
      rw [zero]
      rfl
    · split at h
      · cases h
      · next leading =>
        split at h
        · cases h
        · next nonempty =>
          refine toDigits_digitsValue segment.toList position ?_ (.inr leading) h
          intro none
          rw [none] at nonempty
          exact nonempty rfl
  rw [Nat.toString_eq_ofList_toDigits, digits, String.ofList_toList]

end Pointer

/-! ## Ways -/

namespace Json

mutual

/-- The pointers to all values in a value. -/
def ways : Json → List Pointer
  | .array items => [] :: waysOfItems 0 items
  | .object members => [] :: waysOfMembers members
  | _ => [[]]

/-- The pointers into items that begin at a position. -/
def waysOfItems (position : Nat) : List Json → List Pointer
  | [] => []
  | item :: rest => (ways item).map (toString position :: ·) ++ waysOfItems (position + 1) rest

/-- The pointers into members. -/
def waysOfMembers : List (String × Json) → List Pointer
  | [] => []
  | (name, value) :: rest => (ways value).map (name :: ·) ++ waysOfMembers rest

end

mutual

theorem length_ways : ∀ value : Json, value.ways.length = value.size
  | .array items => by
    rw [ways, size, List.length_cons, length_waysOfItems 0 items, Nat.add_comm]
  | .object members => by
    rw [ways, size, List.length_cons, length_waysOfMembers members, Nat.add_comm]
  | .null | .bool _ | .number _ | .string _ | .bytes _ => rfl

theorem length_waysOfItems (position : Nat) :
    ∀ items : List Json, (waysOfItems position items).length = sizeOfItems items
  | [] => rfl
  | item :: rest => by
    rw [waysOfItems, sizeOfItems, List.length_append, List.length_map, length_ways item,
      length_waysOfItems (position + 1) rest]

theorem length_waysOfMembers :
    ∀ members : List (String × Json), (waysOfMembers members).length = sizeOfMembers members
  | [] => rfl
  | (name, value) :: rest => by
    rw [waysOfMembers, sizeOfMembers, List.length_append, List.length_map, length_ways value,
      length_waysOfMembers rest]

end

theorem nil_mem_ways (value : Json) : [] ∈ value.ways := by
  cases value <;> exact List.mem_cons_self

variable {way : Pointer}

theorem mem_waysOfItems {items : List Json} {item : Json} {start position : Nat}
    (mem : (item, position) ∈ items.zipIdx start) (inside : way ∈ item.ways) :
    toString position :: way ∈ waysOfItems start items := by
  induction items generalizing start with
  | nil => exact absurd mem List.not_mem_nil
  | cons first rest ih =>
    rw [List.zipIdx_cons] at mem
    rw [waysOfItems]
    rcases List.mem_cons.1 mem with same | later
    · cases same
      exact List.mem_append_left _ (List.mem_map_of_mem inside)
    · exact List.mem_append_right _ (ih later)

theorem mem_waysOfMembers {members : List (String × Json)} {name : String} {value : Json}
    (mem : (name, value) ∈ members) (inside : way ∈ value.ways) :
    name :: way ∈ waysOfMembers members := by
  induction members with
  | nil => exact absurd mem List.not_mem_nil
  | cons first rest ih =>
    obtain ⟨other, old⟩ := first
    rw [waysOfMembers]
    rcases List.mem_cons.1 mem with same | later
    · cases same
      exact List.mem_append_left _ (List.mem_map_of_mem inside)
    · exact List.mem_append_right _ (ih later)

theorem ways_item {items : List Json} {item : Json} {position : Nat}
    (mem : (item, position) ∈ items.zipIdx) (inside : way ∈ item.ways) :
    toString position :: way ∈ (Json.array items).ways := by
  rw [ways]
  exact List.mem_cons_of_mem _ (mem_waysOfItems mem inside)

theorem ways_member {members : List (String × Json)} {name : String} {value : Json}
    (mem : (name, value) ∈ members) (inside : way ∈ value.ways) :
    name :: way ∈ (Json.object members).ways := by
  rw [ways]
  exact List.mem_cons_of_mem _ (mem_waysOfMembers mem inside)

end Json

namespace Pointer

variable {value child : Json}

/-- What a step leads to: a member of that name, or the item at the position it writes. -/
theorem step_cases {segment : String} (ok : step value segment = .ok child) :
    (∃ members, value = .object members ∧ (segment, child) ∈ members) ∨
    (∃ items position, value = .array items ∧ segment = toString position ∧
      (child, position) ∈ items.zipIdx) := by
  unfold step at ok
  split at ok
  · next members =>
    split at ok
    · next found =>
      cases ok
      exact .inl ⟨members, rfl, Members.mem_of_lookup found⟩
    · cases ok
  · next items =>
    split at ok
    · cases ok
    · next position written =>
      split at ok
      · next found =>
        cases ok
        refine .inr ⟨items, position, rfl, index_eq written, ?_⟩
        exact List.mem_zipIdx_iff_getElem?.2 found
      · cases ok
  · cases ok

theorem ways_step {segment : String} {way : Pointer} (ok : step value segment = .ok child)
    (inside : way ∈ child.ways) : segment :: way ∈ value.ways := by
  rcases step_cases ok with ⟨members, rfl, mem⟩ | ⟨items, position, rfl, rfl, mem⟩
  · exact Json.ways_member mem inside
  · exact Json.ways_item mem inside

/-- A pointer that resolves leads to ways of the document. -/
theorem ways_resolve {whole pointer way : Pointer}
    (ok : resolveFrom whole value pointer = .ok child) (inside : way ∈ child.ways) :
    pointer ++ way ∈ value.ways := by
  induction pointer generalizing value with
  | nil =>
    cases ok
    exact inside
  | cons segment rest ih =>
    rw [resolveFrom] at ok
    split at ok
    · next next here => exact ways_step here (ih ok)
    · cases ok

theorem isProper_step {segment : String} (ok : step value segment = .ok child)
    (proper : value.IsProper) : child.IsProper := by
  rcases step_cases ok with ⟨members, rfl, mem⟩ | ⟨items, position, rfl, rfl, mem⟩
  · exact (Json.areProperMembers_iff members).1 proper.2 _ mem
  · exact (Json.areProper_iff items).1 proper _ (List.fst_mem_of_mem_zipIdx mem)

theorem isProper_resolve {whole pointer : Pointer}
    (ok : resolveFrom whole value pointer = .ok child) (proper : value.IsProper) :
    child.IsProper := by
  induction pointer generalizing value with
  | nil =>
    cases ok
    exact proper
  | cons segment rest ih =>
    rw [resolveFrom] at ok
    split at ok
    · next next here => exact ih ok (isProper_step here proper)
    · cases ok

end Pointer

/-! ## Keys -/

namespace Json

/-- The URIs of all values in a value that stands at a pointer of a document. -/
def keys (documentUri : String) (base : Pointer) (value : Json) : List String :=
  value.ways.filterMap fun way =>
    (Uri.normalize (documentUri ++ Location.fragmentOf (base ++ way))).toOption

theorem length_keys (documentUri : String) (base : Pointer) (value : Json) :
    (value.keys documentUri base).length ≤ value.size :=
  le_of_le_of_eq (List.length_filterMap_le _ _) (length_ways value)

/-- The URIs of all values in a value that stands at a pointer of a document are among some keys. -/
def IsKeyed (keys : Set String) (documentUri : String) (base : Pointer) (value : Json) : Prop :=
  ∀ key ∈ value.keys documentUri base, key ∈ keys

variable {keys : Set String} {documentUri : String} {base : Pointer} {value child : Json}

theorem IsKeyed.mem (keyed : value.IsKeyed keys documentUri base) {key : String}
    (ok : Uri.normalize (documentUri ++ Location.fragmentOf base) = .ok key) : key ∈ keys := by
  refine keyed key (List.mem_filterMap.2 ⟨[], nil_mem_ways value, ?_⟩)
  rw [List.append_nil, ok]
  rfl

/-- The keys of a value that a pointer leads to. -/
theorem IsKeyed.below {pointer : Pointer}
    (ways : ∀ way ∈ child.ways, pointer ++ way ∈ value.ways)
    (keyed : value.IsKeyed keys documentUri base) :
    child.IsKeyed keys documentUri (base ++ pointer) := by
  intro key mem
  obtain ⟨way, inside, ok⟩ := List.mem_filterMap.1 mem
  refine keyed key (List.mem_filterMap.2 ⟨pointer ++ way, ways way inside, ?_⟩)
  rw [List.append_assoc] at ok
  exact ok

theorem IsKeyed.item {items : List Json} {position : Nat}
    (keyed : (Json.array items).IsKeyed keys documentUri base)
    (mem : (child, position) ∈ items.zipIdx) :
    child.IsKeyed keys documentUri (base ++ [toString position]) :=
  keyed.below (fun _ inside => ways_item mem inside)

theorem IsKeyed.member {members : List (String × Json)} {name : String}
    (keyed : (Json.object members).IsKeyed keys documentUri base)
    (mem : (name, child) ∈ members) :
    child.IsKeyed keys documentUri (base ++ [name]) :=
  keyed.below (fun _ inside => ways_member mem inside)

theorem IsKeyed.resolve {whole pointer : Pointer}
    (keyed : value.IsKeyed keys documentUri base)
    (ok : Pointer.resolveFrom whole value pointer = .ok child) :
    child.IsKeyed keys documentUri (base ++ pointer) :=
  keyed.below (fun _ inside => Pointer.ways_resolve ok inside)

end Json

end JsonSchema
