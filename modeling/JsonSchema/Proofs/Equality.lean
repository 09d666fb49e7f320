import JsonSchema.Json.Equality
import JsonSchema.Proofs.Parts
import Mathlib.Data.List.Forall2
import Mathlib.Data.List.Perm.Subperm

/-!
# Equality of values

Equal numbers stand at one place of the extended number line (`Number.equals_iff`), so everything
that is read off the place is the same for both. Equality of proper values is symmetric and
transitive, and equal objects have equal values under every name (`Json.lookup_equals`). The values
inside equal values are equal in pairs (`Json.equal_inside`).

A NaN is not equal to itself, so equality is reflexive only where there is none.
-/

namespace JsonSchema

namespace Number

variable {m n k : Number}

/-- Equal numbers have the same place. -/
theorem equals_iff : m.equals n = true ↔ ∃ place, m.place? = some place ∧ n.place? = some place := by
  unfold equals
  cases m.place? <;> cases n.place? <;> simp [eq_comm]

theorem place_congr (equal : m.equals n = true) : m.place? = n.place? := by
  obtain ⟨place, here, there⟩ := equals_iff.1 equal
  rw [here, there]

theorem equals_symm (equal : m.equals n = true) : n.equals m = true := by
  obtain ⟨place, here, there⟩ := equals_iff.1 equal
  exact equals_iff.2 ⟨place, there, here⟩

theorem equals_congr_left (equal : m.equals n = true) (k : Number) : m.equals k = n.equals k := by
  unfold equals
  rw [place_congr equal]

theorem equals_congr_right (equal : m.equals n = true) (k : Number) : k.equals m = k.equals n := by
  unfold equals
  rw [place_congr equal]

theorem less_congr_left (equal : m.equals n = true) (k : Number) : m.less k = n.less k := by
  unfold less
  rw [place_congr equal]

theorem less_congr_right (equal : m.equals n = true) (k : Number) : k.less m = k.less n := by
  unfold less
  rw [place_congr equal]

/-- What a number is, as its place shows it: a whole number or not. -/
theorem isIntegral_eq (n : Number) : n.isIntegral = match n.place? with
    | some (.rational q) => decide (q.den = 1)
    | _ => false := by
  match n with
  | .int k => exact (decide_eq_true rfl).symm
  | .double .nan | .double (.infinite true) | .double (.infinite false) => rfl
  | .double (.finite ..) => rfl
  | .decimal (.infinite true) | .decimal (.infinite false) => rfl
  | .decimal (.finite ..) => rfl

theorem isIntegral_congr (equal : m.equals n = true) : m.isIntegral = n.isIntegral := by
  rw [isIntegral_eq, isIntegral_eq, place_congr equal]

/-- The fraction of a number that is no double, as its place shows it. -/
theorem fraction_eq (exact : ∀ x, n ≠ .double x) : n.fraction = match n.place? with
    | some (.rational q) => .ok q
    | _ => .error .infiniteDecimal := by
  match n, exact with
  | .int k, _ => rfl
  | .double x, exact => exact absurd rfl (exact x)
  | .decimal (.infinite true), _ | .decimal (.infinite false), _ => rfl
  | .decimal (.finite ..), _ => rfl

/-- Equal numbers that are no doubles have the same fraction. -/
theorem fraction_congr (equal : m.equals n = true) (exact : ∀ x, m ≠ .double x)
    (exact' : ∀ x, n ≠ .double x) : m.fraction = n.fraction := by
  rw [fraction_eq exact, fraction_eq exact', place_congr equal]

end Number

namespace Json

/-! ## Equal arrays and objects -/

theorem equalItems_iff {xs ys : List Json} : equalItems xs ys = true ↔
    List.Forall₂ (fun x y => x.equals y = true) xs ys := by
  induction xs generalizing ys with
  | nil => cases ys <;> simp [equalItems]
  | cons x xs ih => cases ys <;> simp [equalItems, ih]

theorem membersIn_iff {xs ys : List (String × Json)} : membersIn xs ys = true ↔
    ∀ name x, (name, x) ∈ xs → ∃ y, ys.lookup name = some y ∧ x.equals y = true := by
  induction xs with
  | nil => simp [membersIn]
  | cons first xs ih =>
    obtain ⟨name, x⟩ := first
    unfold membersIn
    rw [Bool.and_eq_true, ih]
    constructor
    · rintro ⟨head, rest⟩ other x' mem
      rcases List.mem_cons.1 mem with same | later
      · cases same
        cases found : ys.lookup name with
        | none => simp [found] at head
        | some y => exact ⟨y, rfl, by simpa [found] using head⟩
      · exact rest other x' later
    · intro each
      obtain ⟨y, found, equal⟩ := each name x List.mem_cons_self
      refine ⟨by simp [found, equal], fun other x' mem => each other x' (List.mem_cons_of_mem _ mem)⟩

theorem equals_array_iff {xs : List Json} {w : Json} : (Json.array xs).equals w = true ↔
    ∃ ys, w = .array ys ∧ List.Forall₂ (fun x y => x.equals y = true) xs ys := by
  cases w <;> simp [equals, equalItems_iff]

theorem equals_object_iff {xs : List (String × Json)} {w : Json} :
    (Json.object xs).equals w = true ↔ ∃ ys, w = .object ys ∧ xs.length = ys.length ∧
      ∀ name x, (name, x) ∈ xs → ∃ y, ys.lookup name = some y ∧ x.equals y = true := by
  cases w <;> simp [equals, membersIn_iff]

theorem equals_number_iff {m : Number} {w : Json} : (Json.number m).equals w = true ↔
    ∃ n, w = .number n ∧ m.equals n = true := by
  cases w <;> simp [equals]

theorem equals_string_iff {text : String} {w : Json} : (Json.string text).equals w = true ↔
    w = .string text := by
  cases w <;> simp [equals, eq_comm]

/-! ## Transitivity and symmetry -/

mutual

theorem equals_trans : ∀ (x : Json) {y z : Json}, x.equals y = true → y.equals z = true →
    x.equals z = true
  | .null, y, z, first, second => by cases y <;> simp [equals] at first; exact second
  | .bool b, y, z, first, second => by
    cases y <;> simp only [equals, decide_eq_true_eq, Bool.false_eq_true] at first
    subst first
    exact second
  | .number m, y, z, first, second => by
    obtain ⟨n, rfl, same⟩ := equals_number_iff.1 first
    obtain ⟨k, rfl, same'⟩ := equals_number_iff.1 second
    exact equals_number_iff.2 ⟨k, rfl, (Number.equals_congr_left same k).trans same'⟩
  | .string text, y, z, first, second => by
    rw [equals_string_iff.1 first] at second
    exact second
  | .array xs, y, z, first, second => by
    obtain ⟨ys, rfl, each⟩ := equals_array_iff.1 first
    obtain ⟨zs, rfl, each'⟩ := equals_array_iff.1 second
    exact equals_array_iff.2 ⟨zs, rfl, items_trans xs each each'⟩
  | .object xs, y, z, first, second => by
    obtain ⟨ys, rfl, length, each⟩ := equals_object_iff.1 first
    obtain ⟨zs, rfl, length', each'⟩ := equals_object_iff.1 second
    exact equals_object_iff.2 ⟨zs, rfl, length.trans length', members_trans xs each each'⟩
  | .bytes text, y, z, first, second => by
    cases y <;> simp only [equals, decide_eq_true_eq, Bool.false_eq_true] at first
    subst first
    exact second

theorem items_trans : ∀ (xs : List Json) {ys zs : List Json},
    List.Forall₂ (fun x y => x.equals y = true) xs ys →
    List.Forall₂ (fun y z => y.equals z = true) ys zs →
    List.Forall₂ (fun x z => x.equals z = true) xs zs
  | [], _, _, .nil, .nil => .nil
  | x :: xs, _, _, .cons first rest, .cons first' rest' =>
    .cons (equals_trans x first first') (items_trans xs rest rest')

theorem members_trans : ∀ (xs : List (String × Json)) {ys zs : List (String × Json)},
    (∀ name x, (name, x) ∈ xs → ∃ y, ys.lookup name = some y ∧ x.equals y = true) →
    (∀ name y, (name, y) ∈ ys → ∃ z, zs.lookup name = some z ∧ y.equals z = true) →
    ∀ name x, (name, x) ∈ xs → ∃ z, zs.lookup name = some z ∧ x.equals z = true
  | [], _, _, _, _ => nofun
  | (name, x) :: xs, ys, zs, each, each' => by
    intro other x' mem
    rcases List.mem_cons.1 mem with same | later
    · cases same
      obtain ⟨y, found, equal⟩ := each name x List.mem_cons_self
      obtain ⟨z, found', equal'⟩ := each' name y (Members.mem_of_lookup found)
      exact ⟨z, found', equals_trans x equal equal'⟩
    · exact members_trans xs (fun name x mem => each name x (List.mem_cons_of_mem _ mem)) each'
        other x' later

end

/-- Names that are all distinct and all among others of the same number are all of those. -/
theorem mem_keys_of_length {xs ys : List (String × Json)} (distinct : (Members.keys xs).Nodup)
    (length : xs.length = ys.length)
    (each : ∀ name ∈ Members.keys xs, name ∈ Members.keys ys) {name : String}
    (mem : name ∈ Members.keys ys) : name ∈ Members.keys xs := by
  have sub : (Members.keys xs).Subperm (Members.keys ys) :=
    List.subperm_of_subset distinct each
  have same : (Members.keys ys).length ≤ (Members.keys xs).length := by
    simp [Members.keys, length]
  exact (sub.perm_of_length_le same).mem_iff.2 mem

mutual

/-- Equality of proper values is symmetric. -/
theorem equals_symm : ∀ (x : Json) {y : Json}, x.IsProper → y.IsProper → x.equals y = true →
    y.equals x = true
  | .null, y, _, _, equal => by cases y <;> simp [equals] at equal ⊢
  | .bool b, y, _, _, equal => by
    cases y <;> simp only [equals, decide_eq_true_eq, Bool.false_eq_true] at equal ⊢
    exact equal.symm
  | .number m, y, _, _, equal => by
    obtain ⟨n, rfl, same⟩ := equals_number_iff.1 equal
    exact equals_number_iff.2 ⟨m, rfl, Number.equals_symm same⟩
  | .string text, y, _, _, equal => by
    rw [equals_string_iff.1 equal]
    exact equals_string_iff.2 rfl
  | .array xs, y, proper, proper', equal => by
    obtain ⟨ys, rfl, each⟩ := equals_array_iff.1 equal
    unfold IsProper at proper proper'
    exact equals_array_iff.2 ⟨xs, rfl, items_symm xs proper proper' each⟩
  | .object xs, y, proper, proper', equal => by
    obtain ⟨ys, rfl, length, each⟩ := equals_object_iff.1 equal
    unfold IsProper at proper proper'
    refine equals_object_iff.2 ⟨xs, rfl, length.symm, fun name y mem => ?_⟩
    have keys : ∀ name ∈ Members.keys xs, name ∈ Members.keys ys := by
      intro name named
      obtain ⟨⟨_, x⟩, mem, rfl⟩ := List.mem_map.1 named
      obtain ⟨y, found, -⟩ := each _ x mem
      exact List.mem_map.2 ⟨_, Members.mem_of_lookup found, rfl⟩
    obtain ⟨⟨_, x⟩, mem', rfl⟩ := List.mem_map.1
      (mem_keys_of_length proper.1 length keys (List.mem_map.2 ⟨_, mem, rfl⟩))
    obtain ⟨y', found, equal⟩ := members_symm xs proper.2 proper'.2 each _ x mem'
    have same := (Members.lookup_of_mem proper'.1 mem).symm.trans found
    cases same
    exact ⟨x, Members.lookup_of_mem proper.1 mem', equal⟩
  | .bytes text, y, proper, _, _ => by simp [IsProper] at proper

theorem items_symm : ∀ (xs : List Json) {ys : List Json}, AreProper xs → AreProper ys →
    List.Forall₂ (fun x y => x.equals y = true) xs ys →
    List.Forall₂ (fun y x => y.equals x = true) ys xs
  | [], _, _, _, .nil => .nil
  | x :: xs, _, proper, proper', .cons first rest =>
    .cons (equals_symm x proper.1 proper'.1 first) (items_symm xs proper.2 proper'.2 rest)

theorem members_symm : ∀ (xs : List (String × Json)) {ys : List (String × Json)},
    AreProperMembers xs → AreProperMembers ys →
    (∀ name x, (name, x) ∈ xs → ∃ y, ys.lookup name = some y ∧ x.equals y = true) →
    ∀ name x, (name, x) ∈ xs → ∃ y, ys.lookup name = some y ∧ y.equals x = true
  | [], _, _, _, _ => nofun
  | (name, x) :: xs, ys, proper, proper', each => by
    intro other x' mem
    rcases List.mem_cons.1 mem with same | later
    · cases same
      obtain ⟨y, found, equal⟩ := each name x List.mem_cons_self
      have inner := (areProperMembers_iff ys).1 proper' _ (Members.mem_of_lookup found)
      exact ⟨y, found, equals_symm x proper.1 inner equal⟩
    · exact members_symm xs proper.2 proper'
        (fun name x mem => each name x (List.mem_cons_of_mem _ mem)) other x' later

end

section Equal

variable {v w : Json} (proper : v.IsProper) (proper' : w.IsProper) (equal : v.equals w = true)
include equal

theorem instanceType_congr : v.instanceType? = w.instanceType? := by
  cases v with
  | number m =>
    obtain ⟨n, rfl, same⟩ := equals_number_iff.1 equal
    simp only [instanceType?, Number.isIntegral_congr same]
  | array xs =>
    obtain ⟨ys, rfl, -⟩ := equals_array_iff.1 equal
    rfl
  | object xs =>
    obtain ⟨ys, rfl, -⟩ := equals_object_iff.1 equal
    rfl
  | _ =>
    cases w <;> simp [equals] at equal
    rfl

include proper proper'

/-- Whether two values are equal, where one is replaced by an equal one. -/
theorem equals_congr_left (other : Json) : v.equals other = w.equals other := by
  have back := equals_symm v proper proper' equal
  exact Bool.eq_iff_iff.2 ⟨equals_trans w back, equals_trans v equal⟩

theorem equals_congr_right (other : Json) : other.equals v = other.equals w := by
  have back := equals_symm v proper proper' equal
  exact Bool.eq_iff_iff.2 ⟨fun h => equals_trans other h equal, fun h => equals_trans other h back⟩

end Equal

section Members

variable {xs ys : List (String × Json)} (proper : (Json.object xs).IsProper)
  (proper' : (Json.object ys).IsProper) (equal : (Json.object xs).equals (.object ys) = true)
include proper proper' equal

/-- Equal objects have equal values under every name. -/
theorem lookup_equals (name : String) : Option.Rel (fun x y => x.equals y = true)
    (xs.lookup name) (ys.lookup name) := by
  obtain ⟨_, ⟨⟩, -, each⟩ := equals_object_iff.1 equal
  obtain ⟨_, ⟨⟩, -, back⟩ := equals_object_iff.1 (equals_symm _ proper proper' equal)
  cases found : xs.lookup name with
  | some x =>
    obtain ⟨y, found', same⟩ := each name x (Members.mem_of_lookup found)
    rw [found']
    exact .some same
  | none =>
    cases found' : ys.lookup name with
    | none => exact .none
    | some y =>
      obtain ⟨x, found'', -⟩ := back name y (Members.mem_of_lookup found')
      rw [found] at found''
      cases found''

end Members

end Json

end JsonSchema
