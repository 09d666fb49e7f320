import JsonSchema.Schema.Equality
import JsonSchema.Proofs.Meaning

/-!
# Frozen values

Every proper value has a frozen form (`freeze_ok`), and two frozen forms are the same exactly if the
values are equal (`same_eq_equals`). So a table of frozen forms finds the repetitions of a list of
values.
-/

namespace JsonSchema

namespace Json

mutual

/-- Every proper value has a frozen form. -/
theorem freeze_some : ∀ (value : Json), value.IsProper → ∃ frozen, value.freeze? = some frozen
  | .null, _ => ⟨_, rfl⟩
  | .bool _, _ => ⟨_, rfl⟩
  | .number _, _ => ⟨_, rfl⟩
  | .string _, _ => ⟨_, rfl⟩
  | .array items, proper => by
    unfold IsProper at proper
    obtain ⟨frozen, h⟩ := freezeItems_some items proper
    exact ⟨.array frozen, by simp [freeze?, h]⟩
  | .object members, proper => by
    unfold IsProper at proper
    obtain ⟨frozen, h⟩ := freezeMembers_some members proper.2
    exact ⟨.object frozen, by simp [freeze?, h]⟩
  | .bytes _, proper => by simp [IsProper] at proper

theorem freezeItems_some : ∀ (items : List Json), AreProper items →
    ∃ frozen, freezeItems? items = some frozen
  | [], _ => ⟨[], rfl⟩
  | item :: rest, proper => by
    obtain ⟨frozen, h⟩ := freeze_some item proper.1
    obtain ⟨others, h'⟩ := freezeItems_some rest proper.2
    exact ⟨frozen :: others, by simp [freezeItems?, h, h']⟩

theorem freezeMembers_some : ∀ (members : List (String × Json)), AreProperMembers members →
    ∃ frozen, freezeMembers? members = some frozen
  | [], _ => ⟨[], rfl⟩
  | (name, value) :: rest, proper => by
    obtain ⟨frozen, h⟩ := freeze_some value proper.1
    obtain ⟨others, h'⟩ := freezeMembers_some rest proper.2
    exact ⟨(name, frozen) :: others, by simp [freezeMembers?, h, h']⟩

end

theorem freeze_ok {value : Json} (proper : value.IsProper) :
    ∃ frozen, value.freeze? = some frozen ∧ value.freeze = .ok frozen := by
  obtain ⟨frozen, h⟩ := freeze_some value proper
  exact ⟨frozen, h, by simp [freeze, h]⟩

end Json

namespace Frozen

open Json

theorem freezeItems_cons {item : Json} {rest : List Json} {frozen : List Frozen}
    (h : freezeItems? (item :: rest) = some frozen) :
    ∃ head others, item.freeze? = some head ∧ freezeItems? rest = some others ∧
      frozen = head :: others := by
  cases hi : item.freeze? with
  | none => simp [freezeItems?, hi] at h
  | some head =>
    cases hr : freezeItems? rest with
    | none => simp [freezeItems?, hi, hr] at h
    | some others => exact ⟨head, others, rfl, rfl, by simpa [freezeItems?, hi, hr] using h.symm⟩

theorem freezeMembers_cons {name : String} {value : Json} {rest : List (String × Json)}
    {frozen : List (String × Frozen)} (h : freezeMembers? ((name, value) :: rest) = some frozen) :
    ∃ head others, value.freeze? = some head ∧ freezeMembers? rest = some others ∧
      frozen = (name, head) :: others := by
  cases hv : value.freeze? with
  | none => simp [freezeMembers?, hv] at h
  | some head =>
    cases hr : freezeMembers? rest with
    | none => simp [freezeMembers?, hv, hr] at h
    | some others => exact ⟨head, others, rfl, rfl, by simpa [freezeMembers?, hv, hr] using h.symm⟩

/-- What the frozen members have under a name is the frozen form of what the members have. -/
theorem lookup_freezeMembers {members : List (String × Json)} {frozen : List (String × Frozen)}
    (h : freezeMembers? members = some frozen) (name : String) :
    frozen.lookup name = (members.lookup name).bind freeze? := by
  induction members generalizing frozen with
  | nil =>
    simp only [freezeMembers?, Option.some.injEq] at h
    subst h
    rfl
  | cons member rest ih =>
    obtain ⟨first, value⟩ := member
    obtain ⟨head, others, hv, hr, rfl⟩ := freezeMembers_cons h
    by_cases equal : name = first
    · subst equal
      simp [hv]
    · simp [List.lookup_cons, beq_eq_false_iff_ne.2 equal, ih hr]

theorem keys_freezeMembers {members : List (String × Json)} {frozen : List (String × Frozen)}
    (h : freezeMembers? members = some frozen) :
    Members.keys frozen = Members.keys members := by
  induction members generalizing frozen with
  | nil =>
    simp only [freezeMembers?, Option.some.injEq] at h
    subst h
    rfl
  | cons member rest ih =>
    obtain ⟨first, value⟩ := member
    obtain ⟨head, others, -, hr, rfl⟩ := freezeMembers_cons h
    have keys := ih hr
    simp only [Members.keys, List.map_cons, List.cons.injEq, true_and] at keys ⊢
    exact keys

theorem length_freezeMembers {members : List (String × Json)} {frozen : List (String × Frozen)}
    (h : freezeMembers? members = some frozen) : frozen.length = members.length := by
  simpa [Members.keys] using congrArg List.length (keys_freezeMembers h)

/-- Among members of distinct names, the one with a property and a name is the one of that name. -/
theorem any_eq_lookup {members : List (String × Frozen)} (distinct : (Members.keys members).Nodup)
    (name : String) (test : Frozen → Bool) :
    (members.any fun (other, y) => other = name && test y) =
      ((members.lookup name).map test).getD false := by
  induction members with
  | nil => rfl
  | cons member rest ih =>
    obtain ⟨first, value⟩ := member
    simp only [Members.keys, List.map_cons, List.nodup_cons] at distinct
    have rest_eq := ih distinct.2
    by_cases equal : first = name
    · subst equal
      have absent : rest.lookup first = none := by
        rw [List.lookup_eq_none_iff]
        intro member mem
        rw [bne_iff_ne]
        intro same
        exact distinct.1 (List.mem_map.2 ⟨member, mem, same.symm⟩)
      rw [absent] at rest_eq
      rw [List.any_cons, rest_eq]
      simp
    · rw [List.any_cons, rest_eq]
      simp [List.lookup_cons, equal, beq_eq_false_iff_ne.2 (Ne.symm equal)]

theorem freeze_array {items : List Json} {b : Frozen} (h : (Json.array items).freeze? = some b) :
    ∃ frozen, freezeItems? items = some frozen ∧ b = .array frozen := by
  obtain ⟨frozen, found, rfl⟩ := Option.map_eq_some_iff.1 (by simpa only [freeze?] using h)
  exact ⟨frozen, found, rfl⟩

theorem freeze_object {members : List (String × Json)} {b : Frozen}
    (h : (Json.object members).freeze? = some b) :
    ∃ frozen, freezeMembers? members = some frozen ∧ b = .object frozen := by
  obtain ⟨frozen, found, rfl⟩ := Option.map_eq_some_iff.1 (by simpa only [freeze?] using h)
  exact ⟨frozen, found, rfl⟩

/-- The case of a value that is neither an array nor an object. -/
theorem same_eq_equals_scalar {x y : Json} (noArray : ∀ items, x ≠ .array items)
    (noObject : ∀ members, x ≠ .object members) {a b : Frozen} (ha : x.freeze? = some a)
    (hb : y.freeze? = some b) : a.same b = x.equals y := by
  cases x with
  | array items => exact absurd rfl (noArray items)
  | object members => exact absurd rfl (noObject members)
  | bytes text => simp [freeze?] at ha
  | _ =>
    simp only [freeze?, Option.some.injEq] at ha
    subst ha
    cases y with
    | array items =>
      obtain ⟨frozen, -, rfl⟩ := freeze_array hb
      simp only [same, equals]
    | object members =>
      obtain ⟨frozen, -, rfl⟩ := freeze_object hb
      simp only [same, equals]
    | bytes text => simp [freeze?] at hb
    | _ =>
      simp only [freeze?, Option.some.injEq] at hb
      subst hb
      simp [same, equals]

mutual

/-- Two frozen forms are the same exactly if the values are equal. -/
theorem same_eq_equals : ∀ (x y : Json), y.IsProper → ∀ a b, x.freeze? = some a →
    y.freeze? = some b → a.same b = x.equals y
  | .array xs, y, proper, a, b, ha, hb => by
    obtain ⟨as, has, rfl⟩ := freeze_array ha
    cases y with
    | array ys =>
      obtain ⟨bs, hbs, rfl⟩ := freeze_array hb
      unfold IsProper at proper
      simpa only [same, equals] using sameItems_eq xs ys proper as bs has hbs
    | object ys =>
      obtain ⟨bs, -, rfl⟩ := freeze_object hb
      simp only [same, equals]
    | bytes text => simp [freeze?] at hb
    | _ =>
      simp only [freeze?, Option.some.injEq] at hb
      subst hb
      simp only [same, equals]
  | .object xs, y, proper, a, b, ha, hb => by
    obtain ⟨as, has, rfl⟩ := freeze_object ha
    cases y with
    | object ys =>
      obtain ⟨bs, hbs, rfl⟩ := freeze_object hb
      unfold IsProper at proper
      simp only [same, equals, length_freezeMembers has, length_freezeMembers hbs]
      rw [subset_eq xs ys proper as bs has hbs]
    | array ys =>
      obtain ⟨bs, -, rfl⟩ := freeze_array hb
      simp only [same, equals]
    | bytes text => simp [freeze?] at hb
    | _ =>
      simp only [freeze?, Option.some.injEq] at hb
      subst hb
      simp only [same, equals]
  | .null, _, _, _, _, ha, hb => same_eq_equals_scalar (by nofun) (by nofun) ha hb
  | .bool _, _, _, _, _, ha, hb => same_eq_equals_scalar (by nofun) (by nofun) ha hb
  | .number _, _, _, _, _, ha, hb => same_eq_equals_scalar (by nofun) (by nofun) ha hb
  | .string _, _, _, _, _, ha, hb => same_eq_equals_scalar (by nofun) (by nofun) ha hb
  | .bytes _, _, _, _, _, ha, hb => same_eq_equals_scalar (by nofun) (by nofun) ha hb

theorem sameItems_eq : ∀ (xs ys : List Json), AreProper ys → ∀ as bs, freezeItems? xs = some as →
    freezeItems? ys = some bs → sameItems as bs = equalItems xs ys
  | [], ys, _, as, bs, has, hbs => by
    simp only [freezeItems?, Option.some.injEq] at has
    subst has
    cases ys with
    | nil =>
      simp only [freezeItems?, Option.some.injEq] at hbs
      subst hbs
      simp only [sameItems, equalItems]
    | cons y ys =>
      obtain ⟨b, bs, -, -, rfl⟩ := freezeItems_cons hbs
      simp only [sameItems, equalItems]
  | x :: xs, ys, proper, as, bs, has, hbs => by
    obtain ⟨a, as, ha, rest, rfl⟩ := freezeItems_cons has
    cases ys with
    | nil =>
      simp only [freezeItems?, Option.some.injEq] at hbs
      subst hbs
      simp only [sameItems, equalItems]
    | cons y ys =>
      obtain ⟨b, bs, hb, others, rfl⟩ := freezeItems_cons hbs
      simp only [sameItems, equalItems]
      rw [same_eq_equals x y proper.1 a b ha hb, sameItems_eq xs ys proper.2 as bs rest others]

theorem subset_eq : ∀ (xs ys : List (String × Json)),
    (Members.keys ys).Nodup ∧ AreProperMembers ys → ∀ as bs, freezeMembers? xs = some as →
    freezeMembers? ys = some bs → subset as bs = membersIn xs ys
  | [], ys, _, as, bs, has, _ => by
    simp only [freezeMembers?, Option.some.injEq] at has
    subst has
    simp only [subset, membersIn]
  | (name, x) :: xs, ys, proper, as, bs, has, hbs => by
    obtain ⟨a, as, ha, rest, rfl⟩ := freezeMembers_cons has
    simp only [subset, membersIn]
    rw [subset_eq xs ys proper as bs rest hbs]
    have distinct : (Members.keys bs).Nodup := by
      rw [keys_freezeMembers hbs]
      exact proper.1
    rw [any_eq_lookup distinct name (a.same ·), lookup_freezeMembers hbs]
    cases found : ys.lookup name with
    | none => rfl
    | some y =>
      have proper_y : y.IsProper :=
        (areProperMembers_iff ys).1 proper.2 (name, y) (Members.mem_of_lookup found)
      obtain ⟨b, hb⟩ := freeze_some y proper_y
      have same := same_eq_equals x y proper_y a b ha hb
      simp [hb, same]

end

end Frozen

end JsonSchema
