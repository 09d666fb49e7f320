import JsonSchema.Proofs.Equality
import JsonSchema.Proofs.Frozen
import JsonSchema.Proofs.Making
import JsonSchema.Proofs.Reference
import JsonSchema.Schema.Hash

/-!
# Values that agree

Two values agree if both are proper and they are equal (`Json.Agrees`). The order of the members of
objects does not matter, so their lists have matching elements in whatever order they come
(`Matched`). Values that agree have frozen forms that are the same and have the same hash
(`Json.Agrees.freeze`).
-/

namespace JsonSchema

/-! ## Lists in any order -/

/-- Two lists have related elements, in whatever order. -/
def Matched {α β : Type} (R : α → β → Prop) (xs : List α) (ys : List β) : Prop :=
  ∃ zs, xs.Perm zs ∧ List.Forall₂ R zs ys

namespace Matched

variable {α β γ δ : Type} {R : α → β → Prop} {S : γ → δ → Prop} {xs xs' : List α} {ys ys' : List β}

theorem of_forall₂ (each : List.Forall₂ R xs ys) : Matched R xs ys :=
  ⟨xs, .refl xs, each⟩

theorem append (first : Matched R xs ys) (second : Matched R xs' ys') :
    Matched R (xs ++ xs') (ys ++ ys') := by
  obtain ⟨zs, perm, each⟩ := first
  obtain ⟨zs', perm', each'⟩ := second
  exact ⟨zs ++ zs', perm.append perm', List.rel_append each each'⟩

theorem length_eq (matched : Matched R xs ys) : xs.length = ys.length := by
  obtain ⟨zs, perm, each⟩ := matched
  exact perm.length_eq.trans each.length_eq

theorem isEmpty_eq (matched : Matched R xs ys) : xs.isEmpty = ys.isEmpty := by
  rw [Bool.eq_iff_iff, List.isEmpty_iff_length_eq_zero, List.isEmpty_iff_length_eq_zero,
    matched.length_eq]

theorem exists_left (matched : Matched R xs ys) {y : β} (mem : y ∈ ys) : ∃ x ∈ xs, R x y := by
  obtain ⟨zs, perm, each⟩ := matched
  obtain ⟨x, mem', related⟩ := exists_of_forall₂ each.flip mem
  exact ⟨x, perm.mem_iff.2 mem', related⟩

theorem perm_map {f : α → γ} {g : β → γ} (matched : Matched R xs ys)
    (same : ∀ x y, R x y → f x = g y) : (xs.map f).Perm (ys.map g) := by
  obtain ⟨zs, perm, each⟩ := matched
  have equal : zs.map f = ys.map g := by
    rw [← List.forall₂_eq_eq_eq, List.forall₂_map_left_iff, List.forall₂_map_right_iff]
    exact each.imp same
  exact equal ▸ perm.map f

theorem filter {p : α → Bool} {q : β → Bool} (matched : Matched R xs ys)
    (same : ∀ x y, R x y → p x = q y) : Matched R (xs.filter p) (ys.filter q) := by
  obtain ⟨zs, perm, each⟩ := matched
  refine ⟨zs.filter p, perm.filter p, ?_⟩
  exact List.rel_filter (fun x y related => Bool.eq_iff_iff.1 (same x y related)) each

theorem filterMap {f : α → Option γ} {g : β → Option δ} (matched : Matched R xs ys)
    (related : ∀ x y, R x y → Option.Rel S (f x) (g y)) :
    Matched S (xs.filterMap f) (ys.filterMap g) := by
  obtain ⟨zs, perm, each⟩ := matched
  have lifted : Relator.LiftFun R (Option.Rel S) f g := fun x y => related x y
  exact ⟨zs.filterMap f, perm.filterMap f, List.rel_filterMap lifted each⟩

/-- What was made of the elements of two lists, one by one, matches if the lists do. -/
theorem through {A : α → γ → Prop} {B : β → δ → Prop} {us : List γ} {vs : List δ}
    (matched : Matched R xs ys) (first : List.Forall₂ A xs us) (second : List.Forall₂ B ys vs)
    (related : ∀ x y u v, R x y → A x u → B y v → S u v) : Matched S us vs := by
  obtain ⟨zs, perm, each⟩ := matched
  obtain ⟨ws, first, perm'⟩ := List.perm_comp_forall₂ perm.symm first
  refine ⟨ws, perm'.symm, ?_⟩
  clear perm perm'
  induction each generalizing ws vs with
  | nil =>
    cases first
    cases second
    exact .nil
  | cons here _ ih =>
    cases first with
    | cons made rest =>
      cases second with
      | cons made' rest' => exact .cons (related _ _ _ _ here made made') (ih rest' _ rest)

/-- Matching lists have results in common, in some order, if related elements have. -/
theorem exists_common {P : α → γ → Prop} {Q : β → γ → Prop} (matched : Matched R xs ys)
    (common : ∀ x y, R x y → ∃ u, P x u ∧ Q y u) :
    ∃ us vs, List.Forall₂ P xs us ∧ List.Forall₂ Q ys vs ∧ us.Perm vs := by
  obtain ⟨zs, perm, each⟩ := matched
  have both : ∃ vs, List.Forall₂ P zs vs ∧ List.Forall₂ Q ys vs := by
    clear perm
    induction each with
    | nil => exact ⟨[], .nil, .nil⟩
    | cons here _ ih =>
      obtain ⟨u, made, made'⟩ := common _ _ here
      obtain ⟨vs, rest, rest'⟩ := ih
      exact ⟨u :: vs, .cons made rest, .cons made' rest'⟩
  obtain ⟨vs, first, second⟩ := both
  obtain ⟨us, first, perm'⟩ := List.perm_comp_forall₂ perm first
  exact ⟨us, vs, first, second, perm'⟩

end Matched

/-- Related elements have related numbered forms, with the same numbers. -/
theorem forall₂_zipIdx {α β : Type} {R : α → β → Prop} {xs : List α} {ys : List β}
    (each : List.Forall₂ R xs ys) (first : Nat) :
    List.Forall₂ (fun x y => x.2 = y.2 ∧ R x.1 y.1) (xs.zipIdx first) (ys.zipIdx first) := by
  induction each generalizing first with
  | nil => exact .nil
  | cons here _ ih => exact .cons ⟨rfl, here⟩ (ih _)

namespace Members

variable {κ α β : Type} [DecidableEq κ] {R : α → β → Prop} {xs : List (κ × α)}
  {ys : List (κ × β)}

/-- Two members have the same name and related values. -/
def Paired (R : α → β → Prop) (x : κ × α) (y : κ × β) : Prop :=
  x.1 = y.1 ∧ R x.2 y.2

omit [DecidableEq κ] in
theorem keys_of_paired (each : List.Forall₂ (Paired R) xs ys) : keys xs = keys ys := by
  unfold keys
  rw [← List.forall₂_eq_eq_eq, List.forall₂_map_left_iff, List.forall₂_map_right_iff]
  exact each.imp fun _ _ paired => paired.1

/-- Members of distinct names match if what they have under each name is related. -/
theorem matched_of_lookup (distinct : (keys xs).Nodup) (distinct' : (keys ys).Nodup)
    (related : ∀ name, Option.Rel R (xs.lookup name) (ys.lookup name)) :
    Matched (Paired R) xs ys := by
  induction ys generalizing xs with
  | nil =>
    cases xs with
    | nil => exact .of_forall₂ .nil
    | cons first rest =>
      have here := related first.1
      rw [List.lookup_cons_self] at here
      cases here
  | cons first ys ih =>
    obtain ⟨name, y⟩ := first
    obtain ⟨outside', rest'⟩ := List.nodup_cons.1 distinct'
    have here := related name
    rw [List.lookup_cons_self] at here
    cases found : xs.lookup name with
    | none =>
      rw [found] at here
      cases here
    | some x =>
      rw [found] at here
      obtain ⟨front, behind, rfl⟩ := List.append_of_mem (mem_of_lookup found)
      have perm : (front ++ (name, x) :: behind).Perm ((name, x) :: (front ++ behind)) :=
        List.perm_middle
      obtain ⟨outside, rest⟩ := List.nodup_cons.1 ((perm.map Prod.fst).nodup_iff.1 distinct)
      obtain ⟨zs, perm', each⟩ := ih rest rest' fun other => by
        by_cases same : other = name
        · subst same
          rw [lookup_eq_none.2 outside, lookup_eq_none.2 outside']
          exact .none
        · have there := related other
          rw [List.lookup_cons, beq_eq_false_iff_ne.2 same] at there
          rw [List.lookup_append] at there ⊢
          rw [List.lookup_cons, beq_eq_false_iff_ne.2 same] at there
          exact there
      cases here with
      | some here => exact ⟨(name, x) :: zs, perm.trans (perm'.cons _), .cons ⟨rfl, here⟩ each⟩

theorem exists_lookup (distinct : (keys xs).Nodup) (matched : Matched (Paired R) xs ys)
    {name : κ} {y : β} (mem : (name, y) ∈ ys) : ∃ x, xs.lookup name = some x ∧ R x y := by
  obtain ⟨⟨other, x⟩, mem', same, related⟩ := matched.exists_left mem
  cases same
  exact ⟨x, lookup_of_mem distinct mem', related⟩

end Members

/-! ## Equal values -/

/-- Two proper values are equal. -/
structure Json.Agrees (v w : Json) : Prop where
  proper : v.IsProper
  proper' : w.IsProper
  equal : v.equals w = true

namespace Json.Agrees

variable {v w : Json}

theorem string {text : String} (agrees : (Json.string text).Agrees w) : w = .string text :=
  equals_string_iff.1 agrees.equal

theorem array {xs : List Json} (agrees : (Json.array xs).Agrees w) :
    ∃ ys, w = .array ys ∧ List.Forall₂ Agrees xs ys := by
  obtain ⟨ys, rfl, each⟩ := equals_array_iff.1 agrees.equal
  refine ⟨ys, rfl, ?_⟩
  rw [List.forall₂_iff_get] at each ⊢
  exact ⟨each.1, fun i bound bound' => ⟨agrees.proper.item (List.get_mem _ _),
    agrees.proper'.item (List.get_mem _ _), each.2 i bound bound'⟩⟩

theorem lookup {xs ys : List (String × Json)} (agrees : (Json.object xs).Agrees (.object ys))
    (name : String) : Option.Rel Agrees (xs.lookup name) (ys.lookup name) := by
  have same := lookup_equals agrees.proper agrees.proper' agrees.equal name
  cases found : xs.lookup name <;> cases found' : ys.lookup name <;> rw [found, found'] at same <;>
    cases same
  case none.none => exact .none
  case some.some equal =>
    exact .some ⟨agrees.proper.member (Members.mem_of_lookup found),
      agrees.proper'.member (Members.mem_of_lookup found'), equal⟩

theorem object {xs : List (String × Json)} (agrees : (Json.object xs).Agrees w) :
    ∃ ys, w = .object ys ∧ Matched (Members.Paired Agrees) xs ys := by
  obtain ⟨ys, rfl, -⟩ := equals_object_iff.1 agrees.equal
  exact ⟨ys, rfl, Members.matched_of_lookup agrees.proper.1 agrees.proper'.1 agrees.lookup⟩

/-- Equal values are arrays, objects or numbers, or the same. -/
theorem cases (agrees : v.Agrees w) :
    (∃ xs ys, v = .array xs ∧ w = .array ys ∧ List.Forall₂ Agrees xs ys) ∨
      (∃ xs ys, v = .object xs ∧ w = .object ys ∧ Matched (Members.Paired Agrees) xs ys) ∨
      (∃ m n, v = .number m ∧ w = .number n ∧ m.equals n = true) ∨
      v = w ∧ v.checkPlain = .ok () := by
  have equal := agrees.equal
  cases v with
  | array xs =>
    obtain ⟨ys, rfl, each⟩ := agrees.array
    exact .inl ⟨xs, ys, rfl, rfl, each⟩
  | object xs =>
    obtain ⟨ys, rfl, matched⟩ := agrees.object
    exact .inr (.inl ⟨xs, ys, rfl, rfl, matched⟩)
  | number m =>
    obtain ⟨n, rfl, same⟩ := equals_number_iff.1 equal
    exact .inr (.inr (.inl ⟨m, n, rfl, rfl, same⟩))
  | _ =>
    refine .inr (.inr (.inr ⟨?_, rfl⟩))
    cases w <;> simp [equals] at equal ⊢
    all_goals exact equal

end Json.Agrees

/-! ## Hashes of frozen values -/

section Frozen

open Json Frozen

variable {α : Type} (hasher : Hasher α)

theorem forall₂_freezeMembers {members : List (String × Json)} {frozen : List (String × Frozen)}
    (h : freezeMembers? members = some frozen) :
    List.Forall₂ (Members.Paired fun value f => value.freeze? = some f) members frozen := by
  induction members generalizing frozen with
  | nil =>
    cases h
    exact .nil
  | cons member rest ih =>
    obtain ⟨head, others, here, there, rfl⟩ := freezeMembers_cons h
    exact .cons ⟨rfl, here⟩ (ih there)

theorem Frozen.memberHashes_eq (members : List (String × Frozen)) :
    Frozen.memberHashes hasher members =
      members.map fun member => hasher.tuple [hasher.text member.1, member.2.hash hasher] := by
  induction members with
  | nil => rfl
  | cons member rest ih => exact congrArg (_ :: ·) ih

mutual

/-- The frozen forms of equal values have the same hash. -/
theorem Frozen.hash_congr : ∀ (v : Json) {w : Json} {a b : Frozen}, v.Agrees w →
    v.freeze? = some a → w.freeze? = some b → a.hash hasher = b.hash hasher
  | .array xs, w, a, b, agrees, here, there => by
    obtain ⟨ys, rfl, each⟩ := agrees.array
    obtain ⟨as, frozen, rfl⟩ := freeze_array here
    obtain ⟨bs, frozen', rfl⟩ := freeze_array there
    unfold Frozen.hash
    rw [Frozen.hashes_congr xs each frozen frozen']
  | .object xs, w, a, b, agrees, here, there => by
    obtain ⟨ys, rfl, matched⟩ := agrees.object
    obtain ⟨as, frozen, rfl⟩ := freeze_object here
    obtain ⟨bs, frozen', rfl⟩ := freeze_object there
    have listed := (List.forall₂_and_left _ _).2 ⟨fun _ mem => mem, forall₂_freezeMembers frozen⟩
    have same : Matched (Members.Paired fun a b => a.hash hasher = b.hash hasher) as bs := by
      refine matched.through listed (forall₂_freezeMembers frozen') ?_
      rintro x y a b ⟨name, agrees⟩ ⟨mem, name', here⟩ ⟨name'', there⟩
      refine ⟨name'.symm.trans (name.trans name''), ?_⟩
      exact Frozen.hash_member xs mem agrees here there
    unfold Frozen.hash
    rw [Frozen.memberHashes_eq, Frozen.memberHashes_eq, hasher.set_congr (same.perm_map ?_)]
    rintro a b ⟨name, equal⟩
    rw [name, equal]
  | .number m, w, a, b, agrees, here, there => by
    obtain ⟨n, rfl, same⟩ := equals_number_iff.1 agrees.equal
    cases here
    cases there
    unfold Frozen.hash
    rw [hasher.number_congr same]
  | .null, w, a, b, agrees, here, there => by
    have equal := agrees.equal
    cases w <;> simp [equals] at equal
    rw [Option.some.inj (here.symm.trans there)]
  | .bool _, w, a, b, agrees, here, there => by
    have equal := agrees.equal
    cases w <;> simp [equals] at equal
    rw [equal] at here
    rw [Option.some.inj (here.symm.trans there)]
  | .string _, w, a, b, agrees, here, there => by
    rw [agrees.string] at there
    rw [Option.some.inj (here.symm.trans there)]
  | .bytes _, w, a, b, agrees, here, there => by cases here

theorem Frozen.hashes_congr : ∀ (xs : List Json) {ys : List Json} {as bs : List Frozen},
    List.Forall₂ Json.Agrees xs ys → freezeItems? xs = some as → freezeItems? ys = some bs →
    Frozen.hashes hasher as = Frozen.hashes hasher bs
  | [], _, as, bs, .nil, here, there => by
    cases here
    cases there
    rfl
  | x :: xs, _, as, bs, .cons first rest, here, there => by
    obtain ⟨a, as, frozen, others, rfl⟩ := freezeItems_cons here
    obtain ⟨b, bs, frozen', others', rfl⟩ := freezeItems_cons there
    unfold Frozen.hashes
    rw [Frozen.hash_congr x first frozen frozen', Frozen.hashes_congr xs rest others others']

theorem Frozen.hash_member : ∀ (xs : List (String × Json)) {x : String × Json} {w : Json}
    {a b : Frozen}, x ∈ xs → x.2.Agrees w → x.2.freeze? = some a → w.freeze? = some b →
    a.hash hasher = b.hash hasher
  | (name, x) :: xs, other, w, a, b, mem, agrees, here, there => by
    rcases List.mem_cons.1 mem with same | later
    · subst same
      exact Frozen.hash_congr x agrees here there
    · exact Frozen.hash_member xs later agrees here there

end

/-- Equal values have the same frozen form, with one hash. -/
theorem Json.Agrees.freeze {v w : Json} (agrees : v.Agrees w) :
    ∃ a b, v.freeze = .ok a ∧ w.freeze = .ok b ∧ a.same b = true ∧ a.hash hasher = b.hash hasher := by
  obtain ⟨a, here, frozen⟩ := freeze_ok agrees.proper
  obtain ⟨b, there, frozen'⟩ := freeze_ok agrees.proper'
  refine ⟨a, b, frozen, frozen', ?_, Frozen.hash_congr hasher v agrees here there⟩
  rw [same_eq_equals v w agrees.proper' a b here there]
  exact agrees.equal

end Frozen

end JsonSchema
