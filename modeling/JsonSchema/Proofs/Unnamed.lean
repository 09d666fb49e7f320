import JsonSchema.Proofs.Naming

/-!
# Documents without identifiers

In documents without identifiers every location is the one of its place (`Location.ofPlace`), the only
URIs that identify anything are those of the documents, and no map of schemas looks like an object
with an identifier. So such documents are unambiguous if their URIs are normal
(`AreUnnamed.unambiguous`).
-/

namespace JsonSchema

namespace Json

/-- An object does not declare an identifier. -/
def declaresNone (idKey : String) (members : List (String × Json)) : Bool :=
  match members.lookup idKey with
  | some (.string _) => false
  | _ => true

mutual

/-- No object in a value declares an identifier. -/
def isUnnamed (idKey : String) : Json → Bool
  | .object members => declaresNone idKey members && areUnnamedMembers idKey members
  | .array items => areUnnamedItems idKey items
  | _ => true

/-- No object in the values of members declares an identifier. -/
def areUnnamedMembers (idKey : String) : List (String × Json) → Bool
  | [] => true
  | (_, value) :: rest => isUnnamed idKey value && areUnnamedMembers idKey rest

/-- No object in some items declares an identifier. -/
def areUnnamedItems (idKey : String) : List Json → Bool
  | [] => true
  | value :: rest => isUnnamed idKey value && areUnnamedItems idKey rest

end

variable {idKey : String} {value child : Json} {members : List (String × Json)}

theorem declaresNone_iff : declaresNone idKey members = true ↔
    ∀ identifier, members.lookup idKey ≠ some (.string identifier) := by
  unfold declaresNone
  split
  · next identifier found => simp [found]
  · next other => simpa using other

theorem isUnnamed_object (unnamed : (Json.object members).isUnnamed idKey = true) :
    (∀ identifier, members.lookup idKey ≠ some (.string identifier)) ∧
      ∀ member ∈ members, member.2.isUnnamed idKey = true := by
  rw [isUnnamed, Bool.and_eq_true] at unnamed
  refine ⟨declaresNone_iff.1 unnamed.1, ?_⟩
  have rest := unnamed.2
  clear unnamed
  induction members with
  | nil => exact List.forall_mem_nil _
  | cons first members ih =>
    obtain ⟨name, value⟩ := first
    rw [areUnnamedMembers, Bool.and_eq_true] at rest
    exact List.forall_mem_cons.2 ⟨rest.1, ih rest.2⟩

theorem isUnnamed_array {items : List Json} (unnamed : (Json.array items).isUnnamed idKey = true) :
    ∀ item ∈ items, item.isUnnamed idKey = true := by
  rw [isUnnamed] at unnamed
  induction items with
  | nil => exact List.forall_mem_nil _
  | cons first items ih =>
    rw [areUnnamedItems, Bool.and_eq_true] at unnamed
    exact List.forall_mem_cons.2 ⟨unnamed.1, ih unnamed.2⟩

theorem isUnnamed_step {segment : String} (ok : Pointer.step value segment = .ok child)
    (unnamed : value.isUnnamed idKey = true) : child.isUnnamed idKey = true := by
  rcases Pointer.step_cases ok with ⟨members, rfl, mem⟩ | ⟨items, position, rfl, rfl, mem⟩
  · exact (isUnnamed_object unnamed).2 _ mem
  · exact isUnnamed_array unnamed _ (List.fst_mem_of_mem_zipIdx mem)

theorem isUnnamed_resolve {whole pointer : Pointer}
    (ok : Pointer.resolveFrom whole value pointer = .ok child)
    (unnamed : value.isUnnamed idKey = true) : child.isUnnamed idKey = true := by
  induction pointer generalizing value with
  | nil =>
    cases ok
    exact unnamed
  | cons segment rest ih =>
    rw [Pointer.resolveFrom] at ok
    split at ok
    · next next here => exact ih ok (isUnnamed_step here unnamed)
    · cases ok

end Json

/-! ## Locations -/

namespace Location

/-- The location of a place under no identifier. -/
def ofPlace (uri : String) (pointer : Pointer) : Location where
  documentUri := uri
  pointer := pointer
  scope := uri
  idBase := uri
  idPointer := pointer
  declaredId := none

variable {idKey uri : String} {location target : Location} {value child : Json}
  {members : List (String × Json)}

theorem named_none (none : ∀ identifier, members.lookup idKey ≠ some (.string identifier)) :
    location.named idKey members = location := by
  unfold named
  split
  · next identifier found => exact absurd found (none identifier)
  · rfl

/-- A walk down a value without identifiers comes to the location of the place. -/
theorem walk_unnamed {whole base pointer : Pointer} (unnamed : value.isUnnamed idKey = true)
    (resolved : Pointer.resolveFrom whole value pointer = .ok child)
    (walked : walk idKey (ofPlace uri base) value pointer = .ok target) :
    target = ofPlace uri (base ++ pointer) := by
  induction pointer generalizing value base with
  | nil =>
    cases walked
    rw [List.append_nil]
  | cons segment rest ih =>
    rw [Pointer.resolveFrom] at resolved
    split at resolved
    · next next stepped =>
      have here : Walk.step value segment = .ok next := by
        unfold Walk.step
        rw [stepped]
      have further : walk idKey (ofPlace uri (base ++ [segment])) next rest = .ok target := by
        rw [walk, here] at walked
        split at walked
        · next identifier found =>
          cases value with
          | object members => exact absurd found ((Json.isUnnamed_object unnamed).1 identifier)
          | _ => cases found
        · exact walked
      rw [ih (Json.isUnnamed_step stepped unnamed) resolved further, List.append_assoc]
      rfl
    · cases resolved

end Location

/-! ## The index -/

namespace Cache

variable {idKey : String} {location : Location} {index : List (String × Pointer)}

mutual

/-- A value without identifiers adds nothing to an index. -/
theorem indexValue_unnamed (isMap : Bool) (location : Location) (index : List (String × Pointer)) :
    ∀ value : Json, value.isUnnamed idKey = true →
      indexValue idKey isMap location index value = index
  | .object members, unnamed => by
    have none := (Json.isUnnamed_object unnamed).1
    have here : indexIdentifier idKey members location index = (location, index) := by
      unfold indexIdentifier
      split
      · next identifier found _ => exact absurd found (none identifier)
      · rfl
    rw [Json.isUnnamed, Bool.and_eq_true] at unnamed
    rw [indexValue, here, ite_self]
    exact indexMembers_unnamed isMap location index members unnamed.2
  | .array items, unnamed => by
    rw [Json.isUnnamed] at unnamed
    rw [indexValue]
    exact indexItems_unnamed location index 0 items unnamed
  | .null, _ => rfl
  | .bool _, _ => rfl
  | .number _, _ => rfl
  | .string _, _ => rfl
  | .bytes _, _ => rfl

theorem indexMembers_unnamed (isMap : Bool) (location : Location)
    (index : List (String × Pointer)) : ∀ members : List (String × Json),
      Json.areUnnamedMembers idKey members = true →
      indexMembers idKey isMap location index members = index
  | [], _ => rfl
  | (name, value) :: rest, unnamed => by
    rw [Json.areUnnamedMembers, Bool.and_eq_true] at unnamed
    rw [indexMembers]
    dsimp only
    rw [indexValue_unnamed _ _ index value unnamed.1, ite_self]
    exact indexMembers_unnamed isMap location index rest unnamed.2

theorem indexItems_unnamed (location : Location) (index : List (String × Pointer))
    (position : Nat) : ∀ items : List Json, Json.areUnnamedItems idKey items = true →
      indexItems idKey location index position items = index
  | [], _ => rfl
  | value :: rest, unnamed => by
    rw [Json.areUnnamedItems, Bool.and_eq_true] at unnamed
    rw [indexItems, indexValue_unnamed _ _ index value unnamed.1]
    exact indexItems_unnamed location index (position + 1) rest unnamed.2

end

end Cache

namespace Load

variable {documents : Documents} {location : Location} {value : Json} {draft : Draft}

/-- All documents are without identifiers, under normal URIs. -/
structure AreUnnamed (documents : Documents) : Prop where
  normal : ∀ uri, (documents.lookup uri).isSome → Uri.IsNormal uri
  values : ∀ uri stored, documents.lookup uri = some stored →
    stored.document.value.isUnnamed stored.draft.idKey = true

theorem Comes.isUnnamed (sound : AreSound documents) (unnamed : AreUnnamed documents)
    (comes : Comes documents location value draft) : value.isUnnamed draft.idKey = true := by
  obtain ⟨_, _, stored, known, rfl, resolved⟩ := comes.found sound
  exact Json.isUnnamed_resolve resolved (unnamed.values _ _ known)

theorem Comes.named_eq (sound : AreSound documents) (unnamed : AreUnnamed documents)
    {members : List (String × Json)} (comes : Comes documents location (.object members) draft) :
    location.named draft.idKey members = location :=
  Location.named_none (Json.isUnnamed_object (comes.isUnnamed sound unnamed)).1

/-- Without identifiers a location says no more than its place. -/
theorem Comes.eq_ofPlace (sound : AreSound documents) (unnamed : AreUnnamed documents)
    (comes : Comes documents location value draft) :
    location = .ofPlace location.documentUri location.pointer := by
  induction comes with
  | root known root =>
    obtain ⟨base, _, same⟩ := except_bind_ok root
    cases same
    rfl
  | @part location members draft way part above plain mem ih =>
    rw [above.named_eq sound unnamed]
    obtain ⟨scope, base, pointer, declared⟩ :
        location.scope = location.documentUri ∧ location.idBase = location.documentUri ∧
          location.idPointer = location.pointer ∧ location.declaredId = none := by
      rw [ih]
      exact ⟨rfl, rfl, rfl, rfl⟩
    unfold Location.child Location.ofPlace
    rw [scope, base, pointer]
  | @referred location target members draft text uri place stored value above ref resolved leads
      known found ih =>
    obtain ⟨inside, walked⟩ := valueAt_eq found
    unfold Location.ofDocument at walked
    obtain ⟨start, root, walked⟩ := except_bind_ok walked
    obtain ⟨base, _, same⟩ := except_bind_ok (mapError_ok root)
    cases same
    have target := Location.walk_unnamed (unnamed.values _ _ known) inside walked
    rw [target]
    rfl

/-- Without identifiers only the URIs of documents identify anything: their roots. -/
theorem Identified.eq_root (sound : AreSound documents) (unnamed : AreUnnamed documents)
    {key : String} {place : String × Pointer} (identified : Identified documents key place) :
    place = (key, []) ∧ (documents.lookup key).isSome := by
  cases identified with
  | @listed documentUri _ stored index pointer known indexed mem =>
    obtain ⟨root, _, same⟩ := except_bind_ok indexed
    rw [Cache.indexValue_unnamed _ _ _ _ (unnamed.values _ _ known)] at same
    cases same
    cases mem
  | declared comes plain declares =>
    rw [comes.named_eq sound unnamed] at declares
    rw [(comes.found sound).2.1] at declares
    cases declares
  | @above location value draft comes =>
    obtain ⟨_, _, stored, known, _⟩ := comes.found sound
    have same := comes.eq_ofPlace sound unnamed
    have base : location.idBase = location.documentUri ∧ location.idPointer = location.pointer := by
      rw [same]
      exact ⟨rfl, rfl⟩
    unfold Location.basePlace
    rw [base.1, base.2, Nat.sub_self, List.take_zero, known]
    exact ⟨rfl, rfl⟩

theorem AreUnnamed.hasPlainMaps (sound : AreSound documents) (unnamed : AreUnnamed documents)
    {members : List (String × Json)} (comes : Comes documents location (.object members) draft) :
    Json.HasPlainMaps draft.idKey members := by
  intro key _ entries found
  have inside := (Json.isUnnamed_object (comes.isUnnamed sound unnamed)).2 _
    (Members.mem_of_lookup found)
  exact (Json.isUnnamed_object inside).1

theorem AreUnnamed.unambiguous (sound : AreSound documents) (unnamed : AreUnnamed documents) :
    Unambiguous documents where
  normal := unnamed.normal
  plain identified _ _ := unnamed.normal _ (identified.eq_root sound unnamed).2
  single first second :=
    (first.eq_root sound unnamed).1.trans (second.eq_root sound unnamed).1.symm
  roots identified _ := (identified.eq_root sound unnamed).1

end Load

end JsonSchema
