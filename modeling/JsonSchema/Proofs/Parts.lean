import JsonSchema.Keyword.Registry
import JsonSchema.Loading.Cache
import JsonSchema.Proofs.Run
import JsonSchema.Proofs.Ways

/-!
# Subschemas of an object

`Json.parts` lists the values that the keywords of an object take for schemas, with the ways to
them. A walk down the document to such a value goes through the object and at most one list or map.
It comes to the location of the object under its identifier with the way behind it, unless the map
has a text under the keyword for identifiers (`Location.ofDocument_part`).
-/

namespace JsonSchema

/-- The values that a keyword value of a kind takes for schemas, with the ways to them. -/
def KeywordKind.parts : KeywordKind → Json → List (Pointer × Json)
  | .schemaList, .array listed | .items, .array listed =>
    listed.zipIdx.map fun (item, position) => ([toString position], item)
  | .schemaMap, .object members => members.map fun (name, value) => ([name], value)
  | .dependencies, .object members =>
    members.filterMap fun (name, value) =>
      match value with
      | .object _ | .bool _ => some ([name], value)
      | _ => none
  | .schema, value | .schemaList, value | .items, value => [([], value)]
  | _, _ => []

/-- The values that the keywords of an object take for schemas, with the ways to them. -/
def Json.parts (draft : Draft) (members : List (String × Json)) : List (Pointer × Json) :=
  members.flatMap fun (key, value) =>
    match Registry.default.find? key (some draft) with
    | some keyword =>
      ((keyword.variantFor draft).kind.parts value).map fun (way, part) => (key :: way, part)
    | none => []

/-- The location of an object under its identifier; one that makes no URI changes nothing. -/
def Location.named (idKey : String) (members : List (String × Json)) (location : Location) :
    Location :=
  match members.lookup idKey with
  | some (.string identifier) =>
    match location.withId identifier with
    | .ok named => named
    | .error _ => location
  | _ => location

/-- The identifier of an object makes a URI, if it has one. -/
def Location.Names (idKey : String) (members : List (String × Json)) (location : Location) : Prop :=
  ∀ identifier, members.lookup idKey = some (.string identifier) →
    location.withId identifier = .ok (location.named idKey members)

/-! ## Members and positions -/

/-- Nothing is found under a name that no member has. -/
theorem Members.lookup_eq_none {κ α : Type} [BEq κ] [LawfulBEq κ] {members : List (κ × α)}
    {name : κ} : members.lookup name = none ↔ name ∉ keys members := by
  rw [List.lookup_eq_none_iff]
  constructor
  · intro differ mem
    obtain ⟨entry, listed, rfl⟩ := List.mem_map.1 mem
    exact bne_iff_ne.1 (differ entry listed) rfl
  · intro absent entry mem
    exact bne_iff_ne.2 fun same => absent (List.mem_map.2 ⟨entry, mem, same.symm⟩)

theorem Members.lookup_of_mem {κ α : Type} [BEq κ] [LawfulBEq κ] {members : List (κ × α)}
    {name : κ} {value : α} (distinct : (keys members).Nodup) (mem : (name, value) ∈ members) :
    members.lookup name = some value := by
  induction members with
  | nil => exact absurd mem List.not_mem_nil
  | cons first rest ih =>
    obtain ⟨other, old⟩ := first
    obtain ⟨outside, distinct⟩ := List.nodup_cons.1 distinct
    rcases List.mem_cons.1 mem with same | later
    · cases same
      exact List.lookup_cons_self
    · have different : name ≠ other := by
        rintro rfl
        exact outside (List.mem_map.2 ⟨_, later, rfl⟩)
      rw [List.lookup_cons, beq_eq_false_iff_ne.2 different]
      exact ih distinct later

namespace Pointer

theorem digitsValue_toDigits (n : Nat) : digitsValue? (Nat.toDigits 10 n) = some n := by
  induction n using Nat.strongRecOn with
  | ind n ih =>
    have digit : ∀ d < 10, d.digitChar.isDigit = true ∧ d.digitChar.toNat - 48 = d := by decide
    rcases Nat.lt_or_ge n 10 with small | large
    · rw [Nat.toDigits_of_lt_base small]
      obtain ⟨isDigit, value⟩ := digit n small
      change (digitsValue? ([] ++ [n.digitChar])) = some n
      rw [digitsValue_concat, isDigit, value]
      simp [digitsValue?]
    · have split := Nat.toDigits_append_toDigits (b := 10) (n := n / 10) (d := n % 10) (by decide)
        (by omega) (by omega)
      obtain ⟨isDigit, value⟩ := digit (n % 10) (by omega)
      rw [Nat.div_add_mod] at split
      rw [← split, Nat.toDigits_of_lt_base (Nat.mod_lt n (by decide)), digitsValue_concat,
        ih (n / 10) (by omega), isDigit, value]
      change some (10 * (n / 10) + n % 10) = some n
      rw [Nat.div_add_mod]

theorem head_toDigits {n : Nat} (positive : 0 < n) : (Nat.toDigits 10 n).head? ≠ some '0' := by
  induction n using Nat.strongRecOn with
  | ind n ih =>
    rcases Nat.lt_or_ge n 10 with small | large
    · rw [Nat.toDigits_of_lt_base small]
      have all : ∀ d < 10, 0 < d → [d.digitChar].head? ≠ some '0' := by decide
      exact all n small positive
    · have split := Nat.toDigits_append_toDigits (b := 10) (n := n / 10) (d := n % 10) (by decide)
        (by omega) (by omega)
      rw [Nat.div_add_mod] at split
      rw [← split, List.head?_append]
      have front := ih (n / 10) (by omega) (by omega)
      cases found : (Nat.toDigits 10 (n / 10)).head? with
      | none =>
        have value := digitsValue_toDigits (n / 10)
        rw [List.head?_eq_none_iff.1 found] at value
        have zero : n / 10 = 0 := (Option.some.inj value).symm
        omega
      | some c =>
        rw [found] at front
        exact front

/-- A position is read from its text. -/
theorem index_toString (n : Nat) : index? (toString n) = some n := by
  have digits : (toString n).toList = Nat.toDigits 10 n := by
    rw [Nat.toString_eq_ofList_toDigits, String.toList_ofList]
  unfold index?
  dsimp only
  rw [digits]
  rcases Nat.eq_zero_or_pos n with rfl | positive
  · rfl
  · have leading := head_toDigits positive
    have value := digitsValue_toDigits n
    rw [if_neg, if_neg leading, if_neg, value]
    · intro empty
      rw [List.isEmpty_iff.1 empty] at value
      exact absurd (Option.some.inj value).symm (by omega)
    · intro zero
      rw [zero] at leading
      exact leading rfl

theorem step_item {items : List Json} {item : Json} {position : Nat}
    (mem : (item, position) ∈ items.zipIdx) :
    step (.array items) (toString position) = .ok item := by
  unfold step
  dsimp only
  rw [index_toString]
  dsimp only
  rw [List.mem_zipIdx_iff_getElem?.1 mem]

theorem step_member {members : List (String × Json)} {name : String} {value : Json}
    (found : members.lookup name = some value) : step (.object members) name = .ok value := by
  unfold step
  dsimp only
  rw [found]

variable {whole front behind : Pointer} {value middle child : Json}

theorem resolveFrom_append {whole' : Pointer} (first : resolveFrom whole value front = .ok middle)
    (second : resolveFrom whole' middle behind = .ok child) (other : Pointer) :
    resolveFrom other value (front ++ behind) = .ok child := by
  induction front generalizing value with
  | nil =>
    cases first
    induction behind generalizing middle with
    | nil =>
      cases second
      rfl
    | cons segment rest ih =>
      rw [resolveFrom] at second
      rw [List.nil_append, resolveFrom]
      split at second
      · exact ih second
      · cases second
  | cons segment rest ih =>
    rw [resolveFrom] at first
    rw [List.cons_append, resolveFrom]
    split at first
    · exact ih first
    · cases first

theorem resolve_append (first : resolve value front = .ok middle)
    (second : resolve middle behind = .ok child) : resolve value (front ++ behind) = .ok child :=
  resolveFrom_append first second _

end Pointer

/-! ## Walks -/

namespace Location

variable {idKey : String} {location target : Location} {value middle : Json}
  {members : List (String × Json)}

theorem child_child (location : Location) (front behind : Pointer) :
    (location.child front).child behind = location.child (front ++ behind) := by
  unfold child
  dsimp only
  rw [List.append_assoc, List.append_assoc]

/-- A walk goes through every value that the pointer resolves to on the way. -/
theorem walk_append {whole front behind : Pointer}
    (resolved : Pointer.resolveFrom whole value front = .ok middle)
    (walked : walk idKey location value front = .ok target) :
    walk idKey location value (front ++ behind) = walk idKey target middle behind := by
  induction front generalizing location value with
  | nil =>
    cases resolved
    cases walked
    rfl
  | cons segment rest ih =>
    rw [Pointer.resolveFrom] at resolved
    split at resolved
    · next next here =>
      have stepped : Walk.step value segment = .ok next := by
        unfold Walk.step
        rw [here]
      have further : ∀ start, (do
            let next ← (Walk.step value segment).mapError WalkFault.step
            walk idKey (child start [segment]) next rest) = .ok target →
          (do
            let next ← (Walk.step value segment).mapError WalkFault.step
            walk idKey (child start [segment]) next (rest ++ behind)) =
              walk idKey target middle behind := by
        intro start walked
        rw [stepped] at walked ⊢
        exact ih resolved walked
      rw [walk] at walked
      rw [List.cons_append, walk]
      split at walked
      · obtain ⟨named, ok, walked⟩ := except_bind_ok walked
        rw [ok]
        exact further named walked
      · exact further location walked
    · cases resolved

/-- A step of a walk from an object. -/
theorem walk_member {key : String} {child : Json} (names : location.Names idKey members)
    (found : members.lookup key = some child) (rest : Pointer) :
    walk idKey location (.object members) (key :: rest) =
      walk idKey ((location.named idKey members).child [key]) child rest := by
  have stepped : Walk.step (.object members) key = .ok child := by
    unfold Walk.step
    rw [Pointer.step_member found]
  rw [walk]
  change (match members.lookup idKey with
    | some (.string identifier) => _
    | _ => _) = _
  split
  · next identifier declared =>
    rw [names identifier declared, stepped]
    rfl
  · next other =>
    have same : location.named idKey members = location := by
      unfold named
      split
      · next identifier declared => exact absurd declared (other identifier)
      · rfl
    rw [stepped, same]
    rfl

/-- A step of a walk from a value that has no identifier. -/
theorem walk_plain {segment : String} {child : Json}
    (plain : ∀ identifier, value.member? idKey ≠ some (.string identifier))
    (stepped : Pointer.step value segment = .ok child) :
    walk idKey location value [segment] = .ok (location.child [segment]) := by
  have stepped : Walk.step value segment = .ok child := by
    unfold Walk.step
    rw [stepped]
  rw [walk]
  split
  · next identifier found => exact absurd found (plain identifier)
  · rw [stepped]
    rfl

end Location

/-! ## Parts -/

/-- No map of schemas that an object holds has a text under the keyword for identifiers. -/
def Json.HasPlainMaps (idKey : String) (members : List (String × Json)) : Prop :=
  ∀ key ∈ Cache.schemaMapKeys, ∀ entries, members.lookup key = some (.object entries) →
    ∀ identifier, entries.lookup idKey ≠ some (.string identifier)

namespace Json

variable {draft : Draft} {members : List (String × Json)} {way : Pointer} {part : Json}

/-- A part of the value of a keyword is a part of the object. -/
theorem mem_parts {key : String} {value : Json} {keyword : Keyword} (mem : (key, value) ∈ members)
    (found : Registry.default.find? key (some draft) = some keyword)
    (inside : (way, part) ∈ (keyword.variantFor draft).kind.parts value) :
    (key :: way, part) ∈ parts draft members := by
  refine List.mem_flatMap.2 ⟨(key, value), mem, ?_⟩
  dsimp only
  rw [found]
  exact List.mem_map.2 ⟨(way, part), inside, rfl⟩

/-- A part is the value of a keyword, or stands in a list or a map that is the value. -/
theorem parts_cases (mem : (way, part) ∈ parts draft members) :
    ∃ key value keyword, (key, value) ∈ members ∧
      Registry.default.find? key (some draft) = some keyword ∧
      (way = [key] ∧ part = value ∨
        (∃ items position, value = .array items ∧ (part, position) ∈ items.zipIdx ∧
          way = [key, toString position]) ∨
        ∃ entries name, value = .object entries ∧ (name, part) ∈ entries ∧ way = [key, name] ∧
          ((keyword.variantFor draft).kind = .schemaMap ∨
            (keyword.variantFor draft).kind = .dependencies)) := by
  obtain ⟨⟨key, value⟩, member, inside⟩ := List.mem_flatMap.1 mem
  dsimp only at inside
  split at inside
  · next keyword found =>
    obtain ⟨⟨rest, part⟩, listed, same⟩ := List.mem_map.1 inside
    cases same
    refine ⟨key, value, keyword, member, found, ?_⟩
    generalize (keyword.variantFor draft).kind = kind at listed ⊢
    have itself : (rest, part) ∈ [([], value)] → key :: rest = [key] ∧ part = value := by
      intro single
      cases List.mem_singleton.1 single
      exact ⟨rfl, rfl⟩
    have item : ∀ items : List Json,
        (rest, part) ∈ items.zipIdx.map (fun (item, position) => ([toString position], item)) →
        ∃ position, (part, position) ∈ items.zipIdx ∧ key :: rest = [key, toString position] := by
      intro items mem
      obtain ⟨⟨item, position⟩, mem, same⟩ := List.mem_map.1 mem
      cases same
      exact ⟨position, mem, rfl⟩
    unfold KeywordKind.parts at listed
    split at listed
    · next items =>
      obtain ⟨position, mem, same⟩ := item items listed
      exact .inr (.inl ⟨items, position, rfl, mem, same⟩)
    · next items =>
      obtain ⟨position, mem, same⟩ := item items listed
      exact .inr (.inl ⟨items, position, rfl, mem, same⟩)
    · next entries =>
      obtain ⟨⟨name, entry⟩, mem, same⟩ := List.mem_map.1 listed
      cases same
      exact .inr (.inr ⟨entries, name, rfl, mem, rfl, .inl rfl⟩)
    · next entries =>
      obtain ⟨⟨name, entry⟩, mem, same⟩ := List.mem_filterMap.1 listed
      have known : (name, entry) ∈ entries ∧ rest = [name] ∧ part = entry := by
        dsimp only at same
        split at same
        · cases same
          exact ⟨‹_›, rfl, rfl⟩
        · cases same
          exact ⟨‹_›, rfl, rfl⟩
        · cases same
      obtain ⟨mem, rfl, rfl⟩ := known
      exact .inr (.inr ⟨entries, name, rfl, mem, rfl, .inr rfl⟩)
    · exact .inl (itself listed)
    · exact .inl (itself listed)
    · exact .inl (itself listed)
    · exact absurd listed List.not_mem_nil
  · exact absurd inside List.not_mem_nil

/-- The maps of schemas are under the keys that the index of identifiers knows. -/
theorem mapKey_of_kind {key : String} {keyword : Keyword}
    (found : Registry.default.find? key (some draft) = some keyword)
    (kind : (keyword.variantFor draft).kind = .schemaMap ∨
      (keyword.variantFor draft).kind = .dependencies) : key ∈ Cache.schemaMapKeys := by
  have all : ∀ keyword ∈ Builtin.all, ∀ draft ∈ Draft.all,
      (keyword.variantFor draft).kind = .schemaMap ∨
        (keyword.variantFor draft).kind = .dependencies → keyword.key ∈ Cache.schemaMapKeys := by
    decide +kernel
  have known : Builtin.all.find? (fun keyword => keyword.key = key) = some keyword :=
    (Option.filter_eq_some_iff.1 found).1
  have same : keyword.key = key := by simpa using List.find?_some known
  rw [← same]
  exact all keyword (List.mem_of_find?_eq_some known) draft (by cases draft <;> decide) kind

/-- A pointer to a part of an object resolves to it, and a walk comes to the way behind the object's
location under its identifier. -/
theorem part_steps (location : Location) (proper : (Json.object members).IsProper)
    (mem : (way, part) ∈ parts draft members) :
    Pointer.resolve (.object members) way = .ok part ∧
      (location.Names draft.idKey members → HasPlainMaps draft.idKey members →
        Location.walk draft.idKey location (.object members) way =
          .ok ((location.named draft.idKey members).child way)) := by
  obtain ⟨key, value, keyword, member, found, way⟩ := parts_cases mem
  have looked := Members.lookup_of_mem proper.1 member
  have first := Pointer.step_member looked
  have whole : ∀ {segment : String}, Pointer.step value segment = .ok part →
      (HasPlainMaps draft.idKey members →
        ∀ identifier, value.member? draft.idKey ≠ some (.string identifier)) →
      Pointer.resolve (.object members) [key, segment] = .ok part ∧
        (location.Names draft.idKey members → HasPlainMaps draft.idKey members →
          Location.walk draft.idKey location (.object members) [key, segment] =
            .ok ((location.named draft.idKey members).child [key, segment])) := by
    intro segment second plain
    constructor
    · unfold Pointer.resolve Pointer.resolveFrom
      rw [first]
      dsimp only
      unfold Pointer.resolveFrom
      rw [second]
      rfl
    · intro names maps
      rw [Location.walk_member names looked, Location.walk_plain (plain maps) second,
        Location.child_child]
      rfl
  rcases way with ⟨rfl, rfl⟩ | ⟨items, position, rfl, inside, rfl⟩ |
    ⟨entries, name, rfl, inside, rfl, kind⟩
  · constructor
    · unfold Pointer.resolve Pointer.resolveFrom
      rw [first]
      rfl
    · intro names _
      rw [Location.walk_member names looked]
      rfl
  · exact whole (Pointer.step_item inside) (fun _ _ same => by cases same)
  · have inner := (areProperMembers_iff members).1 proper.2 _ member
    exact whole (Pointer.step_member (Members.lookup_of_mem inner.1 inside))
      (fun maps => maps key (mapKey_of_kind found kind) entries looked)

theorem resolve_part (proper : (Json.object members).IsProper)
    (mem : (way, part) ∈ parts draft members) :
    Pointer.resolve (.object members) way = .ok part :=
  (part_steps default proper mem).1

end Json

namespace Location

variable {uri : String} {document part : Json} {pointer way : Pointer} {draft : Draft}
  {location : Location} {members : List (String × Json)}

/-- The location that a part of an object receives below it is the one that a walk from the root of
the document comes to. -/
theorem ofDocument_part (proper : document.IsProper)
    (resolved : Pointer.resolve document pointer = .ok (.object members))
    (walked : ofDocument uri document pointer draft.idKey = .ok location)
    (names : location.Names draft.idKey members) (plain : Json.HasPlainMaps draft.idKey members)
    (mem : (way, part) ∈ Json.parts draft members) :
    ofDocument uri document (pointer ++ way) draft.idKey =
      .ok ((location.named draft.idKey members).child way) := by
  have below := (Json.part_steps location (Pointer.isProper_resolve resolved proper)
    mem).2 names plain
  unfold ofDocument at walked ⊢
  obtain ⟨start, root, walked⟩ := except_bind_ok walked
  rw [root]
  exact (walk_append resolved walked).trans below

end Location

end JsonSchema
