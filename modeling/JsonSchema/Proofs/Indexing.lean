import JsonSchema.Proofs.Identifiers
import JsonSchema.Proofs.Keys

/-!
# What an index of identifiers lists

The index of a document and the location of a place in it come from two walks down the document. The
one for the index (`Cache.indexValue`) takes a text under the keyword for identifiers as one only in
an object that is neither a map of schemas nor a reference, and goes on as before where it makes no
URI. `Location.ofDocument` takes every such text above the place, and fails if it makes no URI.

`IndexSpot.Leads` says where the first walk comes to. Every entry of the index is an identifier that
the object at its place declares (`Cache.index_locates`). If all texts above the place are
identifiers as well (`IndexSpot.speaksAbove`), then the second walk comes to the place with the same
base, and the identifier gives the location there the URI of the entry.
-/

namespace JsonSchema

/-- Where the walk for an index stands: at a value, with its location, which may be taken for a map
of schemas. -/
structure IndexSpot where
  isMap : Bool
  location : Location
  value : Json

namespace IndexSpot

variable {idKey identifier : String} {spot target : IndexSpot} {members : List (String × Json)}
  {named : Location} {way : Pointer} {entry : String × Pointer}

/-- The location under which the walk goes on below an object. -/
def below (idKey : String) (spot : IndexSpot) (members : List (String × Json)) : Location :=
  if spot.isMap then spot.location else (Cache.indexIdentifier idKey members spot.location []).1

/-- The walk goes on to a member. -/
def member (idKey : String) (spot : IndexSpot) (members : List (String × Json)) (name : String)
    (child : Json) : IndexSpot :=
  ⟨!spot.isMap && Cache.schemaMapKeys.contains name, (spot.below idKey members).child [name], child⟩

/-- The walk goes on to an item. -/
def item (spot : IndexSpot) (position : Nat) (child : Json) : IndexSpot :=
  ⟨false, spot.location.child [toString position], child⟩

/-- The walk comes from one spot to another, down a pointer. -/
inductive Leads (idKey : String) : IndexSpot → Pointer → IndexSpot → Prop
  | here (spot : IndexSpot) : Leads idKey spot [] spot
  | member {spot target : IndexSpot} {members : List (String × Json)} {name : String} {child : Json}
      {way : Pointer} : spot.value = .object members → members.lookup name = some child →
      spot.isMap = true ∨ name ∉ Cache.dataKeys →
      Leads idKey (spot.member idKey members name child) way target →
      Leads idKey spot (name :: way) target
  | item {spot target : IndexSpot} {items : List Json} {position : Nat} {child : Json}
      {way : Pointer} : spot.value = .array items → items[position]? = some child →
      Leads idKey (spot.item position child) way target →
      Leads idKey spot (toString position :: way) target

/-- The object at a spot declares an identifier, under which its location is the one given. -/
structure Declares (idKey : String) (spot : IndexSpot) (members : List (String × Json))
    (identifier : String) (named : Location) : Prop where
  schema : spot.isMap = false
  object : spot.value = .object members
  plain : members.lookup Builtin.ref.key = none
  found : members.lookup idKey = some (.string identifier)
  made : spot.location.withId identifier = .ok named

/-- Whether a text under the keyword for identifiers is one that the object at the spot declares. -/
def speaks (idKey : String) (spot : IndexSpot) : Bool :=
  match spot.value.member? idKey with
  | some (.string identifier) =>
    !spot.isMap && (spot.value.member? Builtin.ref.key).isNone &&
      (spot.location.withId identifier).isOk
  | _ => true

/-- Where the walk stands behind a segment that it can take. -/
def step? (idKey : String) (spot : IndexSpot) (segment : String) : Option IndexSpot :=
  match spot.value with
  | .object members => (members.lookup segment).map (spot.member idKey members segment)
  | .array items =>
    (Pointer.index? segment).bind fun position => items[position]?.map (spot.item position)
  | _ => none

/-- Whether every text under the keyword for identifiers above the end of a pointer is declared
there. -/
def speaksAbove (idKey : String) (spot : IndexSpot) : Pointer → Bool
  | [] => true
  | segment :: rest =>
    spot.speaks idKey &&
      match spot.step? idKey segment with
      | some next => next.speaksAbove idKey rest
      | none => true

/-- An entry of the index is declared at a spot that the walk comes to. -/
def Lists (idKey : String) (spot : IndexSpot) (entry : String × Pointer) : Prop :=
  ∃ way target members identifier named, Leads idKey spot way target ∧
    target.Declares idKey members identifier named ∧ named.declaredId = some entry.1 ∧
      named.pointer = entry.2

/-! ## Where the walk stands -/

theorem Declares.below (declares : spot.Declares idKey members identifier named) :
    spot.below idKey members = named := by
  unfold IndexSpot.below Cache.indexIdentifier
  rw [declares.schema, declares.found, declares.plain]
  dsimp only
  rw [declares.made, if_neg Bool.false_ne_true]
  cases declared : named.declaredId with
  | none => simp only [declared]
  | some uri => simp only [declared]

/-- Where no identifier is declared the walk keeps its location. -/
theorem below_cases (idKey : String) (spot : IndexSpot) (members : List (String × Json))
    (object : spot.value = .object members) :
    spot.below idKey members = spot.location ∨
      ∃ identifier named, spot.Declares idKey members identifier named := by
  unfold IndexSpot.below
  cases map : spot.isMap with
  | true => exact .inl rfl
  | false =>
    rw [if_neg Bool.false_ne_true]
    unfold Cache.indexIdentifier
    split
    · next identifier found plain =>
      cases made : spot.location.withId identifier with
      | error fault => exact .inl rfl
      | ok named => exact .inr ⟨identifier, named, map, object, plain, found, made⟩
    · exact .inl rfl

theorem below_pointer (object : spot.value = .object members) :
    (spot.below idKey members).pointer = spot.location.pointer := by
  rcases below_cases idKey spot members object with same | ⟨identifier, named, declares⟩
  · rw [same]
  · rw [declares.below]
    exact (Load.withId_place declares.made).2

theorem Leads.pointer (leads : Leads idKey spot way target) :
    target.location.pointer = spot.location.pointer ++ way := by
  induction leads with
  | here => exact (List.append_nil _).symm
  | member object _ _ _ ih =>
    rw [ih]
    change (IndexSpot.below _ _ _).pointer ++ [_] ++ _ = _
    rw [below_pointer object, List.append_assoc]
    rfl
  | item _ _ _ ih =>
    rw [ih]
    change _ ++ [_] ++ _ = _
    rw [List.append_assoc]
    rfl

/-- The pointer of a spot resolves to its value. -/
theorem Leads.resolve (leads : Leads idKey spot way target) (whole : Pointer) :
    Pointer.resolveFrom whole spot.value way = .ok target.value := by
  induction leads with
  | here => rfl
  | member object found _ _ ih =>
    rw [object, Pointer.resolveFrom, Pointer.step_member found]
    exact ih
  | item array found _ ih =>
    rw [array, Pointer.resolveFrom,
      Pointer.step_item (List.mem_zipIdx_iff_getElem?.2 found)]
    exact ih

theorem declares_of_speaks (speaks : spot.speaks idKey = true)
    (object : spot.value = .object members)
    (found : members.lookup idKey = some (.string identifier)) :
    ∃ named, spot.Declares idKey members identifier named := by
  unfold IndexSpot.speaks Json.member? at speaks
  rw [object] at speaks
  dsimp only at speaks
  rw [found] at speaks
  simp only [Bool.and_eq_true, Bool.not_eq_true', Option.isNone_iff_eq_none] at speaks
  obtain ⟨⟨schema, plain⟩, ok⟩ := speaks
  cases made : spot.location.withId identifier with
  | error fault =>
    rw [made] at ok
    cases ok
  | ok named => exact ⟨named, schema, object, plain, found, made⟩

/-- Where a text is an identifier, both walks go on under the same location. -/
theorem named_eq_below (speaks : spot.speaks idKey = true) (object : spot.value = .object members) :
    spot.location.Names idKey members ∧
      spot.location.named idKey members = spot.below idKey members := by
  by_cases text : ∃ identifier, members.lookup idKey = some (.string identifier)
  · obtain ⟨identifier, found⟩ := text
    obtain ⟨named, declares⟩ := declares_of_speaks speaks object found
    have same : spot.location.named idKey members = named := by
      unfold Location.named
      rw [found]
      dsimp only
      rw [declares.made]
    refine ⟨?_, same.trans declares.below.symm⟩
    intro other found'
    rw [found] at found'
    cases found'
    rw [same]
    exact declares.made
  · have same : spot.location.named idKey members = spot.location := by
      unfold Location.named
      split
      · next identifier found => exact absurd ⟨identifier, found⟩ text
      · rfl
    refine ⟨fun identifier found => absurd ⟨identifier, found⟩ text, ?_⟩
    rcases below_cases idKey spot members object with kept | ⟨identifier, _, declares⟩
    · rw [same, kept]
    · exact absurd ⟨identifier, declares.found⟩ text

/-- Where every text on the way is an identifier, the walk for a location comes to the same
location. -/
theorem Leads.walk (leads : Leads idKey spot way target)
    (speaks : spot.speaksAbove idKey way = true) :
    Location.walk idKey spot.location spot.value way = .ok target.location := by
  induction leads with
  | here => rfl
  | @member spot target members name child way object found looked leads ih =>
    have next : spot.step? idKey name = some (spot.member idKey members name child) := by
      unfold step?
      rw [object]
      dsimp only
      rw [found]
      rfl
    rw [speaksAbove, next, Bool.and_eq_true] at speaks
    obtain ⟨names, same⟩ := named_eq_below speaks.1 object
    rw [object, Location.walk_member names found, same]
    exact ih speaks.2
  | @item spot target items position child way array found leads ih =>
    have next : spot.step? idKey (toString position) = some (spot.item position child) := by
      unfold step?
      rw [array]
      dsimp only
      rw [Pointer.index_toString, Option.bind_some, found]
      rfl
    rw [speaksAbove, next, Bool.and_eq_true] at speaks
    have stepped := Pointer.step_item (List.mem_zipIdx_iff_getElem?.2 found)
    have first : Location.walk idKey spot.location (.array items) [toString position] =
        .ok (spot.location.child [toString position]) :=
      Location.walk_plain (fun _ same => by cases same) stepped
    have resolved : Pointer.resolveFrom [] (.array items) [toString position] = .ok child := by
      rw [Pointer.resolveFrom, stepped]
      rfl
    rw [array]
    exact (Location.walk_append resolved first).trans (ih speaks.2)

theorem Lists.member {name : String} {child : Json} (object : spot.value = .object members)
    (found : members.lookup name = some child) (looked : spot.isMap = true ∨ name ∉ Cache.dataKeys)
    (lists : Lists idKey (spot.member idKey members name child) entry) :
    Lists idKey spot entry := by
  obtain ⟨way, target, inner, identifier, named, leads, declares⟩ := lists
  exact ⟨name :: way, target, inner, identifier, named, .member object found looked leads, declares⟩

theorem Lists.item {items : List Json} {position : Nat} {child : Json}
    (array : spot.value = .array items) (found : items[position]? = some child)
    (lists : Lists idKey (spot.item position child) entry) : Lists idKey spot entry := by
  obtain ⟨way, target, inner, identifier, named, leads, declares⟩ := lists
  exact ⟨toString position :: way, target, inner, identifier, named, .item array found leads,
    declares⟩

end IndexSpot

/-! ## What the index lists -/

namespace Cache

open IndexSpot

variable {idKey : String} {entry : String × Pointer}

/-- An object adds the identifier that it declares to the index. -/
theorem mem_indexIdentifier {members : List (String × Json)} {location : Location}
    {index : List (String × Pointer)}
    (mem : entry ∈ (indexIdentifier idKey members location index).2) :
    entry ∈ index ∨ Lists idKey ⟨false, location, .object members⟩ entry := by
  unfold indexIdentifier at mem
  split at mem
  · next identifier found plain =>
    split at mem
    · next named made =>
      split at mem
      · next uri declared =>
        rcases Members.mem_putNew mem with old | rfl
        · exact .inl old
        · exact .inr ⟨[], _, members, identifier, named, .here _, ⟨rfl, rfl, plain, found, made⟩,
            declared, rfl⟩
      · exact .inl mem
    · exact .inl mem
  · exact .inl mem

theorem indexIdentifier_location (idKey : String) (members : List (String × Json))
    (location : Location) (index other : List (String × Pointer)) :
    (indexIdentifier idKey members location index).1 =
      (indexIdentifier idKey members location other).1 := by
  unfold indexIdentifier
  split
  · split
    · split <;> rfl
    · rfl
  · rfl

mutual

/-- What the walk adds to an index is declared at a spot that it comes to. -/
theorem mem_indexValue (isMap : Bool) (location : Location) (index : List (String × Pointer)) :
    ∀ value : Json, value.IsProper → entry ∈ indexValue idKey isMap location index value →
      entry ∈ index ∨ Lists idKey ⟨isMap, location, value⟩ entry
  | .object members, proper, mem => by
    rw [indexValue] at mem
    cases isMap with
    | true =>
      rcases mem_indexMembers true location index members proper.2 mem with
        old | ⟨name, child, inside, looked, lists⟩
      · exact .inl old
      · exact .inr (.member rfl (Members.lookup_of_mem proper.1 inside) looked lists)
    | false =>
      rcases mem_indexMembers false (indexIdentifier idKey members location index).1
          (indexIdentifier idKey members location index).2 members proper.2 mem with
        old | ⟨name, child, inside, looked, lists⟩
      · exact mem_indexIdentifier old
      · rw [indexIdentifier_location idKey members location index []] at lists
        exact .inr (.member rfl (Members.lookup_of_mem proper.1 inside) looked lists)
  | .array items, proper, mem => by
    rw [indexValue] at mem
    rcases mem_indexItems location index 0 items proper mem with old | ⟨n, child, found, lists⟩
    · exact .inl old
    · rw [Nat.zero_add] at lists
      exact .inr (.item rfl found lists)
  | .null, _, mem | .bool _, _, mem | .number _, _, mem | .string _, _, mem | .bytes _, _, mem =>
    .inl mem

/-- What the walk adds for the members is declared below one of them. -/
theorem mem_indexMembers (isMap : Bool) (location : Location) (index : List (String × Pointer)) :
    ∀ members : List (String × Json), Json.AreProperMembers members →
      entry ∈ indexMembers idKey isMap location index members →
      entry ∈ index ∨ ∃ name child, (name, child) ∈ members ∧ (isMap = true ∨ name ∉ dataKeys) ∧
        Lists idKey ⟨!isMap && schemaMapKeys.contains name, location.child [name], child⟩ entry
  | [], _, mem => .inl mem
  | (name, value) :: rest, proper, mem => by
    rw [indexMembers] at mem
    rcases mem_indexMembers isMap location _ rest proper.2 mem with
      early | ⟨other, child, inside, looked, lists⟩
    · dsimp only at early
      split at early
      · exact .inl early
      · next schemas =>
        have looked : isMap = true ∨ name ∉ dataKeys := by
          rw [Bool.and_eq_true, not_and_or, List.contains_iff_mem] at schemas
          exact schemas.imp_left fun h => by simpa using h
        rcases mem_indexValue _ _ index value proper.1 early with old | lists
        · exact .inl old
        · exact .inr ⟨name, value, List.mem_cons_self, looked, lists⟩
    · exact .inr ⟨other, child, List.mem_cons_of_mem _ inside, looked, lists⟩

/-- What the walk adds for the items is declared below one of them. -/
theorem mem_indexItems (location : Location) (index : List (String × Pointer)) (position : Nat) :
    ∀ items : List Json, Json.AreProper items →
      entry ∈ indexItems idKey location index position items →
      entry ∈ index ∨ ∃ n child, items[n]? = some child ∧
        Lists idKey ⟨false, location.child [toString (position + n)], child⟩ entry
  | [], _, mem => .inl mem
  | value :: rest, proper, mem => by
    rw [indexItems] at mem
    rcases mem_indexItems location _ (position + 1) rest proper.2 mem with
      early | ⟨n, child, found, lists⟩
    · rcases mem_indexValue _ _ index value proper.1 early with old | lists
      · exact .inl old
      · exact .inr ⟨0, value, rfl, lists⟩
    · have further : position + 1 + n = position + (n + 1) := by omega
      rw [further] at lists
      exact .inr ⟨n + 1, child, found, lists⟩

end

/-- An identifier without fragment is the base of its schema. -/
theorem withId_scope {location named : Location} {identifier uri : String}
    (made : location.withId identifier = .ok named) (declared : named.declaredId = some uri)
    (plain : '#' ∉ uri.toList) : named.scope = uri := by
  unfold Location.withId at made
  obtain ⟨resolved, -, made⟩ := except_bind_ok made
  obtain ⟨⟨base, fragment⟩, split, made⟩ := except_bind_ok made
  dsimp only at made
  split at made
  · cases made
    exact Option.some.inj declared
  · next nonempty =>
    cases made
    cases declared
    rw [Uri.splitFragment_plain plain] at split
    cases split
    exact absurd rfl nonempty

/-- An entry of the index is the identifier of an object that is no reference. Where each text above
it is an identifier too, the object has a location, to which its identifier gives the URI of the
entry. -/
theorem index_locates {cache : Cache} {uri : String} {stored : StoredDocument}
    {index : List (String × Pointer)} {entry : String × Pointer}
    (known : cache.documents.lookup uri = some stored) (proper : stored.document.value.IsProper)
    (ok : cache.idIndex uri = .ok index) (mem : entry ∈ index) :
    ∃ root members identifier, Location.root uri = .ok root ∧
      Pointer.resolve stored.document.value entry.2 = .ok (.object members) ∧
      members.lookup Builtin.ref.key = none ∧
      members.lookup stored.draft.idKey = some (.string identifier) ∧
      (speaksAbove stored.draft.idKey ⟨false, root, stored.document.value⟩ entry.2 = true →
        ∃ location named,
          Location.ofDocument uri stored.document.value entry.2 stored.draft.idKey =
            .ok location ∧
          location.withId identifier = .ok named ∧ named.declaredId = some entry.1 ∧
          named.canonicalUri = .ok entry.1 ∧ ('#' ∉ entry.1.toList → named.scope = entry.1)) := by
  unfold idIndex at ok
  rw [known] at ok
  obtain ⟨root, start, indexed⟩ := except_bind_ok (mapError_ok ok)
  cases indexed
  obtain ⟨way, target, members, identifier, named, leads, declares, declared, place⟩ :=
    (mem_indexValue false root [] stored.document.value proper mem).resolve_left List.not_mem_nil
  have top : root.pointer = [] := by
    unfold Location.root at start
    obtain ⟨_, _, start⟩ := except_bind_ok start
    cases start
    rfl
  have pointer : entry.2 = way := by
    rw [← place, (Load.withId_place declares.made).2, leads.pointer]
    exact congrArg (· ++ way) top
  refine ⟨root, members, identifier, start, ?_, declares.plain, declares.found, ?_⟩
  · have resolved := leads.resolve way
    rw [declares.object] at resolved
    rw [pointer]
    exact resolved
  · intro speaks
    rw [pointer] at speaks ⊢
    have walked : Location.ofDocument uri stored.document.value way stored.draft.idKey =
        .ok target.location := by
      unfold Location.ofDocument
      rw [start]
      exact leads.walk speaks
    refine ⟨target.location, named, walked, declares.made, declared, ?_,
      withId_scope declares.made declared⟩
    unfold Location.canonicalUri
    rw [declared]

namespace Nesting

/-- A document with identifiers within identifiers, in a map and in a list. -/
def stored : StoredDocument where
  document := {
    id := ⟨0⟩
    value := .object [("$id", .string "http://e.com/"), ("definitions", .object [
      ("id", .object [("$id", .string "b/"),
        ("items", .array [.object [("$id", .string "c.json")]])])])] }
  draft := .draft6

/-- A cache that knows the document. -/
def cache : Cache :=
  { Cache.empty with documents := [("http://e.com/r.json", stored)] }

end Nesting

/-- The inmost object is located under the identifiers around it. -/
theorem nesting_located :
    ∃ location named,
      Location.ofDocument "http://e.com/r.json" Nesting.stored.document.value
        ["definitions", "id", "items", "0"] "$id" = .ok location ∧
      location.withId "c.json" = .ok named ∧ named.scope = "http://e.com/b/c.json" := by
  have proper : Nesting.stored.document.value.IsProper := by
    simp [Nesting.stored, Json.IsProper, Json.AreProper, Json.AreProperMembers, Members.keys]
  have ok : Nesting.cache.idIndex "http://e.com/r.json" = .ok [("http://e.com/", []),
      ("http://e.com/b/", ["definitions", "id"]),
      ("http://e.com/b/c.json", ["definitions", "id", "items", "0"])] :=
    toOption_ok (by decide +kernel)
  have listed : ("http://e.com/b/c.json", ["definitions", "id", "items", "0"]) ∈
      ([("http://e.com/", []), ("http://e.com/b/", ["definitions", "id"]),
        ("http://e.com/b/c.json", ["definitions", "id", "items", "0"])] :
          List (String × Pointer)) := by decide
  obtain ⟨root, members, identifier, start, resolved, -, found, located⟩ :=
    index_locates rfl proper ok listed
  have top : Location.root "http://e.com/r.json" =
      .ok ⟨"http://e.com/r.json", [], "http://e.com/r.json", "http://e.com/r.json", [], none⟩ := by
    decide +kernel
  have inmost : Pointer.resolve Nesting.stored.document.value ["definitions", "id", "items", "0"] =
      .ok (.object [("$id", .string "c.json")]) := rfl
  rw [top] at start
  cases start
  rw [inmost] at resolved
  cases resolved
  cases found
  obtain ⟨location, named, walked, made, -, -, scope⟩ := located (by decide +kernel)
  exact ⟨location, named, walked, made, scope (by decide)⟩

end Cache

/-- In a map of schemas only the walk for a location takes a name for the keyword. -/
example : Cache.identifiers "http://e.com/r.json" { document := {
      id := ⟨0⟩
      value := .object [("dependencies", .object [("id", .string "x/"),
        ("bar", .object [("id", .string "y")])])] }, draft := .draft3 } =
    .ok [("http://e.com/y", ["dependencies", "bar"])] ∧
    (do
      let location ← (Location.ofDocument "http://e.com/r.json" (.object [("dependencies", .object
        [("id", .string "x/"), ("bar", .object [("id", .string "y")])])])
        ["dependencies", "bar"] "id").toOption
      let named ← (location.withId "y").toOption
      named.declaredId) = some "http://e.com/x/y" := by
  decide +kernel

end JsonSchema
