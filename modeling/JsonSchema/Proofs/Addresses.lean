import JsonSchema.Proofs.Steps

/-!
# What locations address

A value stands at a place if the document is known and the pointer leads to the value (`IsAt`).
Loading comes to values at their places (`Comes.isAt`), and the members of an object are addressed by
the object's place with their key behind it (`IsAt.member`).

There is one other kind of place that an issue can have. What goes wrong with additional items is
recorded at the items of their object, even if the object has none (`IsAddress.missing`).
-/

namespace JsonSchema.Load

/-- A value stands at a place of a known document. -/
def IsAt (documents : Documents) (value : Json) (place : String × Pointer) : Prop :=
  ∃ stored, documents.lookup place.1 = some stored ∧
    Pointer.resolve stored.document.value place.2 = .ok value

/-- A place is that of a value in a known document, or of the missing items of an object with
additional items. -/
inductive IsAddress (documents : Documents) : String × Pointer → Prop
  | value {place : String × Pointer} {value : Json} (here : IsAt documents value place) :
    IsAddress documents place
  | missing {uri : String} {pointer : Pointer} {members : List (String × Json)}
    (here : IsAt documents (.object members) (uri, pointer))
    (none : members.lookup Builtin.items.key = none)
    (additional : (members.lookup Builtin.additionalItems.key).isSome) :
    IsAddress documents (uri, pointer ++ [Builtin.items.key])

/-- An issue is recorded at the URI of a place that addresses something. -/
def IsPlacedIssue (documents : Documents) (issue : Issue) : Prop :=
  ∃ location : Location, location.absoluteUri = .ok issue.location ∧
    IsAddress documents location.place

/-- A schema is a node for an object that loading came to: it has the object's place, which has a
URI, and the draft of the document. -/
def IsStationed (documents : Documents) (schema : Schema) : Prop :=
  ∃ received members draft node location keywords,
    Comes documents received (.object members) draft ∧ location.place = received.place ∧
    schema = .node node (some location) draft keywords ∧ ∃ uri, location.absoluteUri = .ok uri

variable {documents documents' : Documents} {location : Location} {value : Json} {draft : Draft}
  {members : List (String × Json)}

theorem IsAt.mono {place : String × Pointer} (grows : Grows documents documents')
    (here : IsAt documents value place) : IsAt documents' value place := by
  obtain ⟨stored, known, resolved⟩ := here
  exact ⟨stored, grows _ _ known, resolved⟩

theorem IsAddress.mono {place : String × Pointer} (grows : Grows documents documents')
    (address : IsAddress documents place) : IsAddress documents' place := by
  cases address with
  | value here => exact .value (here.mono grows)
  | missing here none additional => exact .missing (here.mono grows) none additional

theorem IsPlacedIssue.mono {issue : Issue} (grows : Grows documents documents')
    (placed : IsPlacedIssue documents issue) : IsPlacedIssue documents' issue := by
  obtain ⟨location, same, address⟩ := placed
  exact ⟨location, same, address.mono grows⟩

theorem IsStationed.mono {schema : Schema} (grows : Grows documents documents')
    (stationed : IsStationed documents schema) : IsStationed documents' schema := by
  obtain ⟨received, members, draft, node, location, keywords, comes, rest⟩ := stationed
  exact ⟨received, members, draft, node, location, keywords, comes.mono grows, rest⟩

theorem ofFault_location (place : String) (fault : Fault) :
    (Issue.ofFault place fault).location = place := by
  cases fault <;> rfl

theorem Comes.isAt (sound : AreSound documents) (comes : Comes documents location value draft) :
    IsAt documents value location.place := by
  obtain ⟨_, _, stored, known, _, resolved⟩ := comes.found sound
  exact ⟨stored, known, resolved⟩

/-- The members of an object are addressed by its place with their key behind it. -/
theorem IsAt.member (here : IsAt documents (.object members) location.place) {key : String}
    (found : members.lookup key = some value) :
    IsAddress documents (location.child [key]).place := by
  obtain ⟨stored, known, resolved⟩ := here
  have inside : Pointer.resolve (.object members) [key] = .ok value := by
    unfold Pointer.resolve Pointer.resolveFrom
    rw [Pointer.step_member found]
    rfl
  exact .value ⟨stored, known, Pointer.resolve_append resolved inside⟩

/-- What is wrong with items or additional items is recorded where the items are, or would be. -/
theorem IsAt.items (here : IsAt documents (.object members) location.place)
    (something : (members.lookup Builtin.items.key).isSome ∨
      (members.lookup Builtin.additionalItems.key).isSome) :
    IsAddress documents (location.child [Builtin.items.key]).place := by
  cases found : members.lookup Builtin.items.key with
  | some value => exact here.member found
  | none =>
    rw [found] at something
    exact .missing here found (something.resolve_left nofun)

end JsonSchema.Load
