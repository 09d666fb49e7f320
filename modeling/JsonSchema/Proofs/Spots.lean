import JsonSchema.Proofs.Coupling
import JsonSchema.Proofs.Standing

/-!
# What stands for a value

A schema stands for a value that loading arrives at if it was loaded for it (`Stands`). In a session
that ended well (`Track.IsSettled`) the schema that stands for an object is the one that was built
for it or refers to this one (`Stands.exists_built`). What was built for an object that is no
reference holds schemas that stand for the parts of the object (`Built.reads`); what was built for a
reference points to a schema that stands at the place that the reference names (`Built.points`).
-/

namespace JsonSchema.Load

open Schema (PointsTo)

variable {contents : String → Json} {w : Track contents} {location : Location} {value : Json}
  {draft : Draft} {schema node : Schema} {members : List (String × Json)}

/-- A schema was loaded for a value that loading arrives at. -/
structure Stands (w : Track contents) (location : Location) (value : Json) (draft : Draft)
    (schema : Schema) : Prop where
  arrives : Arrives w.documents location value draft
  loaded : Loaded w.stock location value draft schema

/-- A session without errors over unambiguous documents, in which all handles are bound. -/
structure Track.IsSettled (w : Track contents) : Prop where
  clean : w.stock.IsClean
  unambiguous : Unambiguous w.documents
  bound : w.session.graph.IsBound

theorem Stands.made (stands : Stands w location value draft schema) : w.stock.Made schema :=
  stands.loaded.1

/-- Schemas stand for truth values and objects only. -/
theorem Stands.cases (stands : Stands w location value draft schema) :
    (∃ b, value = .bool b ∧ schema = .ofBool b) ∨ ∃ members, value = .object members := by
  obtain ⟨_, _, what⟩ := stands
  cases value with
  | bool b => exact .inl ⟨b, rfl, what⟩
  | object members => exact .inr ⟨members, rfl⟩
  | _ => exact what.elim

/-- A value is the one at its place. -/
theorem Arrives.unique {location' : Location} {draft' : Draft} {value' : Json}
    (sound : AreSound w.documents) (arrives : Arrives w.documents location value draft)
    (arrives' : Arrives w.documents location' value' draft')
    (same : location.place = location'.place) : value = value' ∧ draft = draft' := by
  obtain ⟨_, _, stored, known, rfl, found⟩ := arrives.comes.found sound
  obtain ⟨_, _, stored', known', rfl, found'⟩ := arrives'.comes.found sound
  obtain ⟨document, pointer⟩ := Prod.mk.inj same
  rw [← document, known] at known'
  cases known'
  rw [← pointer, found] at found'
  exact ⟨Except.ok.inj found', rfl⟩

/-- What a handle is bound to stands at the place of the handle, and was built for the object
there. -/
theorem exists_stands (clean : w.stock.IsClean) {id : HandleId} {place : String × Pointer}
    (stands : w.session.StandsAt id place) (found : w.session.graph.schema? id = some schema) :
    ∃ location value draft, location.place = place ∧ Stands w location value draft schema ∧
      ∀ members, value = .object members → Built w.stock location members draft schema := by
  obtain ⟨handle, known, rfl⟩ := stands
  obtain ⟨handle', known', same⟩ := Option.bind_eq_some_iff.1 found
  rw [known] at known'
  cases known'
  rcases w.bound clean id handle schema known same with
    ⟨received, members, draft, arrives, here, built⟩ | ⟨value, draft, arrives, other, loaded⟩
  · have place : handle.location.place = received.place := by
      rw [here]
      exact Session.ofObject_place _ _ _
    refine ⟨received, .object members, draft, place.symm, ⟨arrives, w.made id schema found, ?_⟩, ?_⟩
    · intro _
      refine ⟨?_, id, ⟨handle, known, place⟩, .inl found⟩
      obtain ⟨node, keywords, rfl, _⟩ := built
      exact ⟨_, rfl, Session.ofObject_place _ _ _⟩
    · rintro _ ⟨⟩
      exact built
  · refine ⟨handle.location, value, draft, rfl, ⟨arrives, loaded⟩, fun members object => ?_⟩
    exact absurd object (other members)

/-! ## Parts -/

section Parts

variable {sub : Sub} {keywords : List (Keyword × KeywordValue)}

/-- What was loaded for some values, as far as they are among given parts. -/
def Sub.within (sub : Sub) (parts : List (Pointer × Json)) : Sub :=
  fun way part schema => (way, part) ∈ parts ∧ sub way part schema

theorem reads_entries {entries : List (String × Json)} {schemas : List (String × Schema)}
    {parts : List (Pointer × Json)} (listed : ∀ entry ∈ entries, ([entry.1], entry.2) ∈ parts)
    (reads : List.Forall₂ (ReadsEntry sub) entries schemas) :
    List.Forall₂ (ReadsEntry (sub.within parts)) entries schemas := by
  have both := (List.forall₂_and_left entries schemas).2 ⟨listed, reads⟩
  exact both.imp (fun entry named read => ⟨read.2.1, read.1, read.2.2⟩)

theorem ReadsValue.within {keyword : Keyword} {kind : KeywordKind} {loaded : KeywordValue}
    (reads : ReadsValue sub keyword kind draft value loaded) :
    ReadsValue (sub.within (kind.parts value)) keyword kind draft value loaded := by
  unfold ReadsValue at reads ⊢
  split at reads
  · obtain ⟨schema, same, below⟩ := reads
    exact ⟨schema, same, List.mem_singleton_self _, below⟩
  · obtain ⟨schemas, same, below⟩ := reads
    exact ⟨schemas, same, (List.forall₂_and_left _ _).2 ⟨fun _ mem => mem, below⟩⟩
  · obtain ⟨entries, schemas, rfl, same, below⟩ := reads
    refine ⟨entries, schemas, rfl, same, reads_entries (fun entry mem => ?_) below⟩
    exact List.mem_map.2 ⟨entry, mem, rfl⟩
  · obtain ⟨entries, names, schemas, rfl, same, needed, below⟩ := reads
    refine ⟨entries, names, schemas, rfl, same, needed, reads_entries (fun entry mem => ?_) below⟩
    obtain ⟨listed, isSchema⟩ := List.mem_filter.1 mem
    obtain ⟨name, value⟩ := entry
    refine List.mem_filterMap.2 ⟨_, listed, ?_⟩
    cases value <;> first | rfl | cases isSchema
  · exact reads

theorem ReadsItems.within (reads : ReadsItems sub members keywords) :
    ReadsItems (sub.within (Json.parts draft members)) members keywords := by
  have listed : Registry.default.find? Builtin.items.key (some draft) = some Builtin.items ∧
      Registry.default.find? Builtin.additionalItems.key (some draft) =
        some Builtin.additionalItems ∧ (Builtin.items.variantFor draft).kind = .items ∧
          (Builtin.additionalItems.variantFor draft).kind = .schema := by
    cases draft <;> decide +kernel
  have ofItems : ∀ {value way part}, members.lookup Builtin.items.key = some value →
      (way, part) ∈ KeywordKind.items.parts value →
      (Builtin.items.key :: way, part) ∈ Json.parts draft members := by
    intro value way part found inside
    refine Json.mem_parts (Members.mem_of_lookup found) listed.1 ?_
    rw [listed.2.2.1]
    exact inside
  have ofMore : ∀ {value}, members.lookup Builtin.additionalItems.key = some value →
      ([Builtin.additionalItems.key], value) ∈ Json.parts draft members := by
    intro value found
    refine Json.mem_parts (Members.mem_of_lookup found) listed.2.1 ?_
    rw [listed.2.2.2]
    exact List.mem_singleton_self _
  unfold ReadsItems at reads ⊢
  dsimp only at reads ⊢
  split
  · next nothing =>
    rw [if_pos nothing] at reads
    exact reads
  · next something =>
    rw [if_neg something] at reads
    obtain ⟨form, more, same, each, rest⟩ := reads
    refine ⟨form, more, same, ?_, ?_⟩
    · unfold ReadsForm at each ⊢
      split at each
      · exact each
      · next items found =>
        obtain ⟨schemas, rfl, below⟩ := each
        have both := (List.forall₂_and_left _ _).2 ⟨fun _ mem => mem, below⟩
        exact ⟨schemas, rfl, both.imp (fun part schema read => ⟨ofItems found read.1, read.2⟩)⟩
      · next value single found =>
        obtain ⟨schema, rfl, below⟩ := each
        refine ⟨schema, rfl, ofItems found ?_, below⟩
        cases value with
        | array items => exact absurd rfl (single items)
        | _ => exact List.mem_singleton_self _
    · unfold ReadsAdditional at rest ⊢
      split at rest
      · exact rest
      · next value found =>
        obtain ⟨schema, rfl, below⟩ := rest
        exact ⟨schema, rfl, ofMore found, below⟩

/-- The schemas of an object were loaded for its parts. -/
theorem Reads.within (reads : Reads sub draft members keywords) :
    Reads (sub.within (Json.parts draft members)) draft members keywords := by
  obtain ⟨shaped, plain, items, each, rest, same⟩ := reads
  refine ⟨shaped, plain, items, ?_, rest.within, same⟩
  have both := (List.forall₂_and_left _ _).2 ⟨fun _ mem => mem, each⟩
  refine both.imp (fun member entry read => ⟨read.2.1, read.2.2.1, ?_⟩)
  refine read.2.2.2.within.mono (fun way part schema below => ⟨?_, below.2⟩)
  obtain ⟨listed, plain⟩ := mem_plainMembers read.1
  exact Json.mem_parts listed (Option.filter_eq_some_iff.1 plain).1 below.1

end Parts

/-! ## Objects -/

/-- What was built for an object that is no reference holds schemas that stand for its parts. -/
theorem Built.reads (arrives : Arrives w.documents location (.object members) draft)
    (built : Built w.stock location members draft node)
    (plain : members.lookup Builtin.ref.key = none) :
    Reads (fun way part schema =>
      Stands w ((location.named draft.idKey members).child way) part draft schema)
      draft members node.keywords := by
  obtain ⟨number, keywords, rfl, content⟩ := built
  rw [plain] at content
  exact content.2.within.mono (fun way part schema below =>
    ⟨arrives.part plain content.1 below.1, below.2⟩)

section Settled

variable (settled : w.IsSettled)

include settled

theorem bound_of_standsAt {id : HandleId} {place : String × Pointer}
    (stands : w.session.StandsAt id place) :
    ∃ schema, w.session.graph.schema? id = some schema := by
  obtain ⟨handle, known, _⟩ := stands
  obtain ⟨inside, _⟩ := Array.getElem?_eq_some_iff.1 known
  exact Option.isSome_iff_exists.1 (settled.bound id inside)

/-- What stands for an object is the schema that was built for it, or refers to this schema. -/
theorem Stands.exists_built (stands : Stands w location (.object members) draft schema) :
    ∃ node location', location'.place = location.place ∧
      Stands w location' (.object members) draft node ∧
      Built w.stock location' members draft node ∧
        (node = schema ∨ ∃ id, RefersBack location draft id schema ∧
          w.session.graph.schema? id = some node) := by
  obtain ⟨arrives, made, what⟩ := stands
  obtain ⟨_, id, at_place, which⟩ := what settled.unambiguous
  obtain ⟨node, bound⟩ := bound_of_standsAt settled at_place
  obtain ⟨location', value, draft', place, stands', built⟩ :=
    exists_stands settled.clean at_place bound
  obtain ⟨rfl, rfl⟩ := Arrives.unique w.sound stands'.arrives arrives place
  refine ⟨node, location', place, stands', built members rfl, ?_⟩
  rcases which with here | back
  · rw [bound] at here
    exact .inl (Option.some.inj here)
  · exact .inr ⟨id, back, bound⟩

/-- What was built for a reference points to a schema that stands at the place that the reference
names, and was built for the object there. -/
theorem Built.points (built : Built w.stock location members draft node) {ref : Json}
    (found : members.lookup Builtin.ref.key = some ref) :
    ∃ text uri key place target location' value draft', ref = .string text ∧
      Uri.resolve location.scope text = .ok uri ∧ Uri.normalize uri = .ok key ∧
      Names w.documents key place ∧ node.PointsTo w.session.graph target ∧
      location'.place = place ∧ Stands w location' value draft' target ∧
      ∀ members', value = .object members' → Built w.stock location' members' draft' target := by
  obtain ⟨number, keywords, rfl, content⟩ := built
  rw [found] at content
  obtain ⟨text, uri, id, string, resolved, rfl, key, normal, named⟩ := content
  obtain ⟨place, names, at_place⟩ := named settled.unambiguous
  obtain ⟨target, bound⟩ := bound_of_standsAt settled at_place
  obtain ⟨location', value, draft', same, stands, built⟩ :=
    exists_stands settled.clean at_place bound
  exact ⟨text, uri, key, place, target, location', value, draft', string, resolved, normal, names,
    ⟨_, _, _, _, _, _, rfl, bound⟩, same, stands, built⟩

end Settled

end JsonSchema.Load
