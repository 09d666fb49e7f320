import JsonSchema.Proofs.Digests
import JsonSchema.Proofs.Within

/-!
# Documents at other places

Equal documents that are read at different places have schemas that are equal and have the same
hash, if every reference in them is one that the documents make (`Load.readSchema_isTwin`). What
stands for an object is read from its members or is the reference that the object makes
(`Load.StandsIn.content`), so schemas that correspond have keywords that agree in what corresponds
(`Load.Correspond.cases`). They are twins by induction on their size (`Load.Correspond.isTwin`).

Comparing two schemas ends early where a node is one and the same. The nodes of two sessions are told
apart by their identities, so what is said here holds for all identities (`Schema.relabel`).

A reference that is made up for an object that is still loading has the URI of the place as its text,
and so tells the places apart (`Load.looped_differs`).
-/

namespace JsonSchema

/-! ## Faithful schemas -/

/-- Every reference in a schema of a document is one that the document makes: the object at the place
of the reference has its text. -/
def Schema.IsFaithful (document : Json) (schema : Schema) : Prop :=
  ∀ part here ref uri target,
    Relation.ReflTransGen (fun whole part => part.IsPartOf whole) schema part →
    part.location? = some here → part.keywords = [(Builtin.ref, .reference ref uri target)] →
    ∀ members, Pointer.resolve document here.pointer = .ok (.object members) →
      members.lookup Builtin.ref.key = some (.string ref)

theorem Schema.IsFaithful.part {document : Json} {schema part : Schema}
    (faithful : schema.IsFaithful document) (inside : part.IsPartOf schema) :
    part.IsFaithful document :=
  fun inner here ref uri target path => faithful inner here ref uri target (.head inside path)

/-- Whether the object at the place of a reference has the text of the reference. -/
def Schema.keepsRef (document : Json) (schema : Schema) : Bool :=
  match schema.location?, schema.keywords with
  | some here, [(_, .reference ref _ _)] =>
    match Pointer.resolve document here.pointer with
    | .ok (.object members) =>
      match members.lookup Builtin.ref.key with
      | some (.string text) => text = ref
      | _ => false
    | _ => true
  | _, _ => true

/-- Whether every reference in a schema of at most some depth is one that the document makes. -/
def Schema.isFaithfulWithin (document : Json) : Nat → Schema → Bool
  | 0, _ => false
  | depth + 1, schema => schema.keepsRef document &&
    (schema.keywords.flatMap fun entry => entry.2.schemas).all (isFaithfulWithin document depth)

theorem Schema.isFaithful_of_within {document : Json} {depth : Nat} {schema : Schema}
    (within : schema.isFaithfulWithin document depth = true) : schema.IsFaithful document := by
  have parts : ∀ part, Relation.ReflTransGen (fun whole part => part.IsPartOf whole) schema part →
      ∃ depth, part.isFaithfulWithin document depth = true := by
    intro part path
    induction path with
    | refl => exact ⟨depth, within⟩
    | tail _ inside ih =>
      obtain ⟨depth, within⟩ := ih
      cases depth with
      | zero => cases within
      | succ depth =>
        obtain ⟨keyword, value, mem, listed⟩ := inside
        have each := List.all_eq_true.1 (Bool.and_eq_true_iff.1 within).2
        exact ⟨depth, each _ (List.mem_flatMap.2 ⟨_, mem, listed⟩)⟩
  intro part here ref uri target path located keywords members found
  obtain ⟨depth, within⟩ := parts part path
  cases depth with
  | zero => cases within
  | succ depth =>
    have kept := (Bool.and_eq_true_iff.1 within).1
    unfold Schema.keepsRef at kept
    rw [located, keywords] at kept
    dsimp only at kept
    rw [found] at kept
    dsimp only at kept
    split at kept
    · next text same => rw [same, of_decide_eq_true kept]
    · cases kept

theorem KeywordValue.sizeOf_lt {value : KeywordValue} {inner : Schema} (mem : inner ∈ value.schemas) :
    sizeOf inner < sizeOf value := by
  have named : ∀ {schemas : List (String × Schema)}, inner ∈ schemas.map Prod.snd →
      sizeOf inner < sizeOf schemas := by
    intro schemas mem
    obtain ⟨entry, listed, rfl⟩ := List.mem_map.1 mem
    have smaller := List.sizeOf_lt_of_mem listed
    obtain ⟨name, schema⟩ := entry
    simp only [Prod.mk.sizeOf_spec] at smaller ⊢
    omega
  cases value with
  | schema schema =>
    cases List.mem_singleton.1 mem
    simp
  | schemaList schemas =>
    have smaller := List.sizeOf_lt_of_mem (show inner ∈ schemas from mem)
    simp only [schemaList.sizeOf_spec]
    omega
  | schemaMap schemas =>
    have smaller := named mem
    simp only [schemaMap.sizeOf_spec]
    omega
  | dependencies names schemas =>
    have smaller := named mem
    simp only [dependencies.sizeOf_spec]
    omega
  | items form additional =>
    simp only [items.sizeOf_spec]
    rcases List.mem_append.1 mem with listed | more
    · cases form with
      | absent => cases listed
      | every schema =>
        cases List.mem_singleton.1 listed
        simp only [ItemsForm.every.sizeOf_spec]
        omega
      | each schemas =>
        have smaller := List.sizeOf_lt_of_mem (show inner ∈ schemas from listed)
        simp only [ItemsForm.each.sizeOf_spec]
        omega
    · cases additional with
      | none => cases more
      | some schema =>
        cases List.mem_singleton.1 more
        simp only [Option.some.sizeOf_spec]
        omega
  | _ => cases mem

theorem Schema.sizeOf_lt {inner : Schema} {id : SchemaId} {location : Option Location}
    {draft : Draft} {keywords : List (Keyword × KeywordValue)} {entry : Keyword × KeywordValue}
    (mem : entry ∈ keywords) (inside : inner ∈ entry.2.schemas) :
    sizeOf inner < sizeOf (Schema.node id location draft keywords) := by
  have first := KeywordValue.sizeOf_lt inside
  have second := List.sizeOf_lt_of_mem mem
  obtain ⟨keyword, value⟩ := entry
  simp only [Prod.mk.sizeOf_spec] at first second
  simp only [Schema.node.sizeOf_spec]
  omega

namespace Load

section Standing

variable {contents contents' : String → Json} {w : Track contents} {w' : Track contents'}
  {loader : Loader} {document document' value value' : Json} {root root' : Location}
  {draft : Draft} {schema schema' whole whole' : Schema} {members : List (String × Json)}

/-- A schema stands for a value somewhere in the document under a URI. -/
def StandsIn (w : Track contents) (uri : String) (draft : Draft) (value : Json) (schema : Schema) :
    Prop :=
  ∃ location : Location, location.documentUri = uri ∧ Stands w location value draft schema

theorem StandsIn.cases {uri : String} (stands : StandsIn w uri draft value schema) :
    (∃ b, value = .bool b ∧ schema = .ofBool b) ∨ ∃ members, value = .object members :=
  let ⟨_, _, standing⟩ := stands
  standing.cases

/-- What stands for an object is read from its members, or is the reference that the object makes. -/
theorem StandsIn.content (read : w.HasRead loader document root whole) (settled : w.IsSettled)
    (stands : StandsIn w root.documentUri draft (.object members) schema)
    (faithful : schema.IsFaithful document) :
    ∃ id here keywords, schema = .node id (some here) draft keywords ∧
      (members.lookup Builtin.ref.key = none ∧
          Reads (fun _ => StandsIn w root.documentUri draft) draft members keywords ∨
        ∃ text uri target, members.lookup Builtin.ref.key = some (.string text) ∧
          keywords = [(Builtin.ref, .reference text uri target)]) := by
  obtain ⟨location, inside, stands⟩ := stands
  obtain ⟨node, location', place, stands', built, rfl | ⟨id, back, _⟩⟩ := stands.exists_built settled
  · obtain ⟨document, _⟩ := Prod.mk.inj place
    cases plain : members.lookup Builtin.ref.key with
    | none =>
      have reads := built.reads stands'.arrives plain
      obtain ⟨number, keywords, rfl, _⟩ := built
      refine ⟨_, _, _, rfl, .inl ⟨rfl, reads.mono fun way part inner below => ?_⟩⟩
      refine ⟨_, ?_, below⟩
      exact (named_place draft.idKey location' members).1.trans (document.trans inside)
    | some ref =>
      obtain ⟨number, keywords, rfl, content⟩ := built
      rw [plain] at content
      obtain ⟨text, uri, target, rfl, _, rfl, _⟩ := content
      exact ⟨_, _, _, rfl, .inr ⟨text, uri, target, rfl, rfl⟩⟩
  · obtain ⟨number, ref, uri, rfl⟩ := back
    refine ⟨_, _, _, rfl, .inr ⟨ref, uri, id, ?_, rfl⟩⟩
    exact faithful _ location ref uri id .refl rfl rfl members
      (read.resolve stands.arrives inside).1

/-- Two schemas stand for equal values in two documents. -/
def Correspond (w : Track contents) (w' : Track contents') (uri uri' : String) (draft : Draft)
    (schema schema' : Schema) : Prop :=
  ∃ value value', value.Agrees value' ∧ StandsIn w uri draft value schema ∧
    StandsIn w' uri' draft value' schema'

section Correspond

variable (read : w.HasRead loader document root whole) (settled : w.IsSettled)
  (read' : w'.HasRead loader document' root' whole') (settled' : w'.IsSettled)

include read settled read' settled'

/-- Faithful schemas that correspond are for one truth value, or have keywords that agree in what
corresponds. -/
theorem Correspond.cases
    (corresponds : Correspond w w' root.documentUri root'.documentUri draft schema schema')
    (faithful : schema.IsFaithful document) (faithful' : schema'.IsFaithful document') :
    (∃ b, schema = .ofBool b ∧ schema' = .ofBool b) ∨
      ∃ id here keywords id' here' keywords', schema = .node id (some here) draft keywords ∧
        schema' = .node id' (some here') draft keywords' ∧ (Members.keys keywords).Nodup ∧
        Matched (Members.Paired (KeywordValue.Agrees
          (Correspond w w' root.documentUri root'.documentUri draft))) keywords keywords' := by
  obtain ⟨value, value', agrees, stands, stands'⟩ := corresponds
  rcases stands.cases with ⟨b, rfl, rfl⟩ | ⟨members, rfl⟩
  · rcases stands'.cases with ⟨c, rfl, rfl⟩ | ⟨members, rfl⟩
    · obtain rfl : b = c := by simpa [Json.equals] using agrees.equal
      exact .inl ⟨b, rfl, rfl⟩
    · cases agrees.equal
  · obtain ⟨members', rfl, _⟩ := agrees.object
    obtain ⟨id, here, keywords, rfl, content⟩ := stands.content read settled faithful
    obtain ⟨id', here', keywords', rfl, content'⟩ := stands'.content read' settled' faithful'
    refine .inr ⟨id, here, keywords, id', here', keywords', rfl, rfl, ?_⟩
    have refs := agrees.lookup Builtin.ref.key
    rcases content with ⟨plain, reads⟩ | ⟨text, uri, target, made, rfl⟩
    · rcases content' with ⟨_, reads'⟩ | ⟨text', _, _, made', _⟩
      · exact ⟨reads.nodup agrees.proper.1, reads.agrees agrees
          (fun _ _ part part' _ _ below below' same => ⟨part, part', same, below, below'⟩) reads'⟩
      · rw [plain, made'] at refs
        cases refs
    · rcases content' with ⟨plain, _⟩ | ⟨text', uri', target', made', rfl⟩
      · rw [made, plain] at refs
        cases refs
      · rw [made, made'] at refs
        cases refs with
        | some same =>
          cases same.string
          exact ⟨List.pairwise_singleton _ _, .of_forall₂ (.cons ⟨rfl, rfl⟩ .nil)⟩

/-- Faithful schemas that correspond are twins, whatever the identities of the nodes. -/
theorem Correspond.isTwin {α : Type} (hasher : Hasher α) (label : SchemaId → SchemaId)
    (corresponds : Correspond w w' root.documentUri root'.documentUri draft schema schema')
    (faithful : schema.IsFaithful document) (faithful' : schema'.IsFaithful document') :
    schema.IsTwin hasher (schema'.relabel label) := by
  induction size : sizeOf schema using Nat.strong_induction_on generalizing schema schema' with
  | _ n ih =>
    rcases corresponds.cases read settled read' settled' faithful faithful' with
      ⟨b, rfl, rfl⟩ | ⟨id, here, keywords, id', here', keywords', rfl, rfl, distinct, matched⟩
    · rw [relabel_ofBool]
      exact isTwin_ofBool hasher b
    · unfold Schema.relabel
      rw [relabelAll_eq]
      refine .of_keywords distinct (matched.paired_map fun entry mem entry' mem' paired =>
        paired.relabel fun inner inside inner' inside' below => ?_)
      exact ih _ (size ▸ Schema.sizeOf_lt mem inside) below
        (faithful.part ⟨_, _, mem, inside⟩) (faithful'.part ⟨_, _, mem', inside'⟩) rfl

end Correspond

/-- Equal documents name the same draft. -/
theorem draftOf_agree (loader : Loader) (agrees : value.Agrees value') :
    draftOf loader value = draftOf loader value' := by
  have same : Option.Rel Json.Agrees (value.member? Builtin.schemaUri.key)
      (value'.member? Builtin.schemaUri.key) := by
    rcases agrees.cases with ⟨_, _, rfl, rfl, -⟩ | ⟨_, _, rfl, rfl, -⟩ | ⟨_, _, rfl, rfl, -⟩ |
      ⟨rfl, plain⟩
    · exact .none
    · exact agrees.lookup _
    · exact .none
    · cases value with
      | object => cases plain
      | _ => exact .none
  unfold draftOf
  generalize value.member? _ = named, value'.member? _ = named' at same
  cases same with
  | none => rfl
  | some here =>
    rcases here.cases with ⟨_, _, rfl, rfl, -⟩ | ⟨_, _, rfl, rfl, -⟩ | ⟨_, _, rfl, rfl, -⟩ |
      ⟨rfl, -⟩
    all_goals rfl

/-- A document that was read leaves a settled track in which it was. -/
theorem exists_settled (ready : loader.IsReady) {document : Document} {baseUri : Option String}
    (place : rootOf loader document.value baseUri = .ok root)
    (agree : Agree contents loader [(document, root)]) {after : Session}
    (run : (readSchema loader document baseUri).run.run .empty = (.ok schema, after))
    (unambiguous : Unambiguous (readSession loader document baseUri .empty).documents) :
    ∃ w : Track contents, w.HasRead loader document.value root schema ∧ w.IsSettled := by
  obtain ⟨w, same, graph, read⟩ := exists_hasRead ready agree place run
  have proper : document.value.IsProper := (agree.requested _ (List.mem_singleton_self _)).2.1
  refine ⟨w, read, read.clean, ?_, ?_⟩
  · rw [← same] at unambiguous
    exact unambiguous
  · rw [graph]
    exact isBound_readSchema ready proper run

/-- Equal documents that are read at different places have schemas that are equal and have the same
hash, however nodes are told apart, if the documents of both sessions are unambiguous and every
reference is one that the documents make. -/
theorem readSchema_isTwin (ready : loader.IsReady) {document document' : Document}
    {baseUri baseUri' : Option String} {root root' : Location}
    (place : rootOf loader document.value baseUri = .ok root)
    (place' : rootOf loader document'.value baseUri' = .ok root')
    (agree : Agree contents loader [(document, root)])
    (agree' : Agree contents' loader [(document', root')])
    (equal : document.value.equals document'.value = true) {after after' : Session}
    (run : (readSchema loader document baseUri).run.run .empty = (.ok schema, after))
    (run' : (readSchema loader document' baseUri').run.run .empty = (.ok schema', after'))
    (unambiguous : Unambiguous (readSession loader document baseUri .empty).documents)
    (unambiguous' : Unambiguous (readSession loader document' baseUri' .empty).documents)
    (faithful : schema.IsFaithful document.value) (faithful' : schema'.IsFaithful document'.value)
    {α : Type} (hasher : Hasher α) (label : SchemaId → SchemaId) :
    schema.equals (schema'.relabel label) = .ok true ∧
      ∃ x, schema.hash hasher = .ok x ∧ (schema'.relabel label).hash hasher = .ok x := by
  obtain ⟨w, read, settled⟩ := exists_settled ready place agree run unambiguous
  obtain ⟨w', read', settled'⟩ := exists_settled ready place' agree' run' unambiguous'
  have agrees : document.value.Agrees document'.value :=
    ⟨(agree.requested _ (List.mem_singleton_self _)).2.1,
      (agree'.requested _ (List.mem_singleton_self _)).2.1, equal⟩
  have stands' := read'.stands
  rw [← draftOf_agree loader agrees] at stands'
  have corresponds : Correspond w w' root.documentUri root'.documentUri
      (draftOf loader document.value) schema schema' :=
    ⟨_, _, agrees, ⟨root, rfl, read.stands⟩, ⟨root', rfl, stands'⟩⟩
  have twin := corresponds.isTwin read settled read' settled' hasher label faithful faithful'
  exact ⟨twin.equal, twin.hash⟩

end Standing

/-! ## The list at two places -/

namespace Moved

/-- The list, with a bound. -/
def document : Document where
  id := ⟨1⟩
  value := .object [("properties", .object [("next", .object [("$ref", .string "#")])]),
    ("minimum", .number (.int 1))]

/-- The same with its members in another order, and with another spelling of the bound. -/
def reordered : Document where
  id := ⟨2⟩
  value := .object [("minimum", .number (.double (.finite false 4503599627370496 (-52)))),
    ("properties", .object [("next", .object [("$ref", .string "#")])])]

/-- Another place. -/
def root : Location where
  documentUri := "http://other.org/list.json"
  pointer := []
  scope := "http://other.org/list.json"
  idBase := "http://other.org/list.json"
  idPointer := []
  declaredId := none

/-- Whether a document is read at a place, without others, into a faithful schema. -/
def isRead (document : Document) (root : Location) : Bool :=
  match (reading Linked.loader (depthBound Linked.loader · document.value) document
    (some root.documentUri)).run.run .empty with
  | (.ok schema, session) => schema.isFaithfulWithin document.value 2 &&
      Members.keys session.documents = [root.documentUri]
  | _ => false

theorem agree (document : Document) (root : Location)
    (fixed : Location.root root.documentUri = .ok root) (proper : document.value.IsProper) :
    Agree (fun _ => document.value) Linked.loader [(document, root)] where
  requested := List.forall_mem_singleton.2 ⟨fixed, proper, rfl⟩
  preloaded := nofun
  delivered _ _ _ served _ := nomatch served

/-- What is read in such a way meets the conditions for being the same elsewhere. -/
theorem exists_read {document : Document} {root : Location} (holds : isRead document root = true)
    (place : rootOf Linked.loader document.value (some root.documentUri) = .ok root)
    (agree : Agree (fun _ => document.value) Linked.loader [(document, root)])
    (normal : Uri.IsNormal root.documentUri)
    (unnamed : ∀ draft ∈ Draft.all, document.value.isUnnamed draft.idKey = true) :
    ∃ schema after,
      (readSchema Linked.loader document (some root.documentUri)).run.run .empty =
        (.ok schema, after) ∧
      Unambiguous
        (readSession Linked.loader document (some root.documentUri) .empty).documents ∧
      schema.IsFaithful document.value := by
  unfold isRead at holds
  split at holds
  · next schema session whole =>
    obtain ⟨faithful, keys⟩ := Bool.and_eq_true_iff.1 holds
    have run := readSchema_eq Linked.loader document (some root.documentUri) .empty
    dsimp only at run
    rw [whole] at run
    refine ⟨schema, _, run, ?_, Schema.isFaithful_of_within faithful⟩
    obtain ⟨w, same, _⟩ := exists_hasRead Linked.isReady agree place run
    rw [← same]
    refine (areUnnamed_of_keys (w := w) ?_ normal unnamed).unambiguous w.sound
    have at_session : w.session = session := by
      rw [same]
      unfold readSession
      rw [whole]
    have keys := of_decide_eq_true keys
    rw [← at_session] at keys
    exact keys
  · cases holds

end Moved

/-- A hash that counts the characters of all texts. -/
def Hasher.characters : Hasher Nat where
  nothing := 0
  number _ := 0
  text text := text.toList.length
  bytes text := text.toList.length
  type _ := 0
  kind _ := 0
  tuple := List.sum
  set := List.sum
  number_congr _ := rfl
  set_congr perm := perm.sum_nat

/-- The list and its other spelling have schemas that are equal and have the same hash. -/
theorem moved_isTwin : ∃ schema after schema' after',
    (readSchema Linked.loader Moved.document (some Linked.root.documentUri)).run.run .empty =
      (.ok schema, after) ∧
    (readSchema Linked.loader Moved.reordered (some Moved.root.documentUri)).run.run .empty =
      (.ok schema', after') ∧
    schema.equals (schema'.relabel fun id => ⟨id.index + 1⟩) = .ok true ∧
    ∃ x, schema.hash Hasher.characters = .ok x ∧
      (schema'.relabel fun id => ⟨id.index + 1⟩).hash Hasher.characters = .ok x := by
  have place : rootOf Linked.loader Moved.document.value (some Linked.root.documentUri) =
      .ok Linked.root := by
    decide +kernel
  have place' : rootOf Linked.loader Moved.reordered.value (some Moved.root.documentUri) =
      .ok Moved.root := by
    decide +kernel
  have agree := Moved.agree Moved.document Linked.root (by decide +kernel)
    ⟨by decide, ⟨⟨by decide, ⟨⟨by decide, trivial, trivial⟩, trivial⟩⟩, trivial, trivial⟩⟩
  have agree' := Moved.agree Moved.reordered Moved.root (by decide +kernel)
    ⟨by decide, trivial, ⟨⟨by decide, ⟨⟨by decide, trivial, trivial⟩, trivial⟩⟩, trivial⟩⟩
  obtain ⟨schema, after, run, unambiguous, faithful⟩ :=
    Moved.exists_read (by decide +kernel) place agree (by decide +kernel) (by decide +kernel)
  obtain ⟨schema', after', run', unambiguous', faithful'⟩ :=
    Moved.exists_read (by decide +kernel) place' agree' (by decide +kernel) (by decide +kernel)
  exact ⟨schema, after, schema', after', run, run',
    readSchema_isTwin Linked.isReady place place' agree agree' (by decide +kernel) run run'
      unambiguous unambiguous' faithful faithful' _ _⟩

namespace Looped

/-- A document that has a reference into a part which refers back to the object around it. -/
def document : Document where
  id := ⟨1⟩
  value := .object [("contains", .object [("$ref", .string "#/not/not")]),
    ("not", .object [("not", .object [("$ref", .string "#/not")])])]

/-- The hash of the schema that is read at a place. -/
def hash? (root : Location) : Option Nat :=
  ((readSchema Linked.loader document (some root.documentUri)).run.run .empty).1.toOption.bind
    fun schema => (schema.hash Hasher.characters).toOption

theorem exists_hash {root : Location} {x : Nat} (found : hash? root = some x) :
    ∃ schema after, (readSchema Linked.loader document (some root.documentUri)).run.run .empty =
      (.ok schema, after) ∧ schema.hash Hasher.characters = .ok x := by
  obtain ⟨schema, read, hash⟩ := Option.bind_eq_some_iff.1 found
  exact ⟨schema, _, Prod.ext (toOption_ok read) rfl, toOption_ok hash⟩

end Looped

/-- Where the part that a property leads to is loaded before the definition around it, this definition
gets a reference that says its place. So the schemas at two places have different hashes. -/
theorem looped_differs : ∃ schema after schema' after' x y,
    (readSchema Linked.loader Looped.document (some Linked.root.documentUri)).run.run .empty =
      (.ok schema, after) ∧
    (readSchema Linked.loader Looped.document (some Moved.root.documentUri)).run.run .empty =
      (.ok schema', after') ∧
    schema.hash Hasher.characters = .ok x ∧ schema'.hash Hasher.characters = .ok y ∧ x ≠ y := by
  have here : Looped.hash? Linked.root = some 62 := by decide +kernel
  have there : Looped.hash? Moved.root = some 66 := by decide +kernel
  obtain ⟨schema, after, run, hash⟩ := Looped.exists_hash here
  obtain ⟨schema', after', run', hash'⟩ := Looped.exists_hash there
  exact ⟨schema, after, schema', after', _, _, run, run', hash, hash', by decide⟩

end Load

end JsonSchema
