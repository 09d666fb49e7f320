import JsonSchema.Proofs.Evaluation
import JsonSchema.Proofs.Inlining
import JsonSchema.Proofs.Orderly
import JsonSchema.Proofs.Within

/-!
# References stand for their targets

A document in which a copy of the value that a reference leads to stands in the place of this
reference accepts the same values (`Load.inlined_isValid_eq`). Both documents are read in sessions of
their own, so the schemas of the two are related by their places (`Load.Counterparts`): schemas for
the same place are counterparts, and so are the schemas for a part of the copy and for this part of
what was copied.

What is needed of a document is that it has no identifiers (`Load.Track.Keeps`), since then its
schemas stand for its places alone. Counterparts come to alike schemas by the case of the place
(`Load.couples`): values without the reference are the same on both sides (`Load.meet_same`), the
reference meets the copy in its place one step further (`Load.meet_copied`), and above it the members
match (`Load.meet_above`). Flags are the exception, as they are read off a schema and not passed on
by a reference, so none may be set (`Load.flags`).

Validation settles the values of both documents if nothing that is judged leads back to its owner at
the same value. In a document without `oneOf` and `not` nothing does (`Load.Track.not_judged`).
-/

namespace JsonSchema

open Schema (PointsTo)

/-! ## Verdicts of coupled schemas -/

section Verdicts

variable {compiler : Compiler} {graph graph' : SchemaGraph} {rel : Schema → Schema → Prop}
  {member member' : Schema → Prop} {schema schema' : Schema} {v : Json}

/-- Coupled schemas that were compiled give the same verdicts. -/
theorem Schema.AreCoupled.isValid_eq (coupled : Schema.AreCoupled graph graph' rel)
    (orderly : Orderly graph member) (orderly' : Orderly graph' member')
    (stratified : ∀ owner inner, member owner → owner.Uses graph .judged inner →
      ¬ inner.Stays graph owner)
    (stratified' : ∀ owner inner, member' owner → owner.Uses graph' .judged inner →
      ¬ inner.Stays graph' owner)
    (total : compiler.IsTotal) (owned : member schema) (owned' : member' schema')
    (related : rel schema schema') {compiled compiled' : CompiledSchema}
    (ok : CompiledSchema.ofSchema compiler graph schema = .ok compiled)
    (ok' : CompiledSchema.ofSchema compiler graph' schema' = .ok compiled')
    (proper : v.IsProper) (comparable : v.IsComparable member)
    (comparable' : v.IsComparable member') :
    ∃ b, compiled.isValid v = .ok b ∧ compiled'.isValid v = .ok b := by
  obtain ⟨stands, found, represents⟩ :=
    CompiledSchema.ofSchema_represents orderly total owned ok
  obtain ⟨stands', found', represents'⟩ :=
    CompiledSchema.ofSchema_represents orderly' total owned' ok'
  have same : schema.Accepts compiler graph [] v ↔ schema'.Accepts compiler graph' [] v := by
    refine coupled.accepts_iff represents.areClosed represents'.areClosed ?_ ?_ proper related
      (.inl (List.mem_of_getElem? found)) (.inl (List.mem_of_getElem? found'))
    · exact fun owner mem inner => stratified owner inner (represents.members owner mem)
    · exact fun owner mem inner => stratified' owner inner (represents'.members owner mem)
  obtain ⟨b, valid, iff⟩ :=
    isValid_of_settles (evaluate_settles represents found proper comparable)
  obtain ⟨b', valid', iff'⟩ :=
    isValid_of_settles (evaluate_settles represents' found' proper comparable')
  have equal : b = b' := by
    rw [Bool.eq_iff_iff, iff, iff', same]
  exact ⟨b, valid, by rw [valid', equal]⟩

end Verdicts

namespace Json

/-- Whether no object in a value has a keyword that judges schemas. -/
def judgesNothing (value : Json) : Bool :=
  value.ways.all fun way =>
    match Pointer.resolve value way with
    | .ok (.object members) =>
      members.all fun member => member.1 ≠ Builtin.oneOf.key && member.1 ≠ Builtin.not.key
    | _ => true

theorem ne_of_judgesNothing {value : Json} (nothing : value.judgesNothing = true)
    {pointer : Pointer} {members : List (String × Json)}
    (found : Pointer.resolve value pointer = .ok (.object members)) :
    ∀ member ∈ members, member.1 ≠ Builtin.oneOf.key ∧ member.1 ≠ Builtin.not.key := by
  have listed := Pointer.ways_resolve found (nil_mem_ways _)
  rw [List.append_nil] at listed
  have here := List.all_eq_true.1 nothing pointer listed
  rw [found] at here
  simpa using here

end Json

namespace Load

/-! ## Documents without identifiers -/

variable {contents : String → Json} {w : Track contents} {uri : String} {document value : Json}
  {draft : Draft} {pointer : Pointer} {schema : Schema} {members : List (String × Json)}

/-- A session without errors over documents without identifiers, in which a document is kept. -/
structure Track.Keeps (w : Track contents) (uri : String) (document : Json) (draft : Draft) :
    Prop where
  settled : w.IsSettled
  unnamed : AreUnnamed w.documents
  known : ∃ stored, w.documents.lookup uri = some stored ∧ stored.document.value = document ∧
    stored.draft = draft

namespace Track.Keeps

variable (keeps : w.Keeps uri document draft)

include keeps

theorem resolve {draft' : Draft}
    (arrives : Arrives w.documents (.ofPlace uri pointer) value draft') :
    Pointer.resolve document pointer = .ok value ∧ draft' = draft := by
  obtain ⟨stored, known, rfl, rfl⟩ := keeps.known
  obtain ⟨_, _, stored', known', rfl, found⟩ := arrives.comes.found w.sound
  change w.documents.lookup uri = some stored' at known'
  rw [known] at known'
  cases known'
  exact ⟨found, rfl⟩

theorem distinct (arrives : Arrives w.documents (.ofPlace uri pointer) (.object members) draft) :
    (Members.keys members).Nodup := by
  obtain ⟨stored, known, rfl, _⟩ := keeps.known
  have proper : stored.document.value.IsProper := w.sound.values _ _ known
  exact (Pointer.isProper_resolve (keeps.resolve arrives).1 proper).1

theorem eq_ofPlace {location : Location} {draft' : Draft}
    (arrives : Arrives w.documents location value draft')
    (place : location.place = (uri, pointer)) :
    location = .ofPlace uri pointer := by
  obtain ⟨document, way⟩ := Prod.mk.inj place
  rw [arrives.comes.eq_ofPlace w.sound keeps.unnamed, document, way]

/-- What stands for an object comes to the schema that was built for it. -/
theorem exists_node (stands : Stands w (.ofPlace uri pointer) (.object members) draft schema) :
    ∃ node, Relation.ReflTransGen (PointsTo w.session.graph) schema node ∧
      Arrives w.documents (.ofPlace uri pointer) (.object members) draft ∧
      Built w.stock (.ofPlace uri pointer) members draft node := by
  obtain ⟨node, location, place, stands', built, which⟩ := stands.exists_built keeps.settled
  cases keeps.eq_ofPlace stands'.arrives place
  refine ⟨node, ?_, stands'.arrives, built⟩
  rcases which with rfl | ⟨id, ⟨_, _, _, back⟩, bound⟩
  · exact .refl
  · exact .single ⟨_, _, _, _, _, _, back, bound⟩

/-- An object that is no reference holds schemas for its parts. -/
theorem reads {node : Schema}
    (arrives : Arrives w.documents (.ofPlace uri pointer) (.object members) draft)
    (built : Built w.stock (.ofPlace uri pointer) members draft node)
    (plain : members.lookup Builtin.ref.key = none) :
    Reads (fun way part schema => Stands w (.ofPlace uri (pointer ++ way)) part draft schema)
      draft members node.keywords := by
  have reads := built.reads arrives plain
  rw [arrives.comes.named_eq w.sound keeps.unnamed] at reads
  exact reads

/-- A reference by fragment points to a schema for the value in the document that it leads to. -/
theorem points {node : Schema} {fragment : String}
    (built : Built w.stock (.ofPlace uri pointer) members draft node)
    (found : members.lookup Builtin.ref.key = some (.string ("#" ++ fragment)))
    (way : Cache.isPointerFragment fragment = true) :
    ∃ pointer' value' target, Pointer.parseFragment fragment = .ok pointer' ∧
      Pointer.resolve document pointer' = .ok value' ∧ node.PointsTo w.session.graph target ∧
      Stands w (.ofPlace uri pointer') value' draft target := by
  obtain ⟨text, full, key, place, target, location, value', draft', string, resolved, keyed, names,
    points, same, stands, _⟩ := built.points keeps.settled found
  cases string
  have known : (w.documents.lookup uri).isSome := by
    obtain ⟨stored, known, _⟩ := keeps.known
    rw [known]
    rfl
  obtain ⟨pointer', parsed, rfl⟩ :=
    keeps.settled.unambiguous.fragment_within known way resolved keyed names
  cases keeps.eq_ofPlace stands.arrives same
  obtain ⟨resolves, rfl⟩ := keeps.resolve stands.arrives
  exact ⟨pointer', value', target, parsed, resolves, points, stands⟩

end Track.Keeps

/-! ## Flags -/

/-- What was loaded for `required` is its value, if this is a flag. -/
theorem ReadsValue.required {sub : Sub} {flag : Json}
    (reads : ReadsValue sub Builtin.required (Builtin.required.variantFor draft).kind draft value
      (.literal .boolean flag)) : flag = value ∧ value.shape? = some .boolean := by
  have digests : digested Builtin.required (Builtin.required.variantFor draft).kind value draft =
      .ok (.literal .boolean flag) := by
    cases draft <;> exact reads
  have kind : (Builtin.required.variantFor draft).kind ≠ .type := by
    cases draft <;> decide
  unfold digested at digests
  rw [if_neg kind, if_pos rfl] at digests
  unfold Digest.required at digests
  split at digests
  · cases digests
    exact ⟨rfl, rfl⟩
  · obtain ⟨names, _, same⟩ := except_bind_ok digests
    cases same

/-- Only an object of draft 3 that says that it is required has a schema with this flag. -/
theorem Reads.flagged {sub : Sub} {keywords : List (Keyword × KeywordValue)} {flag : Json}
    (reads : Reads sub draft members keywords)
    (mem : (Builtin.required, .literal .boolean flag) ∈ keywords) (truthy : flag.isTruthy = true) :
    draft = .draft3 ∧ (Builtin.required.key, .bool true) ∈ members := by
  have limit : ∀ {bound exclusive : Keyword},
      (Builtin.required, .literal .boolean flag) ∉ limitEntries draft members bound exclusive := by
    intro bound exclusive mem
    unfold limitEntries at mem
    split at mem
    · cases List.mem_singleton.1 mem
    · cases mem
  rcases reads.cases mem with ⟨json, member, plain, _, _, read⟩ | mem | mem | ⟨items, rest, mem⟩
  · obtain ⟨rfl, shape⟩ := ReadsValue.required read
    have known : isKeyword draft Builtin.required.key = true := by
      cases draft <;> decide
    obtain ⟨keyword, shape', found, here, expected⟩ := reads.1 _ member known
    rw [(Option.filter_eq_some_iff.1 plain).1] at found
    cases found
    rw [shape] at here
    cases here
    refine ⟨?_, ?_⟩
    · cases draft with
      | draft3 => rfl
      | _ => exact absurd expected (by decide)
    · cases flag with
      | bool b =>
        have yes : b = true := truthy
        rw [← yes]
        exact member
      | _ => cases shape
  · exact absurd mem limit
  · exact absurd mem limit
  · unfold ReadsItems at rest
    dsimp only at rest
    split at rest
    · rw [rest] at mem
      cases mem
    · obtain ⟨form, more, rfl, _⟩ := rest
      have other : Builtin.required ≠ Builtin.items := by decide
      exact absurd (congrArg Prod.fst (List.mem_singleton.1 mem)) other

theorem not_flagged_ofBool (b : Bool) : ¬ (Schema.ofBool b).IsFlagged := by
  rintro ⟨flag, found, _⟩
  have mem := Members.mem_of_lookup found
  cases b with
  | true => cases mem
  | false =>
    have other : Builtin.required ≠ Builtin.not := by decide
    exact other (congrArg Prod.fst (List.mem_singleton.1 mem))

theorem not_flagged_ref {ref uri : String} {id : HandleId}
    (keywords : schema.keywords = [(Builtin.ref, .reference ref uri id)]) : ¬ schema.IsFlagged := by
  rintro ⟨flag, found, _⟩
  have mem := Members.mem_of_lookup found
  rw [keywords] at mem
  have other : Builtin.required ≠ Builtin.ref := by decide
  exact other (congrArg Prod.fst (List.mem_singleton.1 mem))

/-- A schema is flagged only for an object of draft 3 that says that it is required. -/
theorem Stands.not_flagged (settled : w.IsSettled) {location : Location}
    (stands : Stands w location value draft schema)
    (unflagged : draft = .draft3 → ∀ members, value = .object members →
      members.lookup Builtin.ref.key = none →
      members.lookup Builtin.required.key ≠ some (.bool true)) : ¬ schema.IsFlagged := by
  rcases stands.cases with ⟨b, rfl, rfl⟩ | ⟨members, rfl⟩
  · exact not_flagged_ofBool b
  · obtain ⟨node, location', _, stands', built, rfl | ⟨id, ⟨_, _, _, rfl⟩, _⟩⟩ :=
      stands.exists_built settled
    · cases plain : members.lookup Builtin.ref.key with
      | none =>
        rintro ⟨flag, found, truthy⟩
        have reads := built.reads stands'.arrives plain
        obtain ⟨draft3, mem⟩ := reads.flagged (Members.mem_of_lookup found) truthy
        obtain ⟨_, _, stored, known, _, resolved⟩ := stands'.arrives.comes.found w.sound
        have proper := Pointer.isProper_resolve resolved (w.sound.values _ _ known)
        exact unflagged draft3 members rfl plain (Members.lookup_of_mem proper.1 mem)
      | some ref =>
        obtain ⟨_, _, rfl, content⟩ := built
        rw [plain] at content
        obtain ⟨_, _, _, _, _, keywords, _⟩ := content
        exact not_flagged_ref keywords
    · exact not_flagged_ref rfl

theorem Stands.isSchema {location : Location} (stands : Stands w location value draft schema) :
    IsSchema value := by
  rcases stands.cases with ⟨b, rfl, _⟩ | ⟨members, rfl⟩ <;> trivial

/-! ## Counterparts -/

variable {contents' : String → Json} {w' : Track contents'} {copied inner inner' : Json}
  {spot target pointer' : Pointer} {schema' node node' : Schema} {members' : List (String × Json)}

/-- Two schemas stand for paired places of a document and its copy, or for the same truth value. -/
inductive Counterparts (w : Track contents) (w' : Track contents') (uri : String) (document : Json)
    (draft : Draft) (spot target : Pointer) : Schema → Schema → Prop
  | truth (b : Bool) : Counterparts w w' uri document draft spot target (.ofBool b) (.ofBool b)
  | placed {pointer pointer' : Pointer} {value value' : Json} {schema schema' : Schema}
    (pairs : Pairs spot target pointer pointer') (visits : Visits draft document pointer value)
    (stands : Stands w (.ofPlace uri pointer) value draft schema)
    (stands' : Stands w' (.ofPlace uri pointer') value' draft schema') :
    Counterparts w w' uri document draft spot target schema schema'

/-- Following the references of two schemas comes to alike ones, or further on both sides to
related ones. -/
def Meet (graph graph' : SchemaGraph) (rel : Schema → Schema → Prop) (schema schema' : Schema) :
    Prop :=
  (∃ last last', Relation.ReflTransGen (PointsTo graph) schema last ∧
    Relation.ReflTransGen (PointsTo graph') schema' last' ∧ last.Alike rel last') ∨
  ∃ next next', Relation.TransGen (PointsTo graph) schema next ∧
    Relation.TransGen (PointsTo graph') schema' next' ∧ rel next next'

theorem Meet.from {graph graph' : SchemaGraph} {rel : Schema → Schema → Prop}
    {first schema schema' : Schema}
    (chain : Relation.ReflTransGen (PointsTo graph) first schema)
    (meet : Meet graph graph' rel schema schema') : Meet graph graph' rel first schema' := by
  rcases meet with ⟨last, last', way, way', alike⟩ | ⟨next, next', way, way', related⟩
  · exact .inl ⟨last, last', chain.trans way, way', alike⟩
  · exact .inr ⟨next, next', Relation.TransGen.trans_right chain way, way', related⟩

theorem alike_ofBool {rel : Schema → Schema → Prop} (truth : ∀ b, rel (.ofBool b) (.ofBool b))
    (b : Bool) : (Schema.ofBool b).Alike rel (.ofBool b) := by
  refine ⟨?_, ?_, fun _ _ => Iff.rfl⟩
  all_goals
    intro keyword value mem
    cases b with
    | true => cases mem
    | false =>
      cases List.mem_singleton.1 mem
      exact ⟨_, List.mem_singleton_self _, truth true⟩

section Coupling

variable (inlines : Inlines draft document copied spot target value)
  (keeps : w.Keeps uri document draft) (keeps' : w'.Keeps uri copied draft)

include keeps keeps'

/-- Objects with matching members that are no references have alike schemas. -/
theorem meet_plain (pairs : Pairs spot target pointer pointer')
    (visits : Visits draft document pointer (.object members))
    (stands : Stands w (.ofPlace uri pointer) (.object members) draft schema)
    (stands' : Stands w' (.ofPlace uri pointer') (.object members') draft schema')
    (plain : members.lookup Builtin.ref.key = none)
    (plain' : members'.lookup Builtin.ref.key = none)
    (same : MatchMembers draft members members') :
    Meet w.session.graph w'.session.graph (Counterparts w w' uri document draft spot target)
      schema schema' := by
  obtain ⟨node, chain, arrives, built⟩ := keeps.exists_node stands
  obtain ⟨node', chain', arrives', built'⟩ := keeps'.exists_node stands'
  refine .inl ⟨node, node', chain, chain', Reads.alike ?_ same (keeps.distinct arrives)
    (keeps'.distinct arrives') (keeps.reads arrives built plain).within
    (keeps'.reads arrives' built' plain')⟩
  intro way part part' inner inner' below below'
  exact .placed (pairs.append way) (visits.part plain below.1) below.2 below'

/-- References with the same text point to counterparts. -/
theorem meet_refs {fragment : String} (visits : Visits draft document pointer (.object members))
    (stands : Stands w (.ofPlace uri pointer) (.object members) draft schema)
    (stands' : Stands w' (.ofPlace uri pointer') (.object members') draft schema')
    (found : members.lookup Builtin.ref.key = some (.string ("#" ++ fragment)))
    (found' : members'.lookup Builtin.ref.key = some (.string ("#" ++ fragment)))
    (way : Cache.isPointerFragment fragment = true) :
    Meet w.session.graph w'.session.graph (Counterparts w w' uri document draft spot target)
      schema schema' := by
  obtain ⟨node, chain, _, built⟩ := keeps.exists_node stands
  obtain ⟨node', chain', _, built'⟩ := keeps'.exists_node stands'
  obtain ⟨there, value, next, parsed, resolved, points, stands⟩ := keeps.points built found way
  obtain ⟨there', _, next', parsed', _, points', stands'⟩ := keeps'.points built' found' way
  rw [parsed] at parsed'
  cases parsed'
  exact .inr ⟨next, next', .tail' chain points, .tail' chain' points',
    .placed (.same there) (visits.referred found parsed resolved) stands stands'⟩

include inlines

/-- Schemas for the same value at paired places meet. -/
theorem meet_same (pairs : Pairs spot target pointer pointer')
    (visits : Visits draft document pointer inner)
    (stands : Stands w (.ofPlace uri pointer) inner draft schema)
    (stands' : Stands w' (.ofPlace uri pointer') inner draft schema') :
    Meet w.session.graph w'.session.graph (Counterparts w w' uri document draft spot target)
      schema schema' := by
  rcases stands.cases with ⟨b, rfl, rfl⟩ | ⟨members, rfl⟩
  · have same : schema' = .ofBool b := stands'.loaded.2
    rw [same]
    exact .inl ⟨_, _, .refl, .refl, alike_ofBool .truth b⟩
  · cases found : members.lookup Builtin.ref.key with
    | none =>
      exact meet_plain keeps keeps' pairs visits stands stands' found found (.refl draft members)
    | some ref =>
      obtain ⟨fragment, rfl, way⟩ := inlines.fragments pointer members ref visits found
      exact meet_refs keeps keeps' visits stands stands' found found way

/-- The reference that was replaced meets the copy. -/
theorem meet_copied (visits : Visits draft document spot inner)
    (stands : Stands w (.ofPlace uri spot) inner draft schema)
    (stands' : Stands w' (.ofPlace uri spot) value draft schema') :
    Meet w.session.graph w'.session.graph (Counterparts w w' uri document draft spot target)
      schema schema' := by
  obtain ⟨fragment, way, parsed, reference⟩ := inlines.reference
  rw [visits.resolve inlines.proper] at reference
  cases reference
  have found : List.lookup Builtin.ref.key [(Builtin.ref.key, Json.string ("#" ++ fragment))] =
      some (.string ("#" ++ fragment)) := List.lookup_cons_self
  obtain ⟨node, chain, _, built⟩ := keeps.exists_node stands
  obtain ⟨there, original, next, parsed', resolved, points, below⟩ := keeps.points built found way
  rw [parsed] at parsed'
  cases parsed'
  rw [inlines.found] at resolved
  cases resolved
  have pairs : Pairs spot target (target ++ []) (spot ++ []) := .copied []
  rw [List.append_nil, List.append_nil] at pairs
  exact (meet_same inlines keeps keeps' pairs (visits.referred found parsed inlines.found) below
    stands').from (chain.tail points)

/-- Above the reference an object meets the one with the copy in it. -/
theorem meet_above {segment : String} {rest : Pointer} (above : spot = pointer ++ segment :: rest)
    (visits : Visits draft document pointer (.object members))
    (stands : Stands w (.ofPlace uri pointer) (.object members) draft schema)
    (stands' : Stands w' (.ofPlace uri pointer) (value.setAt (.object members) (segment :: rest))
      draft schema') :
    Meet w.session.graph w'.session.graph (Counterparts w w' uri document draft spot target)
      schema schema' := by
  cases found : members.lookup Builtin.ref.key with
  | none =>
    obtain ⟨members', same, plain', matching⟩ := inlines.exists_matching visits found above
    rw [same] at stands'
    exact meet_plain keeps keeps' (.same pointer) visits stands stands' found plain' matching
  | some ref =>
    obtain ⟨fragment, rfl, way⟩ := inlines.fragments pointer members ref visits found
    refine meet_refs keeps keeps' visits stands stands' found ?_ way
    have other : Builtin.ref.key ≠ segment := by
      rintro rfl
      obtain ⟨_, _, _, reference⟩ := inlines.reference
      rw [above] at reference
      have behind := Pointer.resolveFrom_behind (visits.resolve inlines.proper) reference
      rw [Pointer.resolveFrom, Pointer.step_member found] at behind
      cases rest with
      | nil => cases behind
      | cons => cases behind
    rw [Members.lookup_adjust, found, Option.map_some, if_neg other]

/-- Counterparts meet. -/
theorem couples : Couples w.session.graph w'.session.graph
    (Counterparts w w' uri document draft spot target)
    (Schema.Alike (Counterparts w w' uri document draft spot target)) := by
  intro schema schema' related
  cases related with
  | truth b => exact .inl ⟨_, _, .refl, .refl, alike_ofBool .truth b⟩
  | @placed pointer pointer' inner inner' _ _ pairs visits stands stands' =>
    have resolved := (keeps'.resolve stands'.arrives).1
    rcases inlines.values pairs stands.isSchema (visits.resolve inlines.proper) resolved with
      rfl | ⟨rest, rfl, above, rfl⟩
    · exact meet_same inlines keeps keeps' pairs visits stands stands'
    · cases rest with
      | nil =>
        rw [List.append_nil] at above
        subst above
        exact meet_copied inlines keeps keeps' visits stands stands'
      | cons segment rest =>
        rcases stands.cases with ⟨b, rfl, _⟩ | ⟨members, rfl⟩
        · exact meet_same inlines keeps keeps' pairs visits stands stands'
        · exact meet_above inlines keeps keeps' above visits stands stands'

/-- No counterpart is flagged. -/
theorem flags (related : Counterparts w w' uri document draft spot target schema schema') :
    ¬ schema.IsFlagged ∧ ¬ schema'.IsFlagged := by
  cases related with
  | truth b => exact ⟨not_flagged_ofBool b, not_flagged_ofBool b⟩
  | @placed pointer pointer' inner inner' _ _ pairs visits stands stands' =>
    refine ⟨stands.not_flagged keeps.settled ?_, stands'.not_flagged keeps'.settled ?_⟩
    · rintro draft3 members rfl
      exact inlines.unflagged draft3 pointer members visits
    · rintro draft3 members' rfl plain'
      have resolved := (keeps'.resolve stands'.arrives).1
      exact inlines.unflagged_copied draft3 pairs visits stands.isSchema resolved plain'

theorem areCoupled : Schema.AreCoupled w.session.graph w'.session.graph
    (Counterparts w w' uri document draft spot target) where
  couples := couples inlines keeps keeps'
  flags _ _ related :=
    have none := flags inlines keeps keeps' related
    iff_of_false none.1 none.2

end Coupling

/-! ## Whole sessions -/

section Sessions

variable {loader : Loader} {original : Document} {root : Location} {baseUri : Option String}

/-- A document without identifiers that was read is kept, and a schema stands for its root. -/
theorem exists_keeps (ready : loader.IsReady) (agree : Agree contents loader [(original, root)])
    (place : rootOf loader original.value baseUri = .ok root) {after : Session}
    (run : (readSchema loader original baseUri).run.run .empty = (.ok schema, after))
    (unnamed : AreUnnamed (readSession loader original baseUri .empty).documents) :
    ∃ w : Track contents, w.session.graph = after.graph ∧
      w.Keeps root.documentUri original.value (draftOf loader original.value) ∧
      Stands w (.ofPlace root.documentUri []) original.value (draftOf loader original.value)
        schema := by
  obtain ⟨w, same, graph, read⟩ := exists_hasRead ready agree place run
  obtain ⟨start, proper, _⟩ := agree.requested _ (List.mem_singleton_self _)
  rw [← same] at unnamed
  have settled : w.IsSettled := by
    refine ⟨read.clean, unnamed.unambiguous w.sound, ?_⟩
    rw [graph]
    exact isBound_readSchema ready proper run
  refine ⟨w, graph, ⟨settled, unnamed, read.known⟩, ?_⟩
  have here := read.stands.arrives.comes.eq_ofPlace w.sound unnamed
  obtain ⟨_, _, pointer, _⟩ := isFormed_root start
  rw [pointer] at here
  exact here ▸ read.stands

/-- A reference by fragment stands for its target: with a copy of the value that it leads to in its
place, the document accepts the same values. This is said of documents without identifiers, whose
references are pointers in fragments, if the place is one of a schema for all that loading comes to,
and if no schema of draft 3 says that it is required, which a reference does not pass on, and of values
whose numbers compare with the bounds of the schemas. -/
theorem inlined_isValid_eq (ready : loader.IsReady) {replaced : Document}
    (agree : Agree contents loader [(original, root)])
    (agree' : Agree contents' loader [(replaced, root)])
    (place : rootOf loader original.value baseUri = .ok root)
    (place' : rootOf loader replaced.value baseUri = .ok root)
    (inlines : Inlines (draftOf loader original.value) original.value replaced.value spot target
      value)
    {after after' : Session}
    (run : (readSchema loader original baseUri).run.run .empty = (.ok schema, after))
    (run' : (readSchema loader replaced baseUri).run.run .empty = (.ok schema', after'))
    (unnamed : AreUnnamed (readSession loader original baseUri .empty).documents)
    (unnamed' : AreUnnamed (readSession loader replaced baseUri .empty).documents)
    (stratified : ∀ owner inner, schema.Reaches after.graph owner →
      owner.Uses after.graph .judged inner → ¬ inner.Stays after.graph owner)
    (stratified' : ∀ owner inner, schema'.Reaches after'.graph owner →
      owner.Uses after'.graph .judged inner → ¬ inner.Stays after'.graph owner)
    {compiler : Compiler} (total : compiler.IsTotal) {compiled compiled' : CompiledSchema}
    (ok : CompiledSchema.ofSchema compiler after.graph schema = .ok compiled)
    (ok' : CompiledSchema.ofSchema compiler after'.graph schema' = .ok compiled')
    {v : Json} (proper : v.IsProper) (comparable : v.IsComparable (schema.Reaches after.graph))
    (comparable' : v.IsComparable (schema'.Reaches after'.graph)) :
    ∃ b, compiled.isValid v = .ok b ∧ compiled'.isValid v = .ok b := by
  obtain ⟨w, graph, keeps, stands⟩ := exists_keeps ready agree place run unnamed
  obtain ⟨w', graph', keeps', stands'⟩ := exists_keeps ready agree' place' run' unnamed'
  rw [inlines.draftOf_eq] at keeps' stands'
  rw [← graph] at stratified ok comparable
  rw [← graph'] at stratified' ok' comparable'
  exact (areCoupled inlines keeps keeps').isValid_eq
    (Track.orderly_reached keeps.settled.clean stands.made)
    (Track.orderly_reached keeps'.settled.clean stands'.made) stratified stratified' total .refl
    .refl (.placed (.same []) .root stands stands') ok ok' proper comparable comparable'

end Sessions

/-! ## Judged schemas -/

/-- Only a list of alternatives or a negation judges a schema. -/
theorem judged_uses {graph : SchemaGraph} {assertion : Assertion} {value : KeywordValue}
    (mem : (Use.judged, schema) ∈ Meaning.uses graph assertion value) :
    (assertion = .oneOf ∧ ∃ schemas, value = .schemaList schemas) ∨
      assertion = .not ∧ value = .schema schema := by
  unfold Meaning.uses at mem
  split at mem
  case h_4 schemas => exact .inl ⟨rfl, schemas, rfl⟩
  case h_5 inner =>
    cases List.mem_singleton.1 mem
    exact .inr ⟨rfl, rfl⟩
  all_goals first
    | exact absurd mem List.not_mem_nil
    | (cases List.mem_singleton.1 mem)
    | (obtain ⟨_, _, same⟩ := List.mem_map.1 mem
       cases same)

/-- Nothing is judged if no document has an object with a keyword that judges, and nothing that is
judged at a value leads back to its owner there. -/
theorem Track.not_judged (clean : w.stock.IsClean)
    (nothing : ∀ uri stored, w.documents.lookup uri = some stored →
      stored.document.value.judgesNothing = true)
    {owner : Schema} (made : w.stock.Made owner)
    (used : owner.Uses w.session.graph .judged schema) : ¬ schema.Stays w.session.graph owner := by
  obtain ⟨keyword, assertion, value, ⟨mem, known⟩, listed⟩ := used
  have key : keyword.key = Builtin.oneOf.key ∨ keyword.key = Builtin.not.key := by
    have all : ∀ assertion : Assertion, assertion = .oneOf ∨ assertion = .not →
        assertion.keyword.key = Builtin.oneOf.key ∨ assertion.keyword.key = Builtin.not.key := by
      rintro assertion (rfl | rfl) <;> decide
    have same : assertion.keyword.key = keyword.key := by
      simpa using List.find?_some known
    rw [← same]
    exact all assertion ((judged_uses listed).imp And.left And.left)
  have ref : ∀ {ref uri id}, owner.keywords = [(Builtin.ref, .reference ref uri id)] → False := by
    intro ref uri id same
    rw [same] at mem
    cases List.mem_singleton.1 mem
    exact absurd key (by decide)
  rcases cases_made clean made with rfl | rfl | ⟨location, members, draft, arrives, node⟩
  · cases mem
  · cases List.mem_singleton.1 mem
    have always := (judged_uses listed).resolve_left (fun other => nomatch other.2)
    cases always.2
    intro stays
    cases Schema.eq_of_stays_valid rfl stays
  · have shape : (∃ schemas, value = .schemaList schemas) ∨ value = .schema schema :=
      (judged_uses listed).imp And.right And.right
    have limit : ∀ {bound exclusive},
        (keyword, value) ∉ limitEntries draft members bound exclusive := by
      intro bound exclusive mem
      unfold limitEntries at mem
      split at mem
      · cases List.mem_singleton.1 mem
        rcases shape with ⟨schemas, same⟩ | same <;> cases same
      · cases mem
    rcases node with ⟨id, node, _, _, rfl⟩ | ⟨node, keywords, rfl, built⟩
    · exact (ref rfl).elim
    · split at built
      · obtain ⟨_, _, _, _, _, rfl, _⟩ := built
        exact (ref rfl).elim
      · rcases built.2.cases mem with ⟨json, member, _⟩ | mem | mem | ⟨items, rest, mem⟩
        · obtain ⟨_, _, stored, known, _, found⟩ := arrives.comes.found w.sound
          have other := Json.ne_of_judgesNothing (nothing _ _ known) found _ member
          exact (key.elim other.1 other.2).elim
        · exact absurd mem limit
        · exact absurd mem limit
        · unfold ReadsItems at rest
          dsimp only at rest
          split at rest
          · rw [rest] at mem
            cases mem
          · obtain ⟨form, more, rfl, _⟩ := rest
            cases List.mem_singleton.1 mem
            rcases shape with ⟨schemas, same⟩ | same <;> cases same

end Load

/-! ## A list -/

namespace Load.Unrolled

open Linked (document loader root isReady isProper)

/-- The document with a copy of itself in the place of its reference. -/
def unrolled : Document where
  id := ⟨1⟩
  value := document.value.setAt document.value ["properties", "next"]

theorem visits_cases {pointer : Pointer} {value : Json}
    (visits : Visits .draft6 document.value pointer value) :
    value = document.value ∨ value = .object [("$ref", .string "#")] := by
  have parts :
      Json.parts .draft6 [("properties", .object [("next", .object [("$ref", .string "#")])])] =
        [(["properties", "next"], .object [("$ref", .string "#")])] := rfl
  induction visits with
  | root => exact .inl rfl
  | part above plain mem ih =>
    rcases ih with same | same
    · cases same
      rw [parts] at mem
      cases List.mem_singleton.1 mem
      exact .inr rfl
    · cases same
      cases plain
  | @referred _ target _ fragment _ above ref parsed found ih =>
    rcases ih with same | same
    · cases same
      cases ref
    · cases same
      have text := congrArg String.toList (Json.string.inj (Option.some.inj ref))
      rw [String.toList_append] at text
      have empty : fragment = "" := String.toList_inj.1 (List.cons.inj text).2.symm
      subst empty
      rw [parse_empty] at parsed
      cases parsed
      exact .inl (Except.ok.inj found).symm

/-- The document is inlined into itself. -/
theorem inlines :
    Inlines .draft6 document.value unrolled.value ["properties", "next"] [] document.value where
  proper := isProper
  copied := rfl
  reference := ⟨"", rfl, parse_empty, rfl⟩
  found := rfl
  schema := trivial
  fragments pointer members ref visits found := by
    rcases visits_cases visits with same | same
    · cases same
      cases found
    · cases same
      cases found
      exact ⟨"", rfl, rfl⟩
  placed pointer members segment rest visits plain above known := by
    rcases visits_cases visits with same | same
    · cases same
      match pointer, above with
      | [], above =>
        cases above
        exact ⟨["properties", "next"], _, [], List.mem_singleton_self _, rfl⟩
      | [_], above =>
        cases above
        exact absurd known (by decide)
      | _ :: _ :: pointer, above =>
        have more := (List.cons.inj (List.cons.inj above).2).2
        cases pointer <;> cases more
    · cases same
      cases plain
  unflagged := nofun

/-- Whether reading a document keeps it alone and gives a schema that can be compiled. -/
def readsAlone (document : Document) : Bool :=
  match (reading loader (depthBound loader · document.value) document
    (some root.documentUri)).run.run .empty with
  | (.ok schema, session) => Members.keys session.documents = [root.documentUri] &&
    (CompiledSchema.ofSchema Loop.compiler session.graph schema).isOk
  | _ => false

theorem start : Location.root root.documentUri = .ok root := by
  decide +kernel

theorem rootOf_eq (value : Json) : rootOf loader value (some root.documentUri) = .ok root :=
  start

theorem agree {document : Document} (proper : document.value.IsProper) :
    Agree (fun _ => document.value) loader [(document, root)] where
  requested := List.forall_mem_singleton.2 ⟨start, proper, rfl⟩
  preloaded := nofun
  delivered _ _ _ served _ := nomatch served

/-- A document without identifiers that judges nothing is read as it has to be for the copying. -/
theorem exists_read {document : Document} (proper : document.value.IsProper)
    (unnamed : ∀ draft ∈ Draft.all, document.value.isUnnamed draft.idKey = true)
    (nothing : document.value.judgesNothing = true) (reads : readsAlone document = true) :
    ∃ schema after compiled,
      (readSchema loader document (some root.documentUri)).run.run .empty = (.ok schema, after) ∧
      CompiledSchema.ofSchema Loop.compiler after.graph schema = .ok compiled ∧
      AreUnnamed (readSession loader document (some root.documentUri) .empty).documents ∧
      ∀ owner inner, schema.Reaches after.graph owner → owner.Uses after.graph .judged inner →
        ¬ inner.Stays after.graph owner := by
  unfold readsAlone at reads
  cases whole : (reading loader (depthBound loader · document.value) document
      (some root.documentUri)).run.run .empty with
  | mk result session =>
    rw [whole] at reads
    split at reads
    · next schema _ same =>
      cases same
      obtain ⟨keys, compiles⟩ := Bool.and_eq_true_iff.1 reads
      rw [decide_eq_true_eq] at keys
      have run := readSchema_eq loader document (some root.documentUri) .empty
      dsimp only at run
      rw [whole] at run
      obtain ⟨w, at_end, graph, read⟩ :=
        exists_hasRead isReady (agree proper) (rootOf_eq document.value) run
      have at_session : readSession loader document (some root.documentUri) .empty = session := by
        unfold readSession
        rw [whole]
      rw [at_session] at at_end ⊢
      cases ok : CompiledSchema.ofSchema Loop.compiler session.graph schema with
      | error fault =>
        rw [ok] at compiles
        cases compiles
      | ok compiled =>
        subst at_end
        refine ⟨schema, _, compiled, run, ok, areUnnamed_of_keys keys (by decide +kernel) unnamed,
          fun owner inner reaches used => ?_⟩
        refine Track.not_judged read.clean (fun uri stored known => ?_)
          (Track.made_reached read.clean read.stands.made reaches) used
        rw [w.contained uri stored known]
        exact nothing
    · cases reads

/-- The list and the list with a copy of itself in the place of its reference accept the same values
without numbers. -/
theorem inlined_isValid : ∃ schema schema' after after' compiled compiled',
    (readSchema loader document (some root.documentUri)).run.run .empty = (.ok schema, after) ∧
    (readSchema loader unrolled (some root.documentUri)).run.run .empty = (.ok schema', after') ∧
    CompiledSchema.ofSchema Loop.compiler after.graph schema = .ok compiled ∧
    CompiledSchema.ofSchema Loop.compiler after'.graph schema' = .ok compiled' ∧
    ∀ v : Json, v.IsProper → (∀ n, ¬ v.HasNumber n) →
      ∃ b, compiled.isValid v = .ok b ∧ compiled'.isValid v = .ok b := by
  have proper : unrolled.value.IsProper :=
    ⟨by decide, ⟨⟨by decide, ⟨isProper, trivial⟩⟩, trivial⟩⟩
  have total : Loop.compiler.IsTotal := fun _ _ found => nomatch found
  obtain ⟨schema, after, compiled, run, ok, unnamed, stratified⟩ :=
    @exists_read document isProper (by decide +kernel) (by decide +kernel)
      (by decide +kernel)
  obtain ⟨schema', after', compiled', run', ok', unnamed', stratified'⟩ :=
    @exists_read unrolled proper (by decide +kernel) (by decide +kernel)
      (by decide +kernel)
  refine ⟨schema, schema', after, after', compiled, compiled', run, run', ok, ok', ?_⟩
  intro v plain none
  exact inlined_isValid_eq isReady (agree isProper) (agree proper) (rootOf_eq _) (rootOf_eq _)
    inlines run run' unnamed unnamed' stratified stratified' total ok ok' plain
    (fun n has => absurd has (none n)) (fun n has => absurd has (none n))

end Load.Unrolled

end JsonSchema
