import JsonSchema.Proofs.Limits
import JsonSchema.Proofs.Preloading
import JsonSchema.Proofs.Readings
import JsonSchema.Proofs.Transparency
import JsonSchema.Proofs.Watching

/-!
# The order of members

Documents with the members of their objects in another order are compiled to schemas that accept the
same values (`Load.reordered_isValid_eq`), whether a reference is met before or after its target, and
whether an object is first loaded from above or by a reference to it or into it.

Both readings keep the same documents, if nothing is fetched (`Load.lookup_unfetched`). What they
come to at one place is reordered, at one location (`Load.Rearranged.location_eq`), so the schemas
that stand for it mirror each other: what was built for objects is alike (`Load.Shuffled.alike`), and
what was built for references points to one place (`Load.Shuffled.points`). A reference back to an
object that was still loading makes no difference to this, since it comes to the schema of this
object one step further (`Load.Shuffled.exists_node`).

What does make a difference is a flag of draft 3. It is read off the schema that stands for a
property, and a reference back has none. So no such reference may stand for an object that says that
it is required (`Load.HidesNoFlag`), which is no restriction for the other drafts
(`Load.hidesNoFlag_of_drafts`).
-/

namespace JsonSchema

open Schema (PointsTo)

/-! ## Alike schemas -/

theorem forall₂_inside {α β : Type} {R S : α → β → Prop} {xs : List α} {ys : List β}
    (related : List.Forall₂ R xs ys) (more : ∀ x ∈ xs, ∀ y ∈ ys, R x y → S x y) :
    List.Forall₂ S xs ys := by
  induction related with
  | nil => exact .nil
  | cons first _ ih =>
    refine .cons (more _ List.mem_cons_self _ List.mem_cons_self first) (ih ?_)
    exact fun x mem y mem' => more x (List.mem_cons_of_mem _ mem) y (List.mem_cons_of_mem _ mem')

section Inside

variable {rel rel' : Schema → Schema → Prop}

theorem HaveEntries.inside {schemas schemas' : List (String × Schema)}
    (entries : HaveEntries rel schemas schemas')
    (more : ∀ inner ∈ schemas.map (·.2), ∀ inner' ∈ schemas'.map (·.2),
      rel inner inner' → rel' inner inner') : HaveEntries rel' schemas schemas' := by
  intro name schema mem
  obtain ⟨schema', mem', related⟩ := entries name schema mem
  exact ⟨schema', mem', more _ (List.mem_map_of_mem mem) _ (List.mem_map_of_mem mem') related⟩

theorem AreAlike.inside {schemas schemas' : List (String × Schema)}
    (alike : AreAlike rel schemas schemas')
    (more : ∀ inner ∈ schemas.map (·.2), ∀ inner' ∈ schemas'.map (·.2),
      rel inner inner' → rel' inner inner') : AreAlike rel' schemas schemas' :=
  ⟨alike.1.inside more, alike.2.inside fun inner' mem' inner mem => more inner mem inner' mem'⟩

/-- Alike values are alike under what else is known of the schemas in them. -/
theorem KeywordValue.Alike.inside {value value' : KeywordValue} (alike : value.Alike rel value')
    (more : ∀ inner ∈ value.schemas, ∀ inner' ∈ value'.schemas,
      rel inner inner' → rel' inner inner') : value.Alike rel' value' := by
  cases value <;> cases value' <;> try exact alike.elim
  case literal | stringSet | jsonArray | types | limit => exact alike
  case schema => exact more _ List.mem_cons_self _ List.mem_cons_self alike
  case schemaList => exact forall₂_inside alike more
  case schemaMap => exact AreAlike.inside alike more
  case items form additional form' additional' =>
    obtain ⟨each, rest⟩ := alike
    constructor
    · have known : ∀ inner ∈ form.schemas, ∀ inner' ∈ form'.schemas,
          rel inner inner' → rel' inner inner' := fun inner mem inner' mem' =>
        more inner (List.mem_append_left _ mem) inner' (List.mem_append_left _ mem')
      cases form <;> cases form' <;> try exact each.elim
      · trivial
      · exact known _ List.mem_cons_self _ List.mem_cons_self each
      · exact forall₂_inside each known
    · cases rest with
      | none => exact .none
      | some related =>
        exact .some (more _ (List.mem_append_right _ List.mem_cons_self) _
          (List.mem_append_right _ List.mem_cons_self) related)
  case dependencies => exact ⟨alike.1, alike.2.inside more⟩

/-- Alike schemas are alike under what else is known of their parts. -/
theorem Schema.Alike.inside {schema schema' : Schema} (alike : schema.Alike rel schema')
    (more : ∀ inner inner', inner.IsPartOf schema → inner'.IsPartOf schema' →
      rel inner inner' → rel' inner inner') : schema.Alike rel' schema' where
  there keyword value mem := by
    obtain ⟨value', mem', same⟩ := alike.there keyword value mem
    exact ⟨value', mem', same.inside fun inner inside inner' inside' =>
      more _ _ ⟨keyword, value, mem, inside⟩ ⟨keyword, value', mem', inside'⟩⟩
  back keyword value' mem' := by
    obtain ⟨value, mem, same⟩ := alike.back keyword value' mem'
    exact ⟨value, mem, same.inside fun inner inside inner' inside' =>
      more _ _ ⟨keyword, value, mem, inside⟩ ⟨keyword, value', mem', inside'⟩⟩
  names := alike.names

end Inside

theorem Schema.PointsTo.leads {graph : SchemaGraph} {schema target : Schema}
    (points : schema.PointsTo graph target) : schema.LeadsTo graph target := by
  obtain ⟨ref, uri, handle, bound, same⟩ := points.asserts
  refine .inr ⟨handle, ⟨Builtin.ref, .reference ref uri handle, ?_, rfl⟩, bound⟩
  rw [same]
  exact List.mem_singleton_self _

namespace Load

/-! ## Flags -/

section Flags

variable {contents : String → Json} {w : Track contents} {location : Location}
  {members : List (String × Json)} {schema root : Schema}

/-- No schema is a reference back to an object of draft 3 that says that it is required. -/
def HidesNoFlag (session : Session) (schema : Schema) : Prop :=
  ∀ other here members, Relation.ReflTransGen (Schema.LeadsTo session.graph) schema other →
    other.isReference = true → other.location? = some here →
    IsInPlace session (.object members) here .draft3 → members.lookup Builtin.ref.key = none →
    members.lookup Builtin.required.key ≠ some (.bool true)

/-- An object of draft 3 that says that it is required has a flagged schema, if this is no reference
back to it. -/
theorem Stands.isFlagged (settled : w.IsSettled)
    (stands : Stands w location (.object members) .draft3 schema)
    (shown : HidesNoFlag w.session root)
    (reached : Relation.ReflTransGen (Schema.LeadsTo w.session.graph) root schema)
    (plain : members.lookup Builtin.ref.key = none)
    (flag : members.lookup Builtin.required.key = some (.bool true)) : schema.IsFlagged := by
  have inPlace := stands.arrives.comes.isInPlace w.sound
  obtain ⟨node, location', _, stands', built, rfl | ⟨id, ⟨_, _, _, rfl⟩, _⟩⟩ :=
    stands.exists_built settled
  · have reads := built.reads stands'.arrives plain
    have plainly : plainKeyword? .draft3 Builtin.required.key = some Builtin.required := by decide
    obtain ⟨value, mem, _, _, read⟩ := reads.exists_plain (Members.mem_of_lookup flag) plainly
    have digests : digested Builtin.required .boolean (.bool true) .draft3 = .ok value := read
    cases digests
    refine ⟨.bool true, Members.lookup_of_mem ?_ mem, rfl⟩
    exact reads.nodup (stands.arrives.comes.nodup w.sound)
  · exact absurd flag (shown _ _ _ reached rfl rfl inPlace plain)

/-- Only draft 3 has flags. -/
theorem hidesNoFlag_of_drafts {session : Session}
    (other : ∀ uri stored, session.documents.lookup uri = some stored → stored.draft ≠ .draft3)
    (schema : Schema) : HidesNoFlag session schema := by
  rintro _ here _ _ _ _ ⟨stored, known, draft3, _⟩
  exact absurd draft3 (other _ stored known)

end Flags

/-! ## Coupled sessions -/

/-- Two sessions without errors over the same documents in other orders, in which each place has one
location. -/
structure Shuffled {contents contents' : String → Json} (w : Track contents) (w' : Track contents') :
    Prop where
  settled : w.IsSettled
  settled' : w'.IsSettled
  arranged : Rearranged w.documents w'.documents
  maps : HavePlainMaps w.documents

/-- Two schemas stand for a value and for this value in another order, at the same location. -/
def Mirrors {contents contents' : String → Json} (w : Track contents) (w' : Track contents')
    (schema schema' : Schema) : Prop :=
  ∃ location value value' draft, value.Reordered value' ∧ Stands w location value draft schema ∧
    Stands w' location value' draft schema'

/-- Two schemas that mirror each other are reached from two others, or both are the ones of a truth
value. -/
inductive Mates {contents contents' : String → Json} (w : Track contents) (w' : Track contents')
    (root root' : Schema) : Schema → Schema → Prop
  | truth (b : Bool) : Mates w w' root root' (.ofBool b) (.ofBool b)
  | placed {schema schema' : Schema} (mirrors : Mirrors w w' schema schema')
    (reached : Relation.ReflTransGen (Schema.LeadsTo w.session.graph) root schema)
    (reached' : Relation.ReflTransGen (Schema.LeadsTo w'.session.graph) root' schema') :
    Mates w w' root root' schema schema'

theorem Mates.symm {contents contents' : String → Json} {w : Track contents} {w' : Track contents'}
    {root root' schema schema' : Schema} (mates : Mates w w' root root' schema schema') :
    Mates w' w root' root schema' schema := by
  cases mates with
  | truth b => exact .truth b
  | placed mirrors reached reached' =>
    obtain ⟨location, value, value', draft, reordered, stands, stands'⟩ := mirrors
    exact .placed ⟨location, value', value, draft, reordered.symm, stands', stands⟩ reached' reached

namespace Shuffled

variable {contents contents' : String → Json} {w : Track contents} {w' : Track contents'}
  {location location' : Location} {value value' : Json} {draft draft' : Draft}
  {schema schema' root root' : Schema} {members members' : List (String × Json)}
  (shuffled : Shuffled w w')

include shuffled

theorem symm : Shuffled w' w where
  settled := shuffled.settled'
  settled' := shuffled.settled
  arranged := shuffled.arranged.symm
  maps := shuffled.arranged.havePlainMaps shuffled.maps

/-- What stands for an object comes to the schema that was built for it. -/
theorem exists_node (stands : Stands w location (.object members) draft schema) :
    ∃ node, Relation.ReflTransGen (PointsTo w.session.graph) schema node ∧
      Built w.stock location members draft node := by
  obtain ⟨node, location', place, stands', built, which⟩ := stands.exists_built shuffled.settled
  have same := Rearranged.refl shuffled.arranged.sound shuffled.arranged.distinct
  obtain ⟨rfl, _⟩ := same.location_eq shuffled.maps stands.arrives stands'.arrives place
  refine ⟨node, ?_, built⟩
  rcases which with rfl | ⟨id, ⟨_, _, _, back⟩, bound⟩
  · exact .refl
  · exact .single ⟨_, _, _, _, _, _, back, bound⟩

/-- Schemas that stand at one place mirror each other. -/
theorem mirrors (stands : Stands w location value draft schema)
    (stands' : Stands w' location' value' draft' schema') (same : location'.place = location.place) :
    Mirrors w w' schema schema' := by
  obtain ⟨rfl, rfl, reordered⟩ :=
    shuffled.arranged.location_eq shuffled.maps stands.arrives stands'.arrives same
  exact ⟨location', value, value', draft', reordered, stands, stands'⟩

/-- Objects that are no references have schemas with the same keywords. -/
theorem alike {node node' : Schema}
    (arrives : Arrives w.documents location (.object members) draft)
    (arrives' : Arrives w'.documents location (.object members') draft)
    (reordered : (Json.object members).Reordered (.object members'))
    (built : Built w.stock location members draft node)
    (built' : Built w'.stock location members' draft node')
    (plain : members.lookup Builtin.ref.key = none) : node.Alike (Mirrors w w') node' := by
  have distinct := arrives.comes.nodup w.sound
  have plain' := reordered.lookup_none distinct plain
  obtain ⟨_, _, stored, known, _, resolved⟩ := arrives.comes.found w.sound
  have proper := Pointer.isProper_resolve resolved (w.sound.values _ _ known)
  have reads := built.reads arrives plain
  have reads' := built'.reads arrives' plain'
  rw [Location.named_reordered reordered distinct] at reads'
  refine Reads.alike ?_ (reads.matches_reordered reordered proper) distinct
    (reordered.nodup distinct) reads reads'
  exact fun way part part' inner inner' below below' => shuffled.mirrors below below' rfl

/-- References with one text at one location point to schemas at one place. -/
theorem points {node node' : Schema} (built : Built w.stock location members draft node)
    (built' : Built w'.stock location members' draft node') {ref : Json}
    (found : members.lookup Builtin.ref.key = some ref)
    (found' : members'.lookup Builtin.ref.key = some ref) :
    ∃ target target', node.PointsTo w.session.graph target ∧
      node'.PointsTo w'.session.graph target' ∧ Mirrors w w' target target' := by
  obtain ⟨text, uri, key, place, target, here, _, _, rfl, resolved, keyed, names, points, same,
    stands, _⟩ := built.points shuffled.settled found
  obtain ⟨_, _, _, _, target', here', _, _, string, resolved', keyed', names', points', same',
    stands', _⟩ := built'.points shuffled.settled' found'
  cases string
  rw [resolved] at resolved'
  cases resolved'
  rw [keyed] at keyed'
  cases keyed'
  have one := shuffled.settled'.unambiguous.names_unique (shuffled.arranged.names names) names'
  exact ⟨target, target', points, points', shuffled.mirrors stands stands' (by rw [same', same, one])⟩

/-- Mates come to alike schemas, or further to mates. -/
theorem couples : Couples w.session.graph w'.session.graph (Mates w w' root root')
    (Schema.Alike (Mates w w' root root')) := by
  intro schema schema' related
  cases related with
  | truth b => exact .inl ⟨_, _, .refl, .refl, alike_ofBool .truth b⟩
  | placed mirrors reached reached' =>
    obtain ⟨location, value, value', draft, reordered, stands, stands'⟩ := mirrors
    rcases stands.cases with ⟨b, rfl, rfl⟩ | ⟨members, rfl⟩
    · obtain rfl : Json.bool b = value' := reordered.eq_of_scalar (by simp) (by simp)
      obtain rfl : schema' = .ofBool b := stands'.loaded.2
      exact .inl ⟨_, _, .refl, .refl, alike_ofBool .truth b⟩
    · obtain ⟨members', rfl, _⟩ := reordered.object
      obtain ⟨node, chain, built⟩ := shuffled.exists_node stands
      obtain ⟨node', chain', built'⟩ := shuffled.symm.exists_node stands'
      have onwards := reached.trans (Relation.ReflTransGen.mono (fun _ _ => PointsTo.leads) _ _ chain)
      have onwards' :=
        reached'.trans (Relation.ReflTransGen.mono (fun _ _ => PointsTo.leads) _ _ chain')
      cases found : members.lookup Builtin.ref.key with
      | none =>
        have alike := shuffled.alike stands.arrives stands'.arrives reordered built built' found
        refine .inl ⟨node, node', chain, chain', alike.inside ?_⟩
        exact fun inner inner' inside inside' mirrors =>
          .placed mirrors (onwards.tail (.inl inside)) (onwards'.tail (.inl inside'))
      | some ref =>
        have text : ∃ text, ref = .string text := by
          obtain ⟨text, _, _, _, _, _, _, _, string, _⟩ := built.points shuffled.settled found
          exact ⟨text, string⟩
        obtain ⟨text, rfl⟩ := text
        have found' := reordered.lookup_string (stands.arrives.comes.nodup w.sound) found
        obtain ⟨target, target', points, points', mirrors⟩ :=
          shuffled.points built built' found found'
        exact .inr ⟨target, target', .tail' chain points, .tail' chain' points',
          .placed mirrors (onwards.tail points.leads) (onwards'.tail points'.leads)⟩

/-- A flag that one schema shows the other one shows. -/
theorem flagged (shown' : HidesNoFlag w'.session root')
    (related : Mates w w' root root' schema schema') (flag : schema.IsFlagged) :
    schema'.IsFlagged := by
  cases related with
  | truth b => exact flag
  | placed mirrors _ reached' =>
    obtain ⟨location, value, value', draft, reordered, stands, stands'⟩ := mirrors
    -- the schema is flagged only if its object says so
    by_contra unflagged
    refine stands.not_flagged shuffled.settled ?_ flag
    rintro rfl members rfl plain required
    obtain ⟨members', rfl, _⟩ := reordered.object
    have distinct := stands.arrives.comes.nodup w.sound
    obtain ⟨other, required', inner⟩ := exists_of_rel (reordered.lookup distinct _) required
    obtain rfl : Json.bool true = other := inner.eq_of_scalar (by simp) (by simp)
    exact unflagged (stands'.isFlagged shuffled.settled' shown' reached'
      (reordered.lookup_none distinct plain) required')

theorem areCoupled (shown : HidesNoFlag w.session root) (shown' : HidesNoFlag w'.session root') :
    Schema.AreCoupled w.session.graph w'.session.graph (Mates w w' root root') where
  couples := shuffled.couples
  flags _ _ related :=
    ⟨shuffled.flagged shown' related, shuffled.symm.flagged shown related.symm⟩

end Shuffled

/-! ## Sessions that fetch nothing -/

section Sessions

variable {loader loader' : Loader} {document document' : Document} {root : Location}
  {baseUri : Option String} {schema schema' : Schema} {after after' : Session}

theorem Proceeds.documents_eq {session later : Session} (proceeds : Proceeds loader session later)
    (unfetched : later.fetched = []) : later.documents = session.documents := by
  obtain ⟨calls, called, fetched⟩ := proceeds
  rw [unfetched] at fetched
  obtain rfl : calls = [] := List.map_eq_nil_iff.1 (List.append_eq_nil_iff.1 fetched.symm).2
  generalize session.documents = first, later.documents = last at called ⊢
  cases called
  rfl

/-- Once a document is known, reading it goes on by calls of the client. -/
theorem proceeds_known {session : Session} (again : Location.root root.documentUri = .ok root)
    (plain : Uri.withoutFragment root.documentUri = .ok root.documentUri)
    (known : (session.documents.lookup root.documentUri).isSome) (depth : Cache → Nat) :
    Proceeds loader session ((do
      let schema ← loadWithin loader depth document (← checkUri (Location.root root.documentUri))
      let _ ← finalize
      return schema : Load Schema).run.run session).2 := by
  obtain ⟨stored, found⟩ := Option.isSome_iff_exists.1 known
  rw [run_bind_ok (run_checkUri_eq again)]
  refine proceeds_bind ?_ (fun schema later _ => ?_)
  · unfold loadWithin
    rw [run_bind_ok (run_document_of_place plain), found]
    dsimp only
    rw [pure_bind]
    exact (proceeds_loadNode loader _ _ root stored.draft).later session
  · refine proceeds_tame (isTame_bind (isTame_bind isTame_get fun session => ?_) fun _ =>
      isTame_pure _) later
    dsimp only
    split
    · exact isTame_throw (by simp)
    · exact isTame_pure _

/-- A document that is read without fetching is stored, if its URI has none yet, and no other one. -/
theorem readAt_unfetched {session later : Session} {uri : String}
    (rooted : Location.root uri = .ok root) (depth : Cache → Nat)
    (run : (readAt loader depth document uri).run.run session = (.ok schema, later))
    (unfetched : later.fetched = []) :
    later.documents = match session.documents.lookup root.documentUri with
      | some _ => session.documents
      | none => (storing loader session root.documentUri document).documents := by
  obtain ⟨without, plain, again, _⟩ := root_again rooted
  unfold readAt at run
  rw [run_bind_ok (run_checkUri_eq without), run_bind_ok (run_document_of_place plain)] at run
  have ending : ∀ {s : Session}, (s.documents.lookup root.documentUri).isSome → ((do
        let schema ← loadWithin loader depth document (← checkUri (Location.root root.documentUri))
        let _ ← finalize
        return schema : Load Schema).run.run s) = (.ok schema, later) →
      later.documents = s.documents := by
    intro s known run
    have proceeds := @proceeds_known loader document root s again plain known depth
    rw [run] at proceeds
    exact proceeds.documents_eq unfetched
  cases found : session.documents.lookup root.documentUri with
  | some stored =>
    rw [found] at run
    exact ending (by rw [found]; rfl) run
  | none =>
    rw [found, Option.isNone_none, if_pos rfl,
      run_bind_ok (run_addDocument_absent plain found _ _)] at run
    refine ending (s := storing loader session root.documentUri document) ?_ run
    change ((Members.put _ _ _).lookup _).isSome = true
    rw [Members.lookup_put, if_pos rfl]
    rfl

/-- A document that is read without fetching joins the preloaded ones, if it is none of them. -/
theorem lookup_unfetched (ready : loader.IsReady)
    (place : rootOf loader document.value baseUri = .ok root)
    (run : (readSchema loader document baseUri).run.run .empty = (.ok schema, after))
    (unfetched : after.fetched = []) (uri : String) :
    (readSession loader document baseUri .empty).documents.lookup uri =
      ((loader.preloaded.lookup uri).or (if uri = root.documentUri then some document else none)).map
        fun known => { document := known, draft := draftOf loader known.value } := by
  have opened : ∀ uri, (opening loader).documents.lookup uri = _ :=
    lookup_opening_eq ⟨ready.distinct, ready.places⟩
  rw [readSchema_eq] at run
  unfold readSession
  cases whole : (reading loader (depthBound loader · document.value) document baseUri).run.run
      .empty with
  | mk result later =>
    rw [whole] at run
    cases run
    obtain ⟨_, s, first, rest⟩ := run_bind_eq_ok whole
    obtain rfl : opening loader = s := congrArg Prod.snd first
    obtain ⟨uri', rooted, same⟩ := readIn_of_rootOf place
    rw [same] at rest
    have documents := readAt_unfetched rooted _ rest unfetched
    rw [opened] at documents
    cases known : loader.preloaded.lookup root.documentUri with
    | some stored =>
      rw [known] at documents
      change later.documents.lookup uri = _
      rw [documents]
      change (opening loader).documents.lookup uri = _
      rw [opened]
      by_cases here : uri = root.documentUri
      · rw [here, known]
        rfl
      · rw [if_neg here, Option.or_none]
    | none =>
      rw [known] at documents
      change later.documents.lookup uri = _
      rw [documents]
      change (Members.put (opening loader).documents _ _).lookup uri = _
      rw [Members.lookup_put, opened]
      split
      · next here =>
        rw [here, known]
        rfl
      · rw [Option.or_none]

/-- Identifiers are separate: none of them is met twice in a document, each stands for one place, and
none is a text in a map of schemas. -/
structure AreSeparate (documents : Documents) : Prop where
  distinct : ∀ uri stored, documents.lookup uri = some stored →
    (Members.keys (metIn uri stored)).Nodup
  unambiguous : Unambiguous documents
  maps : HavePlainMaps documents

section Roots

variable {value value' : Json} (options : loader'.options = loader.options)
  (reordered : value.Reordered value') (proper : value.IsProper)

include options reordered proper

theorem draftOf_reordered : draftOf loader' value' = draftOf loader value := by
  unfold draftOf
  rw [options]
  split
  · next uri found =>
    rw [reordered.symm.member_string (reordered.isProper proper) found]
  · next other =>
    split
    · next uri found => exact absurd (reordered.member_string proper found) (other uri)
    · rfl

theorem rootOf_reordered : rootOf loader' value' baseUri = rootOf loader value baseUri := by
  have uri : documentUri loader' value' = documentUri loader value := by
    unfold documentUri
    rw [options, draftOf_reordered options reordered proper]
    dsimp only
    split
    · next identifier found =>
      rw [reordered.symm.member_string (reordered.isProper proper) found]
    · next other =>
      split
      · next identifier found =>
        exact absurd (reordered.member_string proper found) (other identifier)
      · rfl
  unfold rootOf
  rw [uri]

end Roots

/-- A document is read twice under one URI, the second time with the members of all objects in
another order. Documents are preloaded under the same URIs, and they are reordered too. -/
structure Rereads (contents contents' : String → Json) (loader loader' : Loader)
    (document document' : Document) (root : Location) (baseUri : Option String) : Prop where
  ready : loader.IsReady
  ready' : loader'.IsReady
  options : loader'.options = loader.options
  preloaded : ∀ uri, (loader'.preloaded.lookup uri).isSome = (loader.preloaded.lookup uri).isSome
  same : ∀ uri, (contents uri).Reordered (contents' uri)
  agree : Agree contents loader [(document, root)]
  agree' : Agree contents' loader' [(document', root)]
  place : rootOf loader document.value baseUri = .ok root

namespace Rereads

variable {contents contents' : String → Json}
  (rereads : Rereads contents contents' loader loader' document document' root baseUri)

include rereads

theorem proper : document.value.IsProper :=
  (rereads.agree.requested _ (List.mem_singleton_self _)).2.1

theorem reordered : document.value.Reordered document'.value := by
  have content := (rereads.agree.requested _ (List.mem_singleton_self _)).2.2
  have content' := (rereads.agree'.requested _ (List.mem_singleton_self _)).2.2
  dsimp only at content content'
  rw [content, content']
  exact rereads.same _

theorem place' : rootOf loader' document'.value baseUri = .ok root :=
  (rootOf_reordered rereads.options rereads.reordered rereads.proper).trans rereads.place

variable (run : (readSchema loader document baseUri).run.run .empty = (.ok schema, after))
  (run' : (readSchema loader' document' baseUri).run.run .empty = (.ok schema', after'))
  (unfetched : after.fetched = []) (unfetched' : after'.fetched = [])

include run run' unfetched unfetched'

/-- Both sessions keep the same documents in other orders. -/
theorem arranged {w : Track contents} {w' : Track contents'}
    (atEnd : w.session = readSession loader document baseUri .empty)
    (atEnd' : w'.session = readSession loader' document' baseUri .empty)
    (distinct : ∀ uri stored, w.documents.lookup uri = some stored →
      (Members.keys (metIn uri stored)).Nodup) : Rearranged w.documents w'.documents := by
  refine ⟨fun uri => ?_, w.sound, distinct⟩
  have found := lookup_unfetched rereads.ready rereads.place run unfetched uri
  have found' := lookup_unfetched rereads.ready' rereads.place' run' unfetched' uri
  rw [← atEnd] at found
  rw [← atEnd'] at found'
  have known := rereads.preloaded uri
  generalize first : (loader.preloaded.lookup uri).or _ = entry at found
  generalize second : (loader'.preloaded.lookup uri).or _ = entry' at found'
  have both : entry'.isSome = entry.isSome := by
    rw [← first, ← second, Option.isSome_or, Option.isSome_or, known]
    split <;> rfl
  cases entry with
  | none =>
    cases entry' with
    | none =>
      change Option.Rel _ (w.session.documents.lookup uri) (w'.session.documents.lookup uri)
      rw [found, found']
      exact .none
    | some => cases both
  | some document =>
    cases entry' with
    | none => cases both
    | some document' =>
      have value : document.value = contents uri := w.contained _ _ found
      have value' : document'.value = contents' uri := w'.contained _ _ found'
      have reordered : document.value.Reordered document'.value := by
        rw [value, value']
        exact rereads.same uri
      change Option.Rel _ (w.session.documents.lookup uri) (w'.session.documents.lookup uri)
      rw [found, found']
      exact .some ⟨draftOf_reordered rereads.options reordered (w.sound.values _ _ found), reordered⟩

/-- Both documents are read in sessions that are coupled. -/
theorem exists_shuffled
    (apart : AreSeparate (readSession loader document baseUri .empty).documents) :
    ∃ (w : Track contents) (w' : Track contents'),
      w.session = readSession loader document baseUri .empty ∧
      w'.session = readSession loader' document' baseUri .empty ∧
      w.session.graph = after.graph ∧ w'.session.graph = after'.graph ∧
      Shuffled w w' ∧ Mirrors w w' schema schema' := by
  obtain ⟨w, atEnd, graph, read⟩ := exists_hasRead rereads.ready rereads.agree rereads.place run
  obtain ⟨w', atEnd', graph', read'⟩ :=
    exists_hasRead rereads.ready' rereads.agree' rereads.place' run'
  rw [← atEnd] at apart
  have arranged := rereads.arranged run run' unfetched unfetched' atEnd atEnd' apart.distinct
  have proper' := rereads.reordered.isProper rereads.proper
  refine ⟨w, w', atEnd, atEnd', graph, graph', ⟨⟨read.clean, apart.unambiguous, ?_⟩,
    ⟨read'.clean, arranged.unambiguous apart.unambiguous, ?_⟩, arranged, apart.maps⟩, ?_⟩
  · rw [graph]
    exact isBound_readSchema rereads.ready rereads.proper run
  · rw [graph']
    exact isBound_readSchema rereads.ready' proper' run'
  · have stands' := read'.stands
    rw [draftOf_reordered rereads.options rereads.reordered rereads.proper] at stands'
    exact ⟨root, _, _, _, rereads.reordered, read.stands, stands'⟩

end Rereads

/-- The order of members does not matter: documents with their members in another order, which are
read without errors and without fetching, are compiled to schemas that accept the same values. This
is said of documents whose identifiers are separate, if no schema is a reference back to an object that
draft 3 requires, and of values whose numbers compare with the bounds of the schemas. -/
theorem reordered_isValid_eq {contents contents' : String → Json}
    (rereads : Rereads contents contents' loader loader' document document' root baseUri)
    (run : (readSchema loader document baseUri).run.run .empty = (.ok schema, after))
    (run' : (readSchema loader' document' baseUri).run.run .empty = (.ok schema', after'))
    (unfetched : after.fetched = []) (unfetched' : after'.fetched = [])
    (apart : AreSeparate (readSession loader document baseUri .empty).documents)
    (shown : HidesNoFlag (readSession loader document baseUri .empty) schema)
    (shown' : HidesNoFlag (readSession loader' document' baseUri .empty) schema')
    (stratified : ∀ owner inner, schema.Reaches after.graph owner →
      owner.Uses after.graph .judged inner → ¬ inner.Stays after.graph owner)
    (stratified' : ∀ owner inner, schema'.Reaches after'.graph owner →
      owner.Uses after'.graph .judged inner → ¬ inner.Stays after'.graph owner)
    {compiler : Compiler} (total : compiler.IsTotal) {compiled compiled' : CompiledSchema}
    (ok : CompiledSchema.ofSchema compiler after.graph schema = .ok compiled)
    (ok' : CompiledSchema.ofSchema compiler after'.graph schema' = .ok compiled')
    {v : Json} (proper : v.IsProper) (comparable : v.IsComparable (schema.Reaches after.graph))
    (comparable' : v.IsComparable (schema'.Reaches after'.graph)) :
    ∃ b, compiled.isValid v = .ok b ∧ compiled'.isValid v = .ok b := by
  obtain ⟨w, w', atEnd, atEnd', graph, graph', shuffled, mirrors⟩ :=
    rereads.exists_shuffled run run' unfetched unfetched' apart
  rw [← atEnd] at shown
  rw [← atEnd'] at shown'
  rw [← graph] at stratified ok comparable
  rw [← graph'] at stratified' ok' comparable'
  have mates : Mates w w' schema schema' schema schema' := .placed mirrors .refl .refl
  obtain ⟨_, _, _, _, _, stands, stands'⟩ := mirrors
  exact (shuffled.areCoupled shown shown').isValid_eq
    (Track.orderly_reached shuffled.settled.clean stands.made)
    (Track.orderly_reached shuffled.settled'.clean stands'.made) stratified stratified' total .refl
    .refl mates ok ok' proper comparable comparable'

end Sessions

end Load

/-! ## Two properties -/

namespace Load.Swapped

open Linked (loader root isReady)
open Unrolled (agree rootOf_eq readsAlone exists_read)

/-- A reference to the other member. -/
def first : String × Json :=
  ("items", .object [("$ref", .string "#/contains")])

/-- A member with a reference to the whole document. -/
def second : String × Json :=
  ("contains", .object [("contains", .object [("$ref", .string "#")])])

/-- A document with a reference in front of its target. -/
def document : Document where
  id := ⟨1⟩
  value := .object [first, second]

/-- The document with the target in front. -/
def swapped : Document where
  id := ⟨2⟩
  value := .object [second, first]

theorem reordered : document.value.Reordered swapped.value :=
  .reorder (.swap second first [])

theorem isProper : document.value.IsProper := by
  simp [document, first, second, Json.IsProper, Json.AreProperMembers, Members.keys]

theorem rereads : Rereads (fun _ => document.value) (fun _ => swapped.value) loader loader document
    swapped root (some root.documentUri) where
  ready := isReady
  ready' := isReady
  options := rfl
  preloaded _ := rfl
  same _ := reordered
  agree := agree isProper
  agree' := agree (reordered.isProper isProper)
  place := rootOf_eq _

/-- What is known of a document without identifiers that is read in draft 6 without fetching. -/
theorem exists_separate {document : Document} (proper : document.value.IsProper)
    (unnamed : ∀ draft ∈ Draft.all, document.value.isUnnamed draft.idKey = true)
    (nothing : document.value.judgesNothing = true) (reads : readsAlone document = true ∧
      (readSession loader document (some root.documentUri) .empty).fetched = [])
    (draft6 : draftOf loader document.value = .draft6)
    (unmet : metIn root.documentUri { document, draft := .draft6 } = []) :
    ∃ schema after compiled,
      (readSchema loader document (some root.documentUri)).run.run .empty = (.ok schema, after) ∧
      CompiledSchema.ofSchema Loop.compiler after.graph schema = .ok compiled ∧
      after.fetched = [] ∧
      AreSeparate (readSession loader document (some root.documentUri) .empty).documents ∧
      HidesNoFlag (readSession loader document (some root.documentUri) .empty) schema ∧
      ∀ owner inner, schema.Reaches after.graph owner → owner.Uses after.graph .judged inner →
        ¬ inner.Stays after.graph owner := by
  obtain ⟨schema, after, compiled, run, ok, unnamed, stratified⟩ :=
    exists_read proper unnamed nothing reads.1
  have unfetched : after.fetched = [] := by
    have same := (readSchema_eq loader document (some root.documentUri) .empty).symm.trans run
    have last := congrArg (·.2.fetched) same
    exact last.symm.trans reads.2
  have single : ∀ uri stored,
      (readSession loader document (some root.documentUri) .empty).documents.lookup uri =
        some stored → uri = root.documentUri ∧ stored = { document, draft := .draft6 } := by
    intro uri stored known
    rw [lookup_unfetched isReady (rootOf_eq _) run unfetched] at known
    change Option.map _ (if _ then _ else _) = _ at known
    split at known
    · next here =>
      rw [Option.map_some, draft6] at known
      exact ⟨here, (Option.some.inj known).symm⟩
    · cases known
  obtain ⟨w, atEnd, _⟩ := exists_hasRead isReady (agree proper) (rootOf_eq _) run
  have sound : AreSound w.session.documents := w.sound
  rw [atEnd] at sound
  refine ⟨schema, after, compiled, run, ok, unfetched,
    ⟨fun uri stored known => ?_, unnamed.unambiguous sound, ?_⟩,
    hidesNoFlag_of_drafts (fun uri stored known => ?_) schema, stratified⟩
  · obtain ⟨rfl, rfl⟩ := single uri stored known
    rw [unmet]
    exact List.nodup_nil
  · exact fun _ _ _ comes _ => unnamed.hasPlainMaps sound comes
  · obtain ⟨_, rfl⟩ := single uri stored known
    exact Draft.noConfusion

theorem document_reads : readsAlone document = true ∧
    (readSession loader document (some root.documentUri) .empty).fetched = [] := by
  decide +kernel

theorem swapped_reads : readsAlone swapped = true ∧
    (readSession loader swapped (some root.documentUri) .empty).fetched = [] := by
  decide +kernel

/-- The two documents accept the same values without numbers. -/
theorem swapped_isValid : ∃ schema schema' after after' compiled compiled',
    (readSchema loader document (some root.documentUri)).run.run .empty = (.ok schema, after) ∧
    (readSchema loader swapped (some root.documentUri)).run.run .empty = (.ok schema', after') ∧
    CompiledSchema.ofSchema Loop.compiler after.graph schema = .ok compiled ∧
    CompiledSchema.ofSchema Loop.compiler after'.graph schema' = .ok compiled' ∧
    ∀ v : Json, v.IsProper → (∀ n, ¬ v.HasNumber n) →
      ∃ b, compiled.isValid v = .ok b ∧ compiled'.isValid v = .ok b := by
  have total : Loop.compiler.IsTotal := fun _ _ found => nomatch found
  obtain ⟨schema, after, compiled, run, ok, unfetched, apart, shown, stratified⟩ :=
    exists_separate isProper (by decide +kernel) (by decide +kernel) document_reads
      (by decide +kernel) (by decide +kernel)
  obtain ⟨schema', after', compiled', run', ok', unfetched', _, shown', stratified'⟩ :=
    exists_separate (reordered.isProper isProper) (by decide +kernel) (by decide +kernel)
      swapped_reads (by decide +kernel) (by decide +kernel)
  refine ⟨schema, schema', after, after', compiled, compiled', run, run', ok, ok', ?_⟩
  intro v plain none
  exact reordered_isValid_eq rereads run run' unfetched unfetched' apart shown shown' stratified
    stratified' total ok ok' plain (fun n has => absurd has (none n))
    (fun n has => absurd has (none n))

end Load.Swapped

end JsonSchema
