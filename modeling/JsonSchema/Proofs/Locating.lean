import JsonSchema.Proofs.Origins
import JsonSchema.Proofs.Placing
import JsonSchema.Proofs.Transparency

/-!
# Locations of violations

A violation with a keyword has the location of a member that is called so, in a document of the
session (`loadAll_cites`). The one exception are the limits of draft 6: a bound and its exclusive
companion are one keyword, and where a schema has the companion only, the violation is located at the
bound that is not there.

Most violations stand below the location of the schema that has their keyword. Those of a member that
draft 3 flags as required stand in the schema of the member, which is why identifiers must be
unambiguous where this draft is used: another schema could stand for it.
-/

namespace JsonSchema.Load

open Compile (IsCheckOf)

/-! ## Locations with the keyword -/

/-- A location is that of a member called `key` of an object in a document. A limit that only an
exclusive companion sets has a location as if the bound were there. -/
inductive Cites (documents : Documents) (key location : String) : Prop
  | member {uri fragment : String} {way : Pointer} {stored : StoredDocument}
    {members : List (String × Json)} {value : Json}
    (split : Uri.splitFragment location = .ok (uri, fragment))
    (parsed : Pointer.parseFragment fragment = .ok (way ++ [key]))
    (known : documents.lookup uri = some stored)
    (object : Pointer.resolve stored.document.value way = .ok (.object members))
    (found : members.lookup key = some value)
    (resolved : Pointer.resolve stored.document.value (way ++ [key]) = .ok value) :
    Cites documents key location
  | companion {uri fragment : String} {way : Pointer} {stored : StoredDocument}
    {members : List (String × Json)} {bound exclusive : Keyword}
    (limits : (bound, exclusive) ∈ [(Builtin.minimum, Builtin.exclusiveMinimum),
      (Builtin.maximum, Builtin.exclusiveMaximum)]) (same : key = bound.key)
    (split : Uri.splitFragment location = .ok (uri, fragment))
    (parsed : Pointer.parseFragment fragment = .ok (way ++ [key]))
    (known : documents.lookup uri = some stored) (draft6 : stored.draft = .draft6)
    (object : Pointer.resolve stored.document.value way = .ok (.object members))
    (absent : members.lookup key = none) (alone : (members.lookup exclusive.key).isSome) :
    Cites documents key location

section Cites

variable {documents : Documents} {location : Location} {members : List (String × Json)}
  {draft : Draft} {key place : String} {value : Json}

/-- What is located below an object that loading came to. -/
theorem Comes.located (normal : ∀ uri, (documents.lookup uri).isSome → Uri.IsNormal uri)
    (sound : AreSound documents) (comes : Comes documents location (.object members) draft)
    (same : place = Place.inDocument location.documentUri (location.pointer ++ [key])) :
    ∃ fragment stored, Uri.splitFragment place = .ok (location.documentUri, fragment) ∧
      Pointer.parseFragment fragment = .ok (location.pointer ++ [key]) ∧
      documents.lookup location.documentUri = some stored ∧ stored.draft = draft ∧
      Pointer.resolve stored.document.value location.pointer = .ok (.object members) := by
  obtain ⟨_, _, stored, known, draft, object⟩ := comes.found sound
  refine ⟨_, stored, ?_, Pointer.parseFragment_encode _, known, draft, object⟩
  rw [same]
  exact Place.split_inDocument (normal _ (Option.isSome_iff_exists.2 ⟨stored, known⟩))

/-- A member of an object that loading came to has the place below it. -/
theorem Comes.cites (normal : ∀ uri, (documents.lookup uri).isSome → Uri.IsNormal uri)
    (sound : AreSound documents) (comes : Comes documents location (.object members) draft)
    (found : members.lookup key = some value)
    (same : place = Place.inDocument location.documentUri (location.pointer ++ [key])) :
    Cites documents key place := by
  obtain ⟨fragment, stored, split, parsed, known, _, object⟩ := comes.located normal sound same
  have last : Pointer.resolve (.object members) [key] = .ok value := by
    unfold Pointer.resolve Pointer.resolveFrom
    rw [Pointer.step_member found]
    rfl
  exact .member split parsed known object found (Pointer.resolve_append object last)

theorem exists_lookup {α : Type} {members : List (String × α)} {value : α}
    (mem : (key, value) ∈ members) : ∃ other, members.lookup key = some other := by
  cases found : members.lookup key with
  | some other => exact ⟨other, rfl⟩
  | none => exact absurd rfl (bne_iff_ne.1 (List.lookup_eq_none_iff.1 found _ mem))

/-- A limit has its bound, or it is one of draft 6 that has the exclusive companion only. -/
theorem limitEntries_cases {bound exclusive keyword : Keyword} {loaded : KeywordValue}
    (mem : (keyword, loaded) ∈ limitEntries draft members bound exclusive) :
    keyword = bound ∧ (∃ limit, loaded = .limit limit) ∧
      ((∃ value, members.lookup bound.key = some value) ∨
        draft = .draft6 ∧ members.lookup bound.key = none ∧
          (members.lookup exclusive.key).isSome) := by
  unfold limitEntries at mem
  split at mem
  · next limit ok =>
    obtain ⟨same, holds⟩ := Prod.mk.inj (List.mem_singleton.1 mem)
    refine ⟨same, ⟨limit, holds⟩, ?_⟩
    cases absent : members.lookup bound.key with
    | some value => exact .inl ⟨value, rfl⟩
    | none =>
      rw [absent] at ok
      cases other : members.lookup exclusive.key with
      | none =>
        rw [other] at ok
        cases draft <;> cases ok
      | some value =>
        refine .inr ⟨?_, rfl, rfl⟩
        rw [other] at ok
        cases draft with
        | draft6 => rfl
        | _ => cases value <;> cases ok
  · cases mem

/-- What is no limit was read from a member of its name, or from what says something about items. -/
theorem Reads.cases_of_not_limit {sub : Sub} {keywords : List (Keyword × KeywordValue)}
    {keyword : Keyword} {loaded : KeywordValue} (reads : Reads sub draft members keywords)
    (mem : (keyword, loaded) ∈ keywords) (other : ∀ limit, loaded ≠ .limit limit) :
    (∃ json kind, ReadsValue (fun way => sub (keyword.key :: way)) keyword kind draft json loaded) ∨
      ∃ items, ReadsItems sub members items ∧ (keyword, loaded) ∈ items := by
  rcases reads.cases mem with ⟨json, _, _, _, _, read⟩ | mem | mem | items
  · exact .inl ⟨json, _, read⟩
  · obtain ⟨limit, same⟩ := (limitEntries_cases mem).2.1
    exact absurd same (other limit)
  · obtain ⟨limit, same⟩ := (limitEntries_cases mem).2.1
    exact absurd same (other limit)
  · exact .inr items

/-- What says something about items is one keyword, and it has the additional items. -/
theorem ReadsItems.cases {sub : Sub} {keywords : List (Keyword × KeywordValue)} {keyword : Keyword}
    {loaded : KeywordValue} (reads : ReadsItems sub members keywords)
    (mem : (keyword, loaded) ∈ keywords) : keyword = Builtin.items ∧ ∃ form more,
      loaded = .items form more ∧
        (more.isSome → (members.lookup Builtin.additionalItems.key).isSome) := by
  unfold ReadsItems at reads
  dsimp only at reads
  split at reads
  · rw [reads] at mem
    cases mem
  · obtain ⟨form, more, rfl, -, rest⟩ := reads
    cases List.mem_singleton.1 mem
    refine ⟨rfl, form, more, rfl, fun some => ?_⟩
    unfold ReadsAdditional at rest
    split at rest
    · rw [rest] at some
      cases some
    · next found =>
      rw [found]
      rfl

/-- A schema in a map was loaded for the part of its name. -/
theorem ReadsValue.exists_entry {sub : Sub} {keyword : Keyword} {kind : KeywordKind} {json : Json}
    {named : List (String × Schema)} {name : String} {schema : Schema}
    (reads : ReadsValue sub keyword kind draft json (.schemaMap named))
    (mem : (name, schema) ∈ named) : ∃ part, sub [name] part schema := by
  unfold ReadsValue at reads
  split at reads
  · obtain ⟨_, same, _⟩ := reads
    cases same
  · obtain ⟨_, same, _⟩ := reads
    cases same
  · obtain ⟨entries, _, _, same, each⟩ := reads
    cases same
    obtain ⟨entry, _, same, below⟩ := exists_of_forall₂ each.flip mem
    rw [← same] at below
    exact ⟨entry.2, below⟩
  · obtain ⟨_, _, _, _, same, _⟩ := reads
    cases same
  · have none : named.map Prod.snd = [] := schemas_digested reads
    rw [List.map_eq_nil_iff.1 none] at mem
    cases mem

/-- No keyword with a value of its own holds additional items. -/
theorem ReadsValue.not_items {sub : Sub} {keyword : Keyword} {kind : KeywordKind} {json : Json}
    {form : ItemsForm} {more : Schema} :
    ¬ ReadsValue sub keyword kind draft json (.items form (some more)) := by
  intro reads
  unfold ReadsValue at reads
  split at reads
  · obtain ⟨_, same, _⟩ := reads
    cases same
  · obtain ⟨_, same, _⟩ := reads
    cases same
  · obtain ⟨_, _, _, same, _⟩ := reads
    cases same
  · obtain ⟨_, _, _, _, same, _⟩ := reads
    cases same
  · have none : form.schemas ++ [more] = [] := schemas_digested reads
    exact absurd none (List.append_ne_nil_of_right_ne_nil _ (List.cons_ne_nil _ _))

/-- Rules that complain about their value stand under keywords of their own. -/
theorem ordinary_of_complains {rule : Rule} (stands : rule.StandsUnder key)
    (complains : rule.Complains) : key ≠ Builtin.ref.key ∧ key ≠ Builtin.items.key := by
  cases rule with
  | allOf => rcases stands with rfl | rfl <;> decide
  | anyOf | oneOf | propertyNames =>
    subst stands
    decide
  | reference | items | properties | patternProperties | additionalProperties | nothing =>
    exact complains.elim
  | _ => exact stands

end Cites

/-! ## Owners that were read -/

variable {contents : String → Json} {w : Track contents} {owner : Schema} {keyword : Keyword}
  {loaded : KeywordValue} {check : Check} {node spot : InstanceNode} {v : Violation} {key : String}

/-- The schema of a keyword that is not a reference was read from an object, and its keywords hold
schemas that stand for the parts of the object. -/
theorem Track.exists_object (clean : w.stock.IsClean) (made : w.stock.Made owner)
    (demanding : owner.isAlwaysInvalid = false) (entry : (keyword, loaded) ∈ owner.keywords)
    (plain : keyword.key ≠ Builtin.ref.key) :
    ∃ own received members draft, owner.location? = some own ∧ own.place = received.place ∧
      Arrives w.documents received (.object members) draft ∧
      Reads (fun way part schema => Stands w (own.child way) part draft schema) draft members
        owner.keywords := by
  have noReference : ∀ {ref uri id},
      owner.keywords ≠ [(Builtin.ref, .reference ref uri id)] := by
    intro ref uri id same
    rw [same] at entry
    exact plain (congrArg (·.1.key) (List.mem_singleton.1 entry))
  rcases Track.cases_made clean made with rfl | rfl | ⟨received, members, draft, arrives, node⟩
  · cases entry
  · cases demanding
  · rcases node with ⟨id, node, ref, uri, rfl⟩ | built
    · exact absurd rfl noReference
    · have noRef : members.lookup Builtin.ref.key = none := by
        obtain ⟨node, keywords, rfl, content⟩ := built
        split at content
        · obtain ⟨_, _, _, _, _, keywords, _⟩ := content
          exact absurd keywords noReference
        · next absent => exact absent
      have reads := built.reads arrives noRef
      obtain ⟨node, keywords, rfl, _⟩ := built
      refine ⟨_, received, members, draft, rfl, Session.ofObject_place _ _ _, arrives, ?_⟩
      rw [Location.ofObject, noRef]
      exact reads

/-- A session without errors over documents with normal URIs, in which every flag is where it is
looked for: there are none, or what stands for a part was loaded for it. -/
structure Track.IsLegible (w : Track contents) : Prop where
  clean : w.stock.IsClean
  normal : ∀ uri, (w.documents.lookup uri).isSome → Uri.IsNormal uri
  flags : (∀ uri stored, w.documents.lookup uri = some stored → stored.draft ≠ .draft3) ∨
    w.IsSettled

/-- What was arrived at is in a document with a normal URI. -/
theorem Track.IsLegible.normal_of_arrives (legible : w.IsLegible) {location : Location} {json : Json}
    {draft : Draft} (arrives : Arrives w.documents location json draft) :
    Uri.IsNormal location.documentUri := by
  obtain ⟨_, _, stored, known, _⟩ := arrives.comes.found w.sound
  exact legible.normal _ (Option.isSome_iff_exists.2 ⟨stored, known⟩)

/-- Only documents of draft 3 have flagged schemas. -/
theorem Track.not_flagged (clean : w.stock.IsClean)
    (others : ∀ uri stored, w.documents.lookup uri = some stored → stored.draft ≠ .draft3)
    (made : w.stock.Made owner) : ¬ owner.IsFlagged := by
  rcases Track.cases_made clean made with rfl | rfl | ⟨location, members, draft, arrives, node⟩
  · exact not_flagged_ofBool true
  · exact not_flagged_ofBool false
  · rcases node with ⟨id, node, ref, uri, rfl⟩ | ⟨node, keywords, rfl, content⟩
    · exact not_flagged_ref rfl
    · split at content
      · obtain ⟨_, _, _, _, _, keywords, _⟩ := content
        exact not_flagged_ref keywords
      · rintro ⟨flag, found, truthy⟩
        obtain ⟨draft3, _⟩ := content.2.flagged (Members.mem_of_lookup found) truthy
        obtain ⟨_, _, stored, known, same, _⟩ := arrives.comes.found w.sound
        exact others _ stored known (same.trans draft3)

/-- A flagged schema stands for an object that says so. -/
theorem Stands.exists_flag (legible : w.IsLegible) {location : Location} {draft : Draft}
    {part : Json} {schema : Schema} (stands : Stands w location part draft schema)
    (flagged : schema.IsFlagged) : ∃ members, part = .object members ∧
      members.lookup Builtin.required.key = some (.bool true) := by
  rcases legible.flags with others | settled
  · exact absurd flagged (Track.not_flagged legible.clean others stands.made)
  · by_contra none
    exact stands.not_flagged settled
      (fun _ members object _ flag => none ⟨members, object, flag⟩) flagged

/-- A keyword of a schema that was made, with the check that it was compiled to. -/
structure Owns (w : Track contents) (owner : Schema) (keyword : Keyword) (loaded : KeywordValue)
    (check : Check) : Prop where
  made : w.stock.Made owner
  demanding : owner.isAlwaysInvalid = false
  entry : (keyword, loaded) ∈ owner.keywords
  compiled : ∃ location, IsCheckOf location keyword loaded check ∧
    ∀ own, owner.location? = some own → own.absoluteUri = .ok location

namespace Owns

/-- A check of a keyword that is not a reference stands below the object of its schema. -/
theorem exists_object (owns : Owns w owner keyword loaded check) (legible : w.IsLegible)
    (plain : keyword.key ≠ Builtin.ref.key) :
    ∃ location members draft, Arrives w.documents location (.object members) draft ∧
      check.location = Place.inDocument location.documentUri (location.pointer ++ [keyword.key]) ∧
      Reads (fun way part schema => ∃ below, below.place = (location.child way).place ∧
        Stands w below part draft schema) draft members owner.keywords := by
  obtain ⟨location, isCheck, located⟩ := owns.compiled
  obtain ⟨own, received, members, draft, here, place, arrives, reads⟩ :=
    Track.exists_object legible.clean owns.made owns.demanding owns.entry plain
  obtain ⟨document, pointer⟩ := Prod.mk.inj place
  have normal : Uri.IsNormal own.documentUri := by
    rw [document]
    exact legible.normal_of_arrives arrives
  refine ⟨received, members, draft, arrives, ?_, reads.mono fun way part schema stands => ?_⟩
  · rw [isCheck.placed, Place.join_absoluteUri normal (located own here), document, pointer]
  · refine ⟨_, ?_, stands⟩
    unfold Location.place Location.child
    rw [document, pointer]

theorem isKeyed (owns : Owns w owner keyword loaded check) :
    check.rule.StandsUnder keyword.key := by
  obtain ⟨_, isCheck, _⟩ := owns.compiled
  have keyed := isCheck.keyed
  rw [Check.IsKeyed, Check.key, isCheck.named] at keyed
  exact keyed

theorem knows (owns : Owns w owner keyword loaded check) :
    check.rule.KnowsPlaces loaded check.location := by
  obtain ⟨_, isCheck, _⟩ := owns.compiled
  exact isCheck.knows

/-- A check is located at its keyword, unless that is a reference or about items. -/
theorem cites_keyword (owns : Owns w owner keyword loaded check) (legible : w.IsLegible)
    (ordinary : keyword.key ≠ Builtin.ref.key ∧ keyword.key ≠ Builtin.items.key) :
    Cites w.documents keyword.key check.location := by
  obtain ⟨location, members, draft, arrives, there, reads⟩ :=
    owns.exists_object legible ordinary.1
  have normal := legible.normal
  have limit : ∀ {bound exclusive : Keyword},
      (bound, exclusive) ∈ [(Builtin.minimum, Builtin.exclusiveMinimum),
        (Builtin.maximum, Builtin.exclusiveMaximum)] →
      (keyword, loaded) ∈ limitEntries draft members bound exclusive →
      Cites w.documents keyword.key check.location := by
    intro bound exclusive limits mem
    obtain ⟨rfl, -, ⟨value, found⟩ | ⟨draft6, absent, alone⟩⟩ := limitEntries_cases mem
    · exact arrives.comes.cites normal w.sound found there
    · obtain ⟨fragment, stored, split, parsed, known, same, object⟩ :=
        arrives.comes.located normal w.sound there
      exact .companion limits rfl split parsed known (same.trans draft6) object absent alone
  rcases reads.cases owns.entry with ⟨json, mem, _⟩ | mem | mem | ⟨items, rest, mem⟩
  · obtain ⟨value, found⟩ := exists_lookup mem
    exact arrives.comes.cites normal w.sound found there
  · exact limit List.mem_cons_self mem
  · exact limit (List.mem_cons_of_mem _ List.mem_cons_self) mem
  · exact absurd (congrArg Keyword.key (rest.cases mem).1) ordinary.2

/-- A check that forbids additional items has the place of the member that says so. -/
theorem cites_additional (owns : Owns w owner keyword loaded check) (legible : w.IsLegible)
    {every additional : Option ValidatorId} {each : Option (List ValidatorId)} {place : String}
    (rule : check.rule = .items every each additional true place) :
    Cites w.documents Builtin.additionalItems.key place := by
  have key : keyword.key = Builtin.items.key := by
    have keyed := owns.isKeyed
    rw [rule] at keyed
    exact keyed
  have knows := owns.knows
  rw [rule] at knows
  obtain ⟨⟨form, more, holds⟩, same⟩ := knows rfl
  obtain ⟨location, members, draft, arrives, there, reads⟩ :=
    owns.exists_object legible (by rw [key]; decide)
  have plain := (legible.normal_of_arrives arrives).mark
  rw [there, Place.owner_inDocument plain, Place.join_inDocument] at same
  have entry := owns.entry
  rw [holds] at entry
  have found : (members.lookup Builtin.additionalItems.key).isSome := by
    rcases reads.cases_of_not_limit entry nofun with ⟨json, kind, read⟩ | ⟨items, rest, mem⟩
    · exact absurd read ReadsValue.not_items
    · obtain ⟨_, _, _, same, listed⟩ := rest.cases mem
      cases same
      exact listed rfl
  obtain ⟨value, found⟩ := Option.isSome_iff_exists.1 found
  exact arrives.comes.cites legible.normal w.sound found same

/-- A check that misses a member has the place in the schema of the member that flags it. -/
theorem cites_required (owns : Owns w owner keyword loaded check) (legible : w.IsLegible)
    {schemas : List (String × ValidatorId)} {flagged : List (String × String)}
    {name place : String} (rule : check.rule = .properties schemas flagged)
    (found : flagged.lookup name = some place) :
    Cites w.documents Builtin.required.key place := by
  have key : keyword.key = Builtin.properties.key := by
    have keyed := owns.isKeyed
    rw [rule] at keyed
    exact keyed
  have knows := owns.knows
  rw [rule] at knows
  obtain ⟨named, holds, rfl⟩ := knows
  obtain ⟨schema, listed, isFlagged, same⟩ := Check.mem_flaggedNames (Members.mem_of_lookup found)
  obtain ⟨location, members, draft, arrives, there, reads⟩ :=
    owns.exists_object legible (by rw [key]; decide)
  have entry := owns.entry
  rw [holds] at entry
  rcases reads.cases_of_not_limit entry nofun with ⟨json, kind, read⟩ | ⟨items, rest, mem⟩
  · obtain ⟨part, below, place, stands⟩ := ReadsValue.exists_entry read listed
    obtain ⟨inner, rfl, flag⟩ := stands.exists_flag legible isFlagged
    obtain ⟨document, pointer⟩ := Prod.mk.inj place
    refine stands.arrives.comes.cites legible.normal w.sound flag ?_
    rw [same, there, Place.join_inDocument, document, pointer]
    unfold Location.child
    simp only [List.append_assoc, List.cons_append, List.nil_append]
  · obtain ⟨_, _, _, other, _⟩ := rest.cases mem
    cases other

theorem key_eq (owns : Owns w owner keyword loaded check) : check.key = keyword.key := by
  obtain ⟨_, isCheck, _⟩ := owns.compiled
  rw [Check.key, isCheck.named]
  rfl

/-- What a check raises is located at the keyword that it names. -/
theorem cites (owns : Owns w owner keyword loaded check) (legible : w.IsLegible)
    (raises : check.Raises node spot v) (named : v.keyword = some key) :
    Cites w.documents key v.location := by
  cases raises with
  | own complains =>
    have same : check.key = key := Option.some.inj named
    rw [← same, owns.key_eq]
    exact owns.cites_keyword legible (ordinary_of_complains owns.isKeyed complains)
  | surplus rule =>
    cases named
    exact owns.cites_additional legible rule
  | missing rule _ _ flagged =>
    cases named
    exact owns.cites_required legible rule flagged
  | forbidden rule _ _ _ =>
    have same : check.key = key := Option.some.inj named
    have keyed := owns.isKeyed
    rw [rule] at keyed
    rw [← same, owns.key_eq]
    exact owns.cites_keyword legible keyed
  | nothing => cases named

end Owns

/-- A violation of a schema that was made in a settled session is located at its keyword. -/
theorem Track.cites (legible : w.IsLegible) {root : Schema} (made : w.stock.Made root)
    {compiler : Compiler} {compiled : CompiledSchema}
    (ok : CompiledSchema.ofSchema compiler w.session.graph root = .ok compiled)
    (listed : Listed compiled.table check) (raises : check.Raises node spot v)
    (named : v.keyword = some key) : Cites w.documents key v.location := by
  have distinct := (Track.orderly_reached legible.clean made).distinct
  rcases CompiledSchema.exists_owner distinct ok listed with
    ⟨none, rule⟩ | ⟨owner, location, keyword, loaded, reaches, demanding, located, entry, isCheck⟩
  · cases raises with
    | own complains =>
      rw [rule] at complains
      exact complains.elim
    | nothing => cases named
    | surplus other | missing other | forbidden other =>
      rw [rule] at other
      cases other
  · have owns : Owns w owner keyword loaded check :=
      ⟨Track.made_reached legible.clean made reaches, demanding, entry, location, isCheck, located⟩
    exact owns.cites legible raises named

/-! ## Loading, compiling and validating -/

variable {loader : Loader} {requests : List (Document × Location)} {schemas : List Schema}
  {session : Session} {schema : Schema}

/-- A session that loaded documents without errors leaves a legible track in which the results were
made. -/
theorem exists_legible (ready : loader.IsReady) (agree : Agree contents loader requests)
    (run : (loadAll loader requests).run.run .empty = (.ok schemas, session))
    (clean : session.report.hasErrors = false)
    (normal : ∀ uri, (session.documents.lookup uri).isSome → Uri.IsNormal uri)
    (flags : (∀ uri stored, session.documents.lookup uri = some stored →
      stored.draft ≠ .draft3) ∨ Unambiguous session.documents) (mem : schema ∈ schemas) :
    ∃ w : Track contents, w.session = session ∧ w.stock.Made schema ∧ w.IsLegible := by
  have whole : ¬ session.IsBroken := by
    intro broken
    rw [broken.hasErrors] at clean
    cases clean
  obtain ⟨_, _, bound, _⟩ :=
    exists_bound_world ready (fun request listed => (agree.requested request listed).2.1) run whole
  obtain ⟨w, rfl, clean, made⟩ := exists_made ready agree run mem .refl clean
  exact ⟨w, rfl, made, clean, normal, flags.imp_right fun unambiguous =>
    ⟨clean, unambiguous, bound⟩⟩

/-- Violations are located at their keywords. In the report of a schema that was loaded without errors
every violation with a keyword has a location which is the URI of a document of the session with a
pointer to a member called as the keyword, if the URIs of the documents are normal, and if they are
unambiguous or none is of draft 3. A limit of draft 6 with an exclusive bound only is located at the
other bound, which is not there. -/
theorem loadAll_cites (ready : loader.IsReady) (agree : Agree contents loader requests)
    (run : (loadAll loader requests).run.run .empty = (.ok schemas, session))
    (clean : session.report.hasErrors = false)
    (normal : ∀ uri, (session.documents.lookup uri).isSome → Uri.IsNormal uri)
    (flags : (∀ uri stored, session.documents.lookup uri = some stored →
      stored.draft ≠ .draft3) ∨ Unambiguous session.documents) (mem : schema ∈ schemas)
    {compiler : Compiler} {compiled : CompiledSchema}
    (ok : CompiledSchema.ofSchema compiler session.graph schema = .ok compiled) {value : Json}
    {report : Report} (validated : compiled.validate value = .ok report) :
    ∀ top ∈ report.violations, ∀ v : Violation, v.Under top → ∀ key, v.keyword = some key →
      Cites session.documents key v.location := by
  obtain ⟨w, rfl, made, legible⟩ := exists_legible ready agree run clean normal flags mem
  obtain ⟨found, evaluated, rest⟩ := except_bind_ok validated
  cases rest
  intro top listed v under key named
  obtain ⟨check, node, spot, isListed, raises⟩ :=
    areRaised_evaluateWithin _ _ _ _ _ found evaluated top listed v under
      (by rw [named]; rfl)
  exact Track.cites legible made ok isListed raises named

/-! ### A bound of a member -/

namespace Bounded

/-- A document that bounds a member whose name has to be escaped, from above by itself and from below
exclusively. -/
def document : Document where
  id := ⟨0⟩
  value := .object [("properties", .object [("a/b", .object [("maximum", .number (.int 3)),
    ("exclusiveMinimum", .number (.int 1))])])]

/-- A value with a number for the member. -/
def value (n : Int) : Json :=
  .object [("a/b", .number (.int n))]

/-- A session that loads the document. -/
@[irreducible]
def loading : Except Stop (List Schema) × Session :=
  (loadAll Linked.loader [(document, Linked.root)]).run.run .empty

theorem isProper : document.value.IsProper :=
  ⟨by decide, ⟨⟨by decide, ⟨⟨by decide, trivial, trivial, trivial⟩, trivial⟩⟩, trivial⟩⟩

theorem agree : Agree (fun _ => document.value) Linked.loader [(document, Linked.root)] where
  requested := List.forall_mem_singleton.2 ⟨by decide +kernel, isProper, rfl⟩
  preloaded := nofun
  delivered _ _ _ served _ := nomatch served

/-- The one violation of a value, if there is one. -/
def violation? (schema : Schema) (value : Json) : Option Violation := do
  let compiled ← (CompiledSchema.ofSchema Loop.compiler loading.2.graph schema).toOption
  let report ← (compiled.validate value).toOption
  match report.violations with
  | [top] => some top
  | _ => none

theorem exists_report {schema : Schema} {value : Json} {top : Violation}
    (one : violation? schema value = some top) : ∃ compiled report,
      CompiledSchema.ofSchema Loop.compiler loading.2.graph schema = .ok compiled ∧
      compiled.validate value = .ok report ∧ report.violations = [top] := by
  unfold violation? at one
  obtain ⟨compiled, ok, one⟩ := Option.bind_eq_some_iff.1 one
  obtain ⟨report, validated, one⟩ := Option.bind_eq_some_iff.1 one
  refine ⟨compiled, report, toOption_ok ok, toOption_ok validated, ?_⟩
  split at one
  · next only =>
    cases one
    exact only
  · cases one

/-- The document is loaded without errors as one schema, which finds one violation of a value above
the bound. -/
theorem exists_loaded : ∃ schema top, loading.1 = .ok [schema] ∧
    loading.2.report.hasErrors = false ∧
    (∀ entry ∈ loading.2.documents, Uri.IsNormal entry.1 ∧ entry.2.draft ≠ .draft3) ∧
    violation? schema (value 7) = some top ∧
    top.location = "http://e.com/list.json#/properties/a~1b/maximum" ∧
    top.keyword = some "maximum" := by
  have ends : (loading.1.toOption.any fun schemas => schemas.length = 1 &&
      !loading.2.report.hasErrors &&
      (loading.2.documents.all fun entry => Uri.IsNormal entry.1 ∧ entry.2.draft ≠ .draft3) &&
      schemas.all fun schema => (violation? schema (value 7)).any fun top =>
        top.location = "http://e.com/list.json#/properties/a~1b/maximum" &&
          top.keyword = some "maximum") = true := by
    decide +kernel
  obtain ⟨schemas, loaded, holds⟩ := (Option.any_eq_true _ _).1 ends
  simp only [Bool.and_eq_true, Bool.not_eq_true', decide_eq_true_eq, List.all_eq_true] at holds
  obtain ⟨⟨⟨single, clean⟩, documents⟩, all⟩ := holds
  obtain ⟨schema, rfl⟩ := List.length_eq_one_iff.1 single
  obtain ⟨top, one, located⟩ := (Option.any_eq_true _ _).1 (all schema List.mem_cons_self)
  simp only [Bool.and_eq_true, decide_eq_true_eq] at located
  exact ⟨schema, top, toOption_ok loaded, clean, documents, one, located.1, located.2⟩

end Bounded

theorem bounded_cites : ∃ schema session compiled report top,
    (loadAll Linked.loader [(Bounded.document, Linked.root)]).run.run .empty =
      (.ok [schema], session) ∧
    session.report.hasErrors = false ∧
    (∀ uri, (session.documents.lookup uri).isSome → Uri.IsNormal uri) ∧
    (∀ uri stored, session.documents.lookup uri = some stored → stored.draft ≠ .draft3) ∧
    CompiledSchema.ofSchema Loop.compiler session.graph schema = .ok compiled ∧
    compiled.validate (Bounded.value 7) = .ok report ∧ report.violations = [top] ∧
    top.location = "http://e.com/list.json#/properties/a~1b/maximum" ∧
    Cites session.documents "maximum" top.location := by
  obtain ⟨schema, top, loaded, clean, documents, one, located, named⟩ := Bounded.exists_loaded
  have normal : ∀ uri, (Bounded.loading.2.documents.lookup uri).isSome → Uri.IsNormal uri := by
    intro uri known
    obtain ⟨stored, found⟩ := Option.isSome_iff_exists.1 known
    exact (documents _ (Members.mem_of_lookup found)).1
  have flags : ∀ uri stored, Bounded.loading.2.documents.lookup uri = some stored →
      stored.draft ≠ .draft3 :=
    fun _ _ found => (documents _ (Members.mem_of_lookup found)).2
  obtain ⟨compiled, report, ok, validated, only⟩ := Bounded.exists_report one
  have run : (loadAll Linked.loader [(Bounded.document, Linked.root)]).run.run .empty =
      (.ok [schema], Bounded.loading.2) := by
    have whole : Bounded.loading = (.ok [schema], Bounded.loading.2) :=
      Prod.mk.eta.symm.trans (congrArg (·, Bounded.loading.2) loaded)
    rw [← whole]
    unfold Bounded.loading
    rfl
  have mem : top ∈ report.violations := by
    rw [only]
    exact List.mem_singleton_self top
  refine ⟨schema, _, compiled, report, top, run, clean, normal, flags, ok, validated, only,
    located, ?_⟩
  exact loadAll_cites Linked.isReady Bounded.agree run clean normal (.inl flags)
    List.mem_cons_self ok validated top mem top .refl "maximum" named

/-- A value below the exclusive bound violates a keyword that the document does not have. -/
example : (Bounded.loading.1.toOption.any fun schemas =>
    schemas.all fun schema => (Bounded.violation? schema (Bounded.value 0)).any fun top =>
      top.location = "http://e.com/list.json#/properties/a~1b/minimum") = true := by
  decide +kernel

end JsonSchema.Load
