import JsonSchema.Proofs.Fetching
import JsonSchema.Proofs.Returning
import JsonSchema.Proofs.Within

/-!
# Preloaded documents

A new session has every preloaded document under its URI (`Load.lookup_opening`), and sessions only
add documents. So the target of a reference into such a document is located without the client, as
long as the reference comes to the URI that the document is kept under. It does so if it is this URI
alone, or if the URI is normal, whatever fragment stands behind it
(`Load.preloaded_located_unfetched`).

A URI that is not normal loses its spelling where a fragment is taken off: `HTTP://e.com/q.json` and
`HTTP://e.com/q.json#/definitions/a` have different bases, and only the first one is known.
-/

namespace JsonSchema

/-! ## References that are absolute -/

namespace Uri

variable {uri base text fragment : String}

/-- The scheme of a text is the one that is taken off its front. -/
theorem scheme_of_split {text : List Char} {parts : Parts} (ok : splitText text = .ok parts) :
    parts.scheme = ((takeScheme? (clean text)).getD ([], clean text)).1 := by
  generalize taken : (takeScheme? (clean text)).getD ([], clean text) = pair
  obtain ⟨scheme, rest⟩ := pair
  unfold splitText at ok
  rw [splitWith_eq taken] at ok
  obtain ⟨_, _, ok⟩ := except_bind_ok ok
  dsimp only at ok
  split at ok
  · cases ok
  · cases ok
    rfl

/-- A fragment behind an absolute URI leaves it absolute. -/
theorem isAbsolute_append (kept : ∀ c ∈ fragment.toList, isKept c = true)
    (absolute : isAbsolute uri = .ok true) {answer : Bool}
    (ok : isAbsolute (uri ++ "#" ++ fragment) = .ok answer) : answer = true := by
  obtain ⟨parts, split, some⟩ := except_bind_ok absolute
  obtain ⟨parts', split', same⟩ := except_bind_ok ok
  have some : (!parts.scheme.isEmpty) = true := Except.ok.inj some
  rw [← Except.ok.inj same]
  rw [toList_marked] at split'
  rw [scheme_of_split split] at some
  rw [scheme_of_split split', clean_append kept, takeScheme_append]
  cases taken : takeScheme? (clean uri.toList) with
  | none =>
    rw [taken] at some
    cases some
  | some both =>
    rw [taken] at some
    exact some

/-- An absolute reference resolves to its normal form, whatever the base is. -/
theorem resolve_absolute (absolute : check text = .ok ⟨⟩ →
      ∀ answer, isAbsolute text = .ok answer → answer = true)
    (ok : resolve base text = .ok uri) : check text = .ok ⟨⟩ ∧ normalize text = .ok uri := by
  unfold resolve at ok
  obtain ⟨_, checked, ok⟩ := except_bind_ok ok
  obtain ⟨answer, scheme, ok⟩ := except_bind_ok ok
  rw [absolute checked answer scheme, if_pos rfl] at ok
  exact ⟨checked, ok⟩

/-- A URI is spelled as it is kept: alone, or normal with a fragment behind it. -/
inductive Spells (uri : String) : String → Prop
  | alone : Spells uri uri
  | behind (normal : IsNormal uri) (fragment : String) : Spells uri (uri ++ "#" ++ fragment)

/-- An absolute URI that is spelled as it is kept is the base of what the reference comes to. -/
theorem Spells.split_resolved (spells : Spells uri text) (plain : '#' ∉ uri.toList)
    (absolute : isAbsolute uri = .ok true) {target : String} (ok : resolve base text = .ok target) :
    ∃ fragment, splitFragment target = .ok (uri, fragment) := by
  cases spells with
  | alone =>
    have known : ∀ answer, isAbsolute uri = .ok answer → answer = true := fun answer scheme =>
      Except.ok.inj (scheme.symm.trans absolute)
    obtain ⟨_, normal⟩ := resolve_absolute (fun _ => known) ok
    rw [normalize_split (splitFragment_plain plain)] at normal
    cases normal
    exact ⟨"", splitFragment_plain plain⟩
  | behind normal fragment =>
    have kept : check (uri ++ "#" ++ fragment) = .ok ⟨⟩ → ∀ c ∈ fragment.toList, isKept c = true := by
      intro checked c mem
      refine isKept_of_check checked ?_
      rw [String.toList_append]
      exact List.mem_append_right _ mem
    obtain ⟨checked, form⟩ :=
      resolve_absolute (fun checked _ => isAbsolute_append (kept checked) absolute) ok
    rw [normalize_split (normal.split (kept checked))] at form
    rw [← Except.ok.inj form]
    exact ⟨_, normal.split_withFragment (isKept_encodeFragment _)⟩

end Uri

namespace Load

variable {loader loader' bare : Loader} {session : Session} {uri : String}

/-! ## Preloading -/

/-- Preloading accepts an absolute URI and keeps the document under it, without its fragment. -/
theorem preload_eq {document : Document} (ok : preload loader uri document = .ok loader') :
    Uri.isAbsolute uri = .ok true ∧ ∃ key, Uri.withoutFragment uri = .ok key ∧
      loader' = { loader with preloaded := Members.put loader.preloaded key document } := by
  obtain ⟨_, _, ok⟩ := except_bind_ok ok
  obtain ⟨absolute, answered, ok⟩ := except_bind_ok ok
  split at ok
  · cases ok
  · next accepted =>
    obtain ⟨key, without, ok⟩ := except_bind_ok ok
    refine ⟨?_, key, mapError_ok without, (Except.ok.inj ok).symm⟩
    rw [mapError_ok answered]
    simpa using accepted

/-- Preloads documents one after the other. -/
def preloadAll (loader : Loader) (entries : List (String × Document)) : Except Fault Loader :=
  entries.foldlM (fun loader entry => preload loader entry.1 entry.2) loader

/-- Preloaded documents are kept under distinct URIs without fragment. -/
structure IsKeyedApart (entries : List (String × Document)) : Prop where
  distinct : (Members.keys entries).Nodup
  places : ∀ entry ∈ entries, Uri.withoutFragment entry.1 = .ok entry.1

theorem IsKeyedApart.put {entries : List (String × Document)} (apart : IsKeyedApart entries)
    {key : String} (place : Uri.withoutFragment uri = .ok key) (document : Document) :
    IsKeyedApart (Members.put entries key document) := by
  refine ⟨Members.nodup_put key document apart.distinct, fun entry mem => ?_⟩
  rcases Members.mem_put mem with rfl | old
  · exact Uri.withoutFragment_eq place
  · exact apart.places entry old

/-- Every URI that was preloaded is absolute, and its document is kept. -/
theorem preloadAll_eq {entries : List (String × Document)} (apart : IsKeyedApart loader.preloaded)
    (ok : preloadAll loader entries = .ok loader') :
    IsKeyedApart loader'.preloaded ∧
      (∀ key, (loader.preloaded.lookup key).isSome → (loader'.preloaded.lookup key).isSome) ∧
      ∀ entry ∈ entries, Uri.isAbsolute entry.1 = .ok true ∧
        ('#' ∉ entry.1.toList → (loader'.preloaded.lookup entry.1).isSome) := by
  induction entries generalizing loader with
  | nil =>
    cases ok
    exact ⟨apart, fun _ known => known, nofun⟩
  | cons first rest ih =>
    unfold preloadAll at ok
    rw [List.foldlM_cons] at ok
    obtain ⟨next, preloaded, ok⟩ := except_bind_ok ok
    obtain ⟨absolute, key, place, rfl⟩ := preload_eq preloaded
    obtain ⟨apart, stays, all⟩ := ih (apart.put place first.2) ok
    refine ⟨apart, fun other known => stays other ?_, fun entry mem => ?_⟩
    · dsimp only
      rw [Members.lookup_put]
      split
      · rfl
      · exact known
    · rcases List.mem_cons.1 mem with rfl | later
      · refine ⟨absolute, fun plain => stays _ ?_⟩
        rw [Uri.withoutFragment_of_plain plain] at place
        cases place
        dsimp only
        rw [Members.lookup_put, if_pos rfl]
        rfl
      · exact all entry later

/-! ## New sessions -/

/-- Preloading entries of distinct URIs stores them, and nothing else. -/
theorem lookup_preloaded {entries : List (String × Document)} (apart : IsKeyedApart entries)
    (absent : ∀ entry ∈ entries, session.documents.lookup entry.1 = none) (uri : String) :
    ((entries.forM fun entry => addDocument entry.1 entry.2 (draftOf loader entry.2.value) :
      Load PUnit).run.run session).2.documents.lookup uri =
        ((entries.lookup uri).map fun document =>
          { document, draft := draftOf loader document.value }).or
            (session.documents.lookup uri) := by
  induction entries generalizing session with
  | nil => rfl
  | cons first rest ih =>
    obtain ⟨key, document⟩ := first
    obtain ⟨outside, distinct⟩ := List.nodup_cons.1 apart.distinct
    have added := run_addDocument_absent (apart.places _ List.mem_cons_self)
      (absent _ List.mem_cons_self) document (draftOf loader document.value)
    change ((addDocument key document _ >>= fun _ =>
      rest.forM _).run.run session).2.documents.lookup uri = _
    rw [run_bind_ok added, ih ⟨distinct, fun entry mem => apart.places entry
      (List.mem_cons_of_mem _ mem)⟩]
    · change Option.or _ ((Members.put session.documents key _).lookup uri) = _
      rw [Members.lookup_put]
      by_cases same : uri = key
      · subst same
        rw [Members.lookup_eq_none.2 outside, List.lookup_cons_self, if_pos rfl]
        rfl
      · rw [if_neg same, List.lookup_cons, beq_eq_false_iff_ne.2 same]
    · intro entry mem
      have different : entry.1 ≠ key := fun same => outside (List.mem_map.2 ⟨entry, mem, same⟩)
      change (Members.put session.documents key _).lookup entry.1 = none
      rw [Members.lookup_put, if_neg different]
      exact absent entry (List.mem_cons_of_mem _ mem)

/-- A new session has the preloaded documents, and no others. -/
theorem lookup_opening_eq (apart : IsKeyedApart loader.preloaded) (uri : String) :
    (opening loader).documents.lookup uri = (loader.preloaded.lookup uri).map fun document =>
      { document, draft := draftOf loader document.value } :=
  (lookup_preloaded apart (fun _ _ => rfl) uri).trans (Option.or_none)

/-- A new session has the preloaded documents. -/
theorem lookup_opening (apart : IsKeyedApart loader.preloaded) {document : Document}
    (known : loader.preloaded.lookup uri = some document) :
    (opening loader).documents.lookup uri = some ⟨document, draftOf loader document.value⟩ := by
  rw [lookup_opening_eq apart, known]
  rfl

/-! ## Locating in known documents -/

theorem failAt_bind {α β : Type} {code : IssueCode} {location : Location} {problem : Problem}
    (next : α → Load β) :
    (failAt code location problem >>= next : Load β) = failAt code location problem := by
  unfold failAt fail
  simp only [bind_assoc]
  rfl

/-- The target of a reference into a known document is located without the client. -/
theorem run_locate_known {target base fragment : String} {origin : Location}
    (split : Uri.splitFragment target = .ok (base, fragment))
    (known : (session.documents.lookup base).isSome = true) :
    (locate loader target origin).run.run session =
      (if Cache.isPointerFragment fragment then do
        return (base, ← pointerOf target fragment origin)
      else do
        match ← findById target with
        | some place => return place
        | none => failAt .refUnresolvable origin (.unresolvable target none) :
        Load (String × Pointer)).run.run session := by
  have parts : (checkUri (Uri.splitFragment target)).run.run session =
      (.ok (base, fragment), session) := by
    rw [split]
    rfl
  unfold locate
  rw [run_bind_ok parts, run_bind_ok (run_document_of_place
    (Uri.withoutFragment_of_plain (Uri.mark_not_mem_split split)))]
  dsimp only
  rw [known, Bool.true_and]
  split
  · rfl
  · refine congrArg (fun next => (findById target >>= next).run.run session) (funext fun found => ?_)
    cases found with
    | some place => rfl
    | none => exact failAt_bind _

/-- Locating in a known document fetches nothing and stores nothing. A pointer leads into this
document, anything else into one that is stored. -/
theorem locate_known {target base fragment : String} {origin : Location}
    (split : Uri.splitFragment target = .ok (base, fragment))
    (known : (session.documents.lookup base).isSome = true) :
    let located := (locate loader target origin).run.run session
    located.2.fetched = session.fetched ∧ located.2.documents = session.documents ∧
      ∀ place, located.1 = .ok place → (session.documents.lookup place.1).isSome = true ∧
        (Cache.isPointerFragment fragment = true →
          place.1 = base ∧ Pointer.parseFragment fragment = .ok place.2) := by
  dsimp only
  rw [run_locate_known split known]
  split
  · have tame : IsTame (do return (base, ← pointerOf target fragment origin) :
        Load (String × Pointer)) :=
      isTame_bind (isTame_pointerOf _ _ _) (fun _ => isTame_pure _)
    refine ⟨(tame session).2.fetched, (tame session).2.documents, fun place ends => ?_⟩
    obtain ⟨pointer, s, parsed, run⟩ := run_bind_eq_ok (Prod.ext ends rfl)
    cases run
    exact ⟨known, fun _ => ⟨rfl, (run_pointerOf parsed).1⟩⟩
  · next other =>
    have tame : IsTame (do
        match ← findById target with
        | some place => return place
        | none => failAt .refUnresolvable origin (.unresolvable target none) :
        Load (String × Pointer)) := by
      refine isTame_bind (IsStep.findById target).isTame (fun found => ?_)
      split
      · exact isTame_pure _
      · exact isTame_failAt _ _ _
    refine ⟨(tame session).2.fetched, (tame session).2.documents, fun place ends => ?_⟩
    obtain ⟨found, s, searched, run⟩ := run_bind_eq_ok (Prod.ext ends rfl)
    obtain ⟨listed, _⟩ := run_findById searched
    cases found with
    | none => exact (run_failAt run).elim
    | some found =>
      cases run
      refine ⟨?_, fun way => absurd way other⟩
      obtain ⟨key, _, listed⟩ := except_bind_ok listed
      obtain ⟨parts, _, listed⟩ := except_bind_ok listed
      obtain ⟨stored, _, mem, _⟩ := findAmong_some listed
      exact isSome_lookup_iff.2 (List.mem_map_of_mem mem)

/-! ## References into preloaded documents -/

/-- The documents of a new session stay in it, whatever requests it answers. -/
theorem grows_opening (loader : Loader) (requests : List Request) :
    Grows (opening loader).documents (answering loader (opening loader) requests).documents := by
  obtain ⟨calls, history⟩ := exists_history loader (opening loader) requests
  exact history.grows

/-- No state of a session fetches for a reference to a preloaded document, if the reference spells
the URI as it was preloaded, or the URI is normal. What the reference comes to is in a stored
document, and in the preloaded one if the fragment is a pointer. -/
theorem preloaded_located_unfetched {entries : List (String × Document)}
    (bare : loader.preloaded = []) (preloads : preloadAll loader entries = .ok loader')
    (state : Grows (opening loader').documents session.documents)
    (accepted : uri ∈ Members.keys entries) (plain : '#' ∉ uri.toList) {text : String}
    (spells : Uri.Spells uri text) {scope target : String}
    (resolved : Uri.resolve scope text = .ok target) (origin : Location) :
    let located := (locate loader' target origin).run.run session
    located.2.fetched = session.fetched ∧ located.2.documents = session.documents ∧
    ∃ document fragment, loader'.preloaded.lookup uri = some document ∧
      session.documents.lookup uri = some ⟨document, draftOf loader' document.value⟩ ∧
      Uri.splitFragment target = .ok (uri, fragment) ∧
      ∀ place, located.1 = .ok place → (session.documents.lookup place.1).isSome = true ∧
        (Cache.isPointerFragment fragment = true →
          place.1 = uri ∧ Pointer.parseFragment fragment = .ok place.2) := by
  have apart : IsKeyedApart loader.preloaded := by
    rw [bare]
    exact ⟨List.nodup_nil, nofun⟩
  obtain ⟨apart, _, all⟩ := preloadAll_eq apart preloads
  obtain ⟨entry, mem, rfl⟩ := List.mem_map.1 accepted
  obtain ⟨absolute, kept⟩ := all entry mem
  obtain ⟨document, known⟩ := Option.isSome_iff_exists.1 (kept plain)
  have stored := state _ _ (lookup_opening apart known)
  obtain ⟨fragment, split⟩ := spells.split_resolved plain absolute resolved
  obtain ⟨fetched, documents, places⟩ := @locate_known loader' session _ _ _ origin split
    (Option.isSome_of_eq_some stored)
  exact ⟨fetched, documents, document, fragment, known, stored, split, places⟩

end Load

/-! ## A document of definitions -/

namespace Load.Stocked

/-- The URI of the document. -/
def uri : String := "http://e.com/q.json"

/-- A document that defines one schema. -/
def document : Document where
  id := ⟨1⟩
  value := .object [("definitions", .object [("a", .object [("type", .string "integer")])])]

/-- A session with the document preloaded, after the list was loaded. -/
def session (loader : Loader) : Session :=
  answering loader (opening loader) [⟨⟨[]⟩, Linked.document, Linked.root⟩]

end Load.Stocked

namespace Load

/-- The definition is located in the preloaded document, at any place that refers to it. -/
theorem stocked_located_unfetched : ∃ loader,
    preloadAll Linked.loader [(Stocked.uri, Stocked.document)] = .ok loader ∧
    Uri.resolve Linked.root.scope "http://e.com/q.json#/definitions/a" =
      .ok "http://e.com/q.json#/definitions/a" ∧
    ((locate loader "http://e.com/q.json#/definitions/a" Linked.root).run.run
      (Stocked.session loader)).2.fetched = (Stocked.session loader).fetched := by
  have accepted :
      (preloadAll Linked.loader [(Stocked.uri, Stocked.document)]).toOption.isSome = true := by
    decide +kernel
  obtain ⟨loader, preloads⟩ := Option.isSome_iff_exists.1 accepted
  have preloads := toOption_ok preloads
  have resolved : Uri.resolve Linked.root.scope "http://e.com/q.json#/definitions/a" =
      .ok "http://e.com/q.json#/definitions/a" := by
    decide +kernel
  have spells : Uri.Spells Stocked.uri "http://e.com/q.json#/definitions/a" :=
    .behind (by decide +kernel) "/definitions/a"
  refine ⟨loader, preloads, resolved, ?_⟩
  exact (preloaded_located_unfetched rfl preloads (grows_opening loader _) List.mem_cons_self
    (by decide) spells resolved Linked.root).1

/-- A URI whose scheme is in upper case is spelled otherwise once a fragment was taken off. -/
example : ¬ Uri.IsNormal "HTTP://e.com/q.json" := by
  decide +kernel

end Load

end JsonSchema
