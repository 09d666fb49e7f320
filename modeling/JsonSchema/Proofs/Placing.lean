import JsonSchema.Proofs.Folding
import JsonSchema.Proofs.Keys

/-!
# Places of checks

A place in a document is its URI with a way as the fragment (`Place.inDocument`). Joining goes
further down and the owner of a keyword is one step up, whatever characters the segments have.

Every check of a compiled schema belongs to a keyword of a schema that the root reaches, and it stands
below the location of this schema (`CompiledSchema.exists_owner`).
-/

namespace JsonSchema

/-! ## Ways as fragments -/

theorem Uri.encodeFragment_append (front behind : String) :
    encodeFragment (front ++ behind) = encodeFragment front ++ encodeFragment behind := by
  unfold encodeFragment encode
  rw [String.toList_append, List.flatMap_append, String.ofList_append]

theorem Pointer.text_append (front behind : Pointer) :
    text (front ++ behind) = front.text ++ behind.text := by
  unfold text textOf
  rw [List.flatMap_append, String.ofList_append]

namespace Place

variable {uri : String} {way : Pointer}

/-- The place at the end of a way into a document. -/
def inDocument (uri : String) (way : Pointer) : String :=
  uri ++ "#" ++ Uri.encodeFragment way.text

theorem toList_inDocument : (inDocument uri way).toList =
    uri.toList ++ '#' :: (Uri.encodeFragment way.text).toList :=
  Uri.toList_marked uri _

/-- What is joined to a text with a mark stands behind all of it. -/
theorem join_marked (front behind : String) (segments : Pointer) :
    join (front ++ "#" ++ behind) segments =
      front ++ "#" ++ (behind ++ Uri.encodeFragment segments.text) := by
  have marked : (front ++ "#" ++ behind).toList.contains '#' = true := by
    rw [Uri.toList_marked]
    exact List.contains_iff_mem.2 (List.mem_append_right _ List.mem_cons_self)
  rw [join, if_pos marked, String.append_assoc]

/-- A text without a mark gets one. -/
theorem join_plain (plain : '#' ∉ uri.toList) (segments : Pointer) :
    join uri segments = uri ++ "#" ++ Uri.encodeFragment segments.text := by
  rw [join, if_neg fun marked => plain (List.contains_iff_mem.1 marked)]

theorem join_inDocument (segments : Pointer) :
    join (inDocument uri way) segments = inDocument uri (way ++ segments) := by
  rw [inDocument, join_marked, inDocument, Pointer.text_append, Uri.encodeFragment_append]

/-- A key becomes a place, also where it is without a fragment. -/
theorem join_withFragment (plain : '#' ∉ uri.toList) (fragment : String) (segments : Pointer) :
    join (Uri.withFragment uri fragment) segments =
      uri ++ "#" ++ (fragment ++ Uri.encodeFragment segments.text) := by
  unfold Uri.withFragment
  split
  · next empty => rw [join_plain plain, String.isEmpty_iff.1 empty, String.empty_append]
  · exact join_marked uri fragment segments

theorem slash_not_mem_encode {text : List Char} (clear : '/' ∉ text) :
    '/' ∉ Uri.encode Uri.fragmentMarks text := by
  intro mem
  rcases Uri.mem_encode mem with ⟨inside, _⟩ | percent | ⟨n, small, digit⟩
  · exact clear inside
  · exact absurd percent (by decide)
  · have others : ∀ n < 16, '/' ≠ Uri.hexDigit n := by decide
    exact others n small digit

theorem cutLast_append {front behind : List Char} (clear : '/' ∉ behind) :
    Text.cutLast? '/' (front ++ '/' :: behind) = some (front, behind) := by
  have backwards : (front ++ '/' :: behind).reverse = behind.reverse ++ '/' :: front.reverse := by
    rw [List.reverse_append, List.reverse_cons, List.append_assoc, List.singleton_append]
  unfold Text.cutLast?
  rw [backwards, Text.cut_append (fun mem => clear (List.mem_reverse.1 mem))]
  dsimp only
  rw [List.reverse_reverse, List.reverse_reverse]

/-- The last segment behind the first mark is taken off, whatever stands in front of it. -/
theorem owner_marked (plain : '#' ∉ uri.toList) (behind segment : String) :
    owner (uri ++ "#" ++ (behind ++ Uri.encodeFragment (Pointer.text [segment]))) =
      uri ++ "#" ++ behind := by
  have last : (Uri.encodeFragment (Pointer.text [segment])).toList =
      '/' :: Uri.encode Uri.fragmentMarks (Pointer.escape segment.toList) := by
    unfold Uri.encodeFragment Pointer.text Pointer.textOf Uri.encode
    rw [String.toList_ofList, String.toList_ofList, List.flatMap_singleton, List.flatMap_cons]
    rfl
  unfold owner
  rw [Uri.toList_marked, Text.cut_append plain, String.toList_append, last]
  dsimp only [Option.getD_some]
  rw [cutLast_append (slash_not_mem_encode (Pointer.slash_not_mem_escape _))]
  dsimp only
  rw [← Uri.toList_marked, String.ofList_toList]

/-- The schema of a keyword has the way without the last segment. -/
theorem owner_inDocument (plain : '#' ∉ uri.toList) (segment : String) :
    owner (inDocument uri (way ++ [segment])) = inDocument uri way := by
  rw [inDocument, Pointer.text_append, Uri.encodeFragment_append, owner_marked plain, inDocument]

/-- A place in a document with a normal URI falls apart into the URI and the way. -/
theorem split_inDocument (normal : Uri.IsNormal uri) :
    Uri.splitFragment (inDocument uri way) = .ok (uri, Uri.encodeFragment way.text) :=
  normal.split (Uri.isKept_encodeFragment _)

/-- What stands below a location whose document has a normal URI. -/
theorem join_absoluteUri {location : Location} {key : String}
    (normal : Uri.IsNormal location.documentUri) (ok : location.absoluteUri = .ok key)
    (segments : Pointer) :
    join key segments = inDocument location.documentUri (location.pointer ++ segments) := by
  unfold Location.absoluteUri Location.fragment Location.fragmentOf at ok
  rw [normal.normalize] at ok
  rw [← Except.ok.inj ok, join_withFragment normal.mark, inDocument, Pointer.text_append,
    Uri.encodeFragment_append]

end Place

/-! ## Owners of checks -/

section Owners

open Compilation

variable {compiler : Compiler} {graph : SchemaGraph} {changes : List Change} {schema : Schema}
  {location : String}

/-- The location at a place is that of the schema which has taken it. -/
theorem Compilation.Lawful.located (lawful : Lawful compiler graph changes) {i : Nat}
    {validator : Validator} (stands : (entrants changes)[i]? = some schema)
    (found : (replay changes).validators[i]? = some validator) :
    ∀ own, schema.location? = some own → own.absoluteUri = .ok validator.location := by
  induction lawful generalizing validator with
  | nil => cases found
  | @entered changes entrant place _ _ located ih =>
    rw [replay_snoc, apply, Array.getElem?_push] at found
    rw [entrants_entered] at stands
    split at found
    · next last =>
      cases found
      rw [last, size_replay, List.getElem?_concat_length] at stands
      cases stands
      exact located
    · have bound : i < (entrants changes).length := by
        rw [← size_replay]
        exact (Array.getElem?_eq_some_iff.1 found).1
      rw [List.getElem?_append_left bound] at stands
      exact ih stands found
  | @filled changes place _ _ _ _ _ _ _ ih =>
    rw [entrants_filled] at stands
    rw [replay_snoc, apply, Array.getElem?_modify] at found
    split at found
    · obtain ⟨before, there, same⟩ := Option.map_eq_some_iff.1 found
      have kept := ih stands there
      rw [← same]
      exact kept
    · exact ih stands found

/-- What a keyword gave is its check. -/
theorem Compilation.Gave.isCheckOf {keyword : Keyword} {value : KeywordValue} {check : Check}
    (gave : Gave compiler graph changes schema location keyword value (some check)) :
    Compile.IsCheckOf location keyword value check := by
  obtain ⟨depth, before, after, -, -, run⟩ := gave.run
  exact Compile.isCheckOf_checkOf _ _ _ _ _ _ _ _ _ _ run check rfl

/-- A check of a schema is the one that nothing passes, or that of one of its keywords. -/
theorem Compilation.Compiles.cases {checks : List Check} {check : Check}
    (compiles : Compiles compiler graph changes schema location checks) (mem : check ∈ checks) :
    (check.keyword = none ∧ check.rule = .nothing) ∨
    schema.isAlwaysInvalid = false ∧ ∃ keyword value, (keyword, value) ∈ schema.keywords ∧
      Compile.IsCheckOf location keyword value check := by
  cases compiles with
  | nothing =>
    rw [List.mem_singleton.1 mem]
    exact .inl ⟨rfl, rfl⟩
  | keywords demanding each =>
    obtain ⟨_, given, rfl⟩ := List.mem_filterMap.1 mem
    obtain ⟨⟨keyword, value⟩, listed, gave⟩ := exists_of_forall₂ each.flip given
    exact .inr ⟨demanding, keyword, value, listed, gave.isCheckOf⟩

/-- A check of a compiled schema is among those that a schema which the root reaches is compiled to,
at the location of this schema. -/
theorem CompiledSchema.exists_compiles {root : Schema} {compiled : CompiledSchema}
    (distinct : ∀ schema other id, root.Reaches graph schema → root.Reaches graph other →
      schema.id? = some id → other.id? = some id → schema = other)
    (ok : CompiledSchema.ofSchema compiler graph root = .ok compiled) {check : Check}
    (listed : Listed compiled.table check) :
    ∃ changes owner location checks, root.Reaches graph owner ∧
      (∀ own, owner.location? = some own → own.absoluteUri = .ok location) ∧
      Compiles compiler graph changes owner location checks ∧ check ∈ checks := by
  have separates : graph.Separates (root.Reaches graph) :=
    ⟨fun owner reached use schema used => reached.tail ⟨use, used⟩, distinct⟩
  have ends := Compile.ends_schemaWithin separates (graph.nextNode + 2)
    (Ledger.empty compiler graph (root.Reaches graph)) root "#" .refl
  unfold CompiledSchema.ofSchema at ok
  split at ok
  · next id state run =>
    cases ok
    obtain ⟨w, -, rfl, -⟩ := ends.of_ok run
    obtain ⟨i, ⟨location, checks⟩, found, mem⟩ := listed
    have bound : i < (entrants w.changes).length := by
      rw [← size_replay]
      exact (Array.getElem?_eq_some_iff.1 found).1
    have stands : (entrants w.changes)[i]? = some (entrants w.changes)[i] :=
      List.getElem?_eq_getElem bound
    cases checks with
    | none => cases mem
    | some checks =>
      exact ⟨w.changes, _, location, checks, w.members _ (List.getElem_mem bound),
        w.lawful.located stands found, w.lawful.compiled stands found, mem⟩
  · cases ok

/-- A check with a keyword belongs to a keyword of a schema that the root reaches, and stands below
the location of this schema. -/
theorem CompiledSchema.exists_owner {root : Schema} {compiled : CompiledSchema}
    (distinct : ∀ schema other id, root.Reaches graph schema → root.Reaches graph other →
      schema.id? = some id → other.id? = some id → schema = other)
    (ok : CompiledSchema.ofSchema compiler graph root = .ok compiled) {check : Check}
    (listed : Listed compiled.table check) :
    (check.keyword = none ∧ check.rule = .nothing) ∨
    ∃ owner location keyword value, root.Reaches graph owner ∧ owner.isAlwaysInvalid = false ∧
      (∀ own, owner.location? = some own → own.absoluteUri = .ok location) ∧
      (keyword, value) ∈ owner.keywords ∧ Compile.IsCheckOf location keyword value check := by
  obtain ⟨changes, owner, location, checks, reached, located, compiles, mem⟩ :=
    exists_compiles distinct ok listed
  rcases compiles.cases mem with nothing | ⟨demanding, keyword, value, entry, isCheck⟩
  · exact .inl nothing
  · exact .inr ⟨owner, location, keyword, value, reached, demanding, located, entry, isCheck⟩

end Owners

end JsonSchema
