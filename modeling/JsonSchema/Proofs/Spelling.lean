import JsonSchema.Location
import JsonSchema.Members
import JsonSchema.Proofs.Keys
import JsonSchema.Proofs.Ways

/-!
# Spellings of a fragment

One pointer can be written as a fragment in many ways: escapes that nothing asks for, letters of
either case in an escape, `~0` or not. `Uri.normalize` brings all of them to one text, which is the
URI of the location at that pointer (`Pointer.Spells.normalize`), and no two pointers share a text.
A pointer in turn is as good as a place in a document: `Pointer.place?` counts the children that
lead there, and different pointers that resolve come to different places.

Two things are asked for. A `~` must not stand in front of a line end, where the reader of pointers
lets it pass and the writer would escape it. And a URI whose base loses slashes in its normal form,
as `http:////[x` does, may be one that no longer splits, so that its fragment cannot be taken off
again.
-/

namespace JsonSchema

/-! ## Parts without marks -/

namespace Text

/-- The mark stands between the parts, not in them. -/
theorem mark_not_mem_split {mark : Char} {text part : List Char} (mem : part ∈ split mark text) :
    mark ∉ part := by
  induction text generalizing part with
  | nil =>
    rw [List.mem_singleton.1 mem]
    exact List.not_mem_nil
  | cons c text ih =>
    rw [split] at mem
    split at mem
    · rcases List.mem_cons.1 mem with rfl | later
      · exact List.not_mem_nil
      · exact ih later
    · next other =>
      cases parts : split mark text with
      | nil => exact absurd parts (split_ne_nil mark text)
      | cons first rest =>
        rw [parts] at mem ih
        rcases List.mem_cons.1 mem with rfl | later
        · intro inside
          rcases List.mem_cons.1 inside with same | inside
          · exact other same.symm
          · exact ih List.mem_cons_self inside
        · exact ih (List.mem_cons_of_mem _ later)

end Text

/-! ## Escapes written back -/

namespace Pointer

/-- Whether every `~` stands in front of a `0` or a `1`. -/
def isEscaped : List Char → Bool
  | [] => true
  | '~' :: '0' :: rest => isEscaped rest
  | '~' :: '1' :: rest => isEscaped rest
  | c :: rest => c ≠ '~' && isEscaped rest

theorem isEscaped_cons {c : Char} (other : c ≠ '~') (rest : List Char) :
    isEscaped (c :: rest) = isEscaped rest := by
  rw [isEscaped, decide_eq_true other, Bool.true_and]
  · exact fun _ same => absurd same other
  · exact fun _ same => absurd same other

theorem unescape_cons {c : Char} (other : c ≠ '~') (rest : List Char) :
    unescape (c :: rest) = c :: unescape rest := by
  rw [unescape]
  · exact fun _ same => absurd same other
  · exact fun _ same => absurd same other

/-- Only in front of a line end does a `~` pass that is no escape. -/
theorem isEscaped_of_valid {text : List Char} (valid : invalidEscape? text = none)
    (clear : ¬ ['~', '\n'] <:+: text) : isEscaped text = true := by
  induction text using invalidEscape?.induct with
  | case1 => rfl
  | case2 => cases valid
  | case3 rest _ => exact absurd ⟨[], rest, rfl⟩ clear
  | case4 rest _ _ => exact absurd ⟨[], rest, rfl⟩ clear
  | case5 c rest _ digit ih =>
    have later := ih (by simpa [invalidEscape?, digit] using valid)
      (fun inside => clear (inside.trans (List.suffix_append ['~', c] rest).isInfix))
    rcases digit with rfl | rfl
    · exact later
    · exact later
  | case6 c rest line other =>
    rw [invalidEscape?, if_neg other] at valid
    · cases valid
    · exact line
  | case7 c rest last _ next ih =>
    -- no pattern with a `~` in front fits
    have other : c ≠ '~' := by
      rintro rfl
      cases rest with
      | nil => exact last rfl rfl
      | cons d rest => exact next d rest rfl rfl
    rw [invalidEscape?] at valid
    · rw [isEscaped_cons other]
      exact ih valid (fun inside => clear (inside.trans (List.suffix_cons c rest).isInfix))
    · exact fun same => absurd same other
    · exact fun _ same => absurd same other
    · exact fun _ _ same => absurd same other

theorem isEscaped_append {front : List Char} (behind : List Char)
    (escaped : isEscaped (front ++ '/' :: behind) = true) :
    isEscaped front = true ∧ isEscaped behind = true := by
  induction front using isEscaped.induct with
  | case1 => exact ⟨rfl, escaped⟩
  | case2 rest ih => exact ih escaped
  | case3 rest ih => exact ih escaped
  | case4 c rest zero one ih =>
    have other : c ≠ '~' := by
      rintro rfl
      cases rest with
      | nil => exact absurd escaped (by simp [isEscaped])
      | cons d rest =>
        rw [List.cons_append, List.cons_append, isEscaped] at escaped
        · exact absurd escaped (by simp)
        · exact fun _ _ same => zero rest rfl (by rw [(List.cons.inj same).1])
        · exact fun _ _ same => one rest rfl (by rw [(List.cons.inj same).1])
    rw [List.cons_append, isEscaped_cons other] at escaped
    rw [isEscaped_cons other]
    exact ih escaped

theorem isEscaped_join {parts : List (List Char)}
    (escaped : isEscaped (Text.join '/' parts) = true) : ∀ part ∈ parts, isEscaped part = true := by
  induction parts with
  | nil => exact nofun
  | cons first rest ih =>
    cases rest with
    | nil =>
      intro part mem
      rw [List.mem_singleton.1 mem]
      exact escaped
    | cons second rest =>
      obtain ⟨front, behind⟩ := isEscaped_append (Text.join '/' (second :: rest)) escaped
      intro part mem
      rcases List.mem_cons.1 mem with rfl | later
      · exact front
      · exact ih behind part later

/-- What was read is written as it stood. -/
theorem escape_unescape {part : List Char} (escaped : isEscaped part = true)
    (clear : '/' ∉ part) : escape (unescape part) = part := by
  induction part using isEscaped.induct with
  | case1 => rfl
  | case2 rest ih =>
    have later := ih escaped (fun mem => clear (by simp [mem]))
    rw [unescape]
    change '~' :: '0' :: escape (unescape rest) = _
    rw [later]
  | case3 rest ih =>
    have later := ih escaped (fun mem => clear (by simp [mem]))
    rw [unescape]
    change '~' :: '1' :: escape (unescape rest) = _
    rw [later]
  | case4 c rest zero one ih =>
    have other : c ≠ '~' := by
      rintro rfl
      rw [isEscaped] at escaped
      · simp at escaped
      · exact zero
      · exact one
    have slash : c ≠ '/' := fun same => clear (same ▸ List.mem_cons_self)
    rw [isEscaped_cons other] at escaped
    have later := ih escaped (fun mem => clear (List.mem_cons_of_mem _ mem))
    rw [unescape_cons other]
    unfold escape at later ⊢
    rw [List.flatMap_cons, if_neg other, if_neg slash, later]
    rfl

/-- The text of segments is that of their parts, with a slash in front. -/
theorem textOf_parts {parts : List (List Char)} (some : parts ≠ [])
    (back : ∀ part ∈ parts, escape (unescape part) = part) :
    textOf (parts.map fun part => String.ofList (unescape part)) = '/' :: Text.join '/' parts := by
  induction parts with
  | nil => exact absurd rfl some
  | cons first rest ih =>
    have head := back first List.mem_cons_self
    unfold textOf at ih ⊢
    rw [List.map_cons, List.flatMap_cons, String.toList_ofList, head]
    cases rest with
    | nil => simp [Text.join]
    | cons second rest =>
      rw [ih (List.cons_ne_nil _ _) fun part mem => back part (List.mem_cons_of_mem _ mem)]
      rfl

/-- The text of a pointer that was read is the text that it was read from. -/
theorem text_of_parse {text : String} {pointer : Pointer} (ok : parse text = .ok pointer)
    (clear : ¬ ['~', '\n'] <:+: text.toList) : pointer.text = text := by
  unfold parse at ok
  split at ok
  · cases ok
  · next valid =>
    have escaped := isEscaped_of_valid valid clear
    split at ok
    · next empty =>
      cases ok
      rw [String.toList_eq_nil_iff.1 empty]
      rfl
    · next rest whole =>
      cases ok
      rw [whole, isEscaped_cons (by decide), ← Text.join_split '/' rest] at escaped
      have back : ∀ part ∈ Text.split '/' rest, escape (unescape part) = part :=
        fun part mem => escape_unescape (isEscaped_join escaped part mem)
          (Text.mark_not_mem_split mem)
      rw [Pointer.text, textOf_parts (Text.split_ne_nil '/' rest) back, Text.join_split, ← whole,
        String.ofList_toList]
    · cases ok

/-- Different pointers have different texts. -/
theorem text_inj {p q : Pointer} (same : p.text = q.text) : p = q := by
  have left := parse_text p
  rw [same, parse_text q] at left
  exact (Except.ok.inj left).symm

end Pointer

/-! ## Places in a document -/

/-- The values inside a value, one level down. -/
def Json.children : Json → List Json
  | .array items => items
  | .object members => members.map (·.2)
  | _ => []

/-- The value that is come to by taking the child of that number at each level. -/
def Json.under? (value : Json) : List Nat → Option Json
  | [] => some value
  | ordinal :: rest => value.children[ordinal]?.bind (·.under? rest)

namespace Pointer

/-- The number of the child that a segment leads to. -/
def ordinal? (value : Json) (segment : String) : Option Nat :=
  match value with
  | .object members => members.findIdx? (·.1 = segment)
  | .array items => (index? segment).filter (· < items.length)
  | _ => none

/-- The place in a document that a pointer leads to, as the number of the child at each level. -/
def place? (value : Json) : Pointer → Option (List Nat)
  | [] => some []
  | segment :: rest => do
    let ordinal ← ordinal? value segment
    let child ← value.children[ordinal]?
    return ordinal :: (← place? child rest)

variable {value child : Json} {segment other : String} {p q : Pointer}

/-- A member is found at its number. -/
theorem lookup_findIdx {members : List (String × Json)}
    (found : members.lookup segment = some child) :
    ∃ n, members.findIdx? (·.1 = segment) = some n ∧
      (members.map (·.2))[n]? = some child := by
  induction members with
  | nil => cases found
  | cons member rest ih =>
    obtain ⟨name, first⟩ := member
    rw [List.lookup_cons] at found
    by_cases same : segment = name
    · rw [beq_iff_eq.2 same] at found
      refine ⟨0, ?_, found⟩
      rw [List.findIdx?_cons, decide_eq_true same.symm]
      rfl
    · rw [beq_false_of_ne same] at found
      obtain ⟨n, number, inside⟩ := ih found
      refine ⟨n + 1, ?_, inside⟩
      rw [List.findIdx?_cons, decide_eq_false (fun h => same h.symm), number]
      rfl

/-- A segment that leads somewhere leads to one of the children. -/
theorem ordinal_of_step (ok : step value segment = .ok child) :
    ∃ n, ordinal? value segment = some n ∧ value.children[n]? = some child := by
  unfold step at ok
  split at ok
  · next members =>
    split at ok
    · next found =>
      cases ok
      exact lookup_findIdx found
    · cases ok
  · next items =>
    split at ok
    · cases ok
    · next index named =>
      split at ok
      · next inside =>
        cases ok
        have bound : index < items.length := (List.getElem?_eq_some_iff.1 inside).1
        refine ⟨index, ?_, inside⟩
        simp [ordinal?, named, bound]
      · cases ok
  · cases ok

/-- Different segments lead to different children. -/
theorem ordinal_inj {n : Nat} (left : ordinal? value segment = some n)
    (right : ordinal? value other = some n) : segment = other := by
  unfold ordinal? at left right
  split at left
  · next members =>
    obtain ⟨_, first, _⟩ := List.findIdx?_eq_some_iff_getElem.1 left
    obtain ⟨_, second, _⟩ := List.findIdx?_eq_some_iff_getElem.1 right
    exact (of_decide_eq_true first).symm.trans (of_decide_eq_true second)
  · next items =>
    obtain ⟨first, _⟩ := Option.filter_eq_some_iff.1 left
    obtain ⟨second, _⟩ := Option.filter_eq_some_iff.1 right
    exact (index_eq first).trans (index_eq second).symm
  · cases left

/-- A pointer that resolves has a place, and what it resolves to is there. -/
theorem place_of_resolve {whole : Pointer} {found : Json}
    (ok : resolveFrom whole value p = .ok found) :
    ∃ place, place? value p = some place ∧ value.under? place = some found := by
  induction p generalizing value with
  | nil =>
    cases ok
    exact ⟨[], rfl, rfl⟩
  | cons segment rest ih =>
    rw [resolveFrom] at ok
    split at ok
    · next child stepped =>
      obtain ⟨n, number, inside⟩ := ordinal_of_step stepped
      obtain ⟨place, further, there⟩ := ih ok
      refine ⟨n :: place, ?_, ?_⟩
      · simp [place?, number, inside, further]
      · simp [Json.under?, inside, there]
    · cases ok

theorem place_cons {place : List Nat} (ok : place? value (segment :: p) = some place) :
    ∃ n inner rest, place = n :: rest ∧ ordinal? value segment = some n ∧
      value.children[n]? = some inner ∧ place? inner p = some rest := by
  obtain ⟨n, number, ok⟩ := Option.bind_eq_some_iff.1 ok
  obtain ⟨inner, inside, ok⟩ := Option.bind_eq_some_iff.1 ok
  obtain ⟨rest, further, ok⟩ := Option.bind_eq_some_iff.1 ok
  exact ⟨n, inner, rest, (Option.some.inj ok).symm, number, inside, further⟩

/-- Different pointers have different places. -/
theorem place_inj {place : List Nat} (left : place? value p = some place)
    (right : place? value q = some place) : p = q := by
  induction p generalizing value q place with
  | nil =>
    cases left
    cases q with
    | nil => rfl
    | cons segment rest =>
      obtain ⟨_, _, _, same, _⟩ := place_cons right
      cases same
  | cons segment rest ih =>
    obtain ⟨n, inner, further, rfl, number, inside, below⟩ := place_cons left
    cases q with
    | nil => cases right
    | cons segment' rest' =>
      obtain ⟨n', inner', further', same, number', inside', below'⟩ := place_cons right
      cases same
      rw [inside] at inside'
      cases inside'
      rw [ordinal_inj number number', ih below below']

/-- A pointer that resolves is the only one that leads to its place. -/
theorem place_eq_iff {document found : Json} (ok : resolve document p = .ok found) :
    place? document p = place? document q ↔ p = q := by
  obtain ⟨place, there, -⟩ := place_of_resolve ok
  constructor
  · intro same
    rw [there] at same
    exact place_inj there same.symm
  · intro same
    rw [same]

end Pointer

/-! ## URIs that split -/

namespace Uri

variable {uri base fragment : String}

/-- A text that splits into the parts of a URI. -/
def Splits (uri : String) : Prop :=
  (splitText uri.toList).isOk = true

instance (uri : String) : Decidable (Splits uri) :=
  inferInstanceAs (Decidable (_ = _))

theorem parseWith_ok {text : List Char} {parts : Parts} (ok : splitWith [] text = .ok parts) :
    ∃ parsed, parseWith [] text = .ok parsed := by
  unfold parseWith
  rw [ok]
  by_cases known : schemeIn parts.scheme paramsSchemes = true
  · exact ⟨_, if_pos known⟩
  · exact ⟨_, if_neg known⟩

theorem Splits.exists_parts (splits : Splits uri) : ∃ parts, splitText uri.toList = .ok parts := by
  unfold Splits at splits
  cases whole : splitText uri.toList with
  | ok parts => exact ⟨parts, rfl⟩
  | error fault =>
    rw [whole] at splits
    cases splits

/-- Where the parts of a URI with a mark behind it can be told, the mark is taken off. -/
theorem exists_splitFragment {parts : Parts} (ok : splitWith [] (uri.toList ++ ['#']) = .ok parts) :
    ∃ both, splitFragment (uri ++ "#") = .ok both := by
  have marked : (uri ++ "#").toList = uri.toList ++ ['#'] := String.toList_append
  obtain ⟨parsed, read⟩ := parseWith_ok ok
  unfold splitFragment
  rw [marked, if_pos (List.contains_iff_mem.2 (by simp)), read]
  exact ⟨_, rfl⟩

/-- A URI that splits is taken off any fragment behind it, in a form that does not depend on the
fragment. -/
theorem Splits.splitFragment (splits : Splits uri) (plain : '#' ∉ uri.toList) :
    ∃ base, '#' ∉ base.toList ∧ ∀ fragment : String, (∀ c ∈ fragment.toList, isKept c = true) →
      Uri.splitFragment (uri ++ "#" ++ fragment) = .ok (base, fragment) := by
  obtain ⟨parts, ok⟩ := splits.exists_parts
  have nothing : ∀ c ∈ ([] : List Char), isKept c = true := nofun
  obtain ⟨both, split⟩ := exists_splitFragment (splitWith_marked plain nothing ok)
  refine ⟨both.1, mark_not_mem_split split, ?_⟩
  intro fragment kept
  rw [splitFragment_append plain kept, split]
  rfl

/-- A character that may stand in a reference stays in its text. -/
theorem isKept_of_allowed (allowed : ∀ c ∈ forbiddenCharacters, c ∉ fragment.toList) :
    ∀ c ∈ fragment.toList, isKept c = true := by
  intro c mem
  have other : ∀ blank ∈ forbiddenCharacters, c ≠ blank := by
    intro blank forbidden same
    exact allowed blank forbidden (same ▸ mem)
  have tab := other '\t' (by decide)
  have line := other '\r' (by decide)
  have feed := other '\n' (by decide)
  simp [isKept, tab, line, feed]

theorem encodeFragment_inj {a b : String} (same : encodeFragment a = encodeFragment b) : a = b := by
  rw [← decodeFragment_encode a, same, decodeFragment_encode]

/-- Behind one base, different fragments make different URIs. -/
theorem withFragment_inj {a b : String} (plain : '#' ∉ base.toList)
    (same : withFragment base a = withFragment base b) : a = b := by
  have behind : ∀ c : String, (Text.cut '#' (withFragment base c).toList).2.getD [] = c.toList := by
    intro c
    unfold withFragment
    split
    · next empty =>
      rw [Text.cut_clear plain, String.isEmpty_iff.1 empty]
      rfl
    · rw [toList_marked, Text.cut_append plain]
      rfl
  have chars : a.toList = b.toList := by
    rw [← behind a, same, behind b]
  exact String.toList_inj.1 chars

end Uri

/-! ## Spellings -/

/-- A text that stands for a pointer as the fragment of a reference. -/
structure Pointer.Spells (fragment : String) (pointer : Pointer) : Prop where
  /-- The text may stand in a reference. -/
  allowed : ∀ c ∈ Uri.forbiddenCharacters, c ∉ fragment.toList
  /-- The mark in front of the fragment is not part of it. -/
  unmarked : fragment.toList.head? ≠ some '#'
  /-- It is read as the pointer. -/
  read : Pointer.parseFragment fragment = .ok pointer
  /-- No `~` passes because it stands in front of a line end. -/
  escaped : ¬ ['~', '\n'] <:+: (Uri.decodeFragment fragment).toList

namespace Pointer

variable {uri fragment other : String} {p q : Pointer}

/-- A spelling stands for the text of the pointer. -/
theorem Spells.decode (spells : Spells fragment p) : Uri.decodeFragment fragment = p.text := by
  have whole : fragment.toList.dropWhile (· = '#') = fragment.toList := by
    cases chars : fragment.toList with
    | nil => rfl
    | cons c rest =>
      have front : c ≠ '#' := by
        rintro rfl
        exact spells.unmarked (by rw [chars]; rfl)
      simp [front]
  have read := spells.read
  unfold parseFragment at read
  rw [whole] at read
  exact (text_of_parse read spells.escaped).symm

/-- All spellings of a pointer have the same normal form. -/
theorem Spells.normalize {base : String} (spells : Spells fragment p)
    (split : Uri.splitFragment (uri ++ "#" ++ fragment) = .ok (base, fragment)) :
    Uri.normalize (uri ++ "#" ++ fragment) =
      .ok (Uri.withFragment base (Uri.encodeFragment p.text)) := by
  rw [Uri.normalize_split split, spells.decode]

/-- A pointer is read from the fragment of its location, with the mark. -/
theorem parseFragment_fragmentOf (p : Pointer) : parseFragment (Location.fragmentOf p) = .ok p := by
  have marked : (Location.fragmentOf p).toList = '#' :: (Uri.encodeFragment p.text).toList :=
    String.toList_append
  have read := parseFragment_encode p
  unfold parseFragment at read ⊢
  rw [marked, List.dropWhile_cons_of_pos (by decide)]
  exact read

end Pointer

namespace Location

variable {uri base : String} {p : Pointer}

/-- The location at a pointer has the URI that all spellings of the pointer are brought to. -/
theorem absoluteUri_root (plain : '#' ∉ uri.toList)
    (split : ∀ fragment : String, (∀ c ∈ fragment.toList, Uri.isKept c = true) →
      Uri.splitFragment (uri ++ "#" ++ fragment) = .ok (base, fragment)) :
    ∃ start, root uri = .ok start ∧
      (start.child p).absoluteUri = .ok (Uri.withFragment base (Uri.encodeFragment p.text)) := by
  have start : root uri = .ok ⟨uri, [], uri, uri, [], none⟩ := by
    unfold root
    rw [Uri.withoutFragment_of_plain plain]
    rfl
  refine ⟨_, start, ?_⟩
  have written := split (Uri.encodeFragment p.text) (Uri.isKept_encodeFragment p.text)
  change Uri.normalize (uri ++ ("#" ++ Uri.encodeFragment p.text)) = _
  rw [← String.append_assoc, Uri.normalize_split written, Uri.decodeFragment_encode]

/-- The pointer is read back from a URI whose base splits. -/
theorem read_withFragment (splits : Uri.Splits base) (plain : '#' ∉ base.toList) :
    ∃ front written,
      Uri.splitFragment (Uri.withFragment base (Uri.encodeFragment p.text)) = .ok (front, written) ∧
        Pointer.parseFragment written = .ok p := by
  have read := Pointer.parseFragment_encode p
  unfold Uri.withFragment
  split
  · next empty =>
    rw [String.isEmpty_iff.1 empty] at read
    exact ⟨base, "", Uri.splitFragment_plain plain, read⟩
  · obtain ⟨front, -, split⟩ := splits.splitFragment plain
    exact ⟨front, _, split _ (Uri.isKept_encodeFragment p.text), read⟩

end Location

namespace Pointer

/-- In front of a line end a `~` passes, and the pointer that is read is written in another way. -/
example : (parseFragment "/~%0Ax").toOption = some ["~\nx"] ∧
    Uri.normalize "r#/~%0Ax" ≠ Uri.normalize ("r" ++ Location.fragmentOf ["~\nx"]) := by
  decide +kernel

/-- A base may lose slashes until it no longer splits. -/
example : Uri.Splits "http:////[x" ∧ Uri.withoutFragment "http:////[x#" = .ok "http://[x" ∧
    ¬ Uri.Splits "http://[x" := by
  decide +kernel

end Pointer

end JsonSchema
