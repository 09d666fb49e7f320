import JsonSchema.Proofs.Placing
import JsonSchema.Proofs.Spelling

/-!
# Places and locations

The place of a violation and the location of a schema are built in two ways. `Place.join` puts
escaped segments behind a text. `Location.child` keeps segments, and its URI is written anew from
all of them and brought to normal form. Both come to the same (`Location.absoluteUri_child`):
segments are escaped one by one, and the normal form leaves escaped text as it is.

The document's URI may be any that splits. If there is a mark in it, the fragment behind is decoded
and escaped once more, and the mark of the pointer becomes an escape in it; but this part does not
depend on the pointer (`Uri.normalize_fragmentOf`).
-/

namespace JsonSchema

namespace Uri

variable {uri : String}

/-! ## Escapes around a mark -/

/-- A percent sign without two digits behind it stays. -/
theorem decodeFrom_percent {a b : Char}
    (plain : ∀ x y, hexValue? a = some x → hexValue? b = some y → False) (bytes : List Nat)
    (rest : List Char) :
    decodeFrom bytes ('%' :: a :: b :: rest) =
      Text.decodeUtf8 bytes ++ '%' :: decodeFrom [] (a :: b :: rest) := by
  rw [decodeFrom]
  split
  · next x y high low => exact (plain x y high low).elim
  · rfl

/-- No escape reaches over a mark. -/
theorem decodeFrom_mark (bytes : List Nat) (text rest : List Char) :
    decodeFrom bytes (text ++ '#' :: rest) = decodeFrom bytes text ++ '#' :: decode rest := by
  have mark : hexValue? '#' = none := by decide
  fun_induction decodeFrom bytes text with
  | case1 bytes a b text x y high low ih =>
    change decodeFrom bytes ('%' :: a :: b :: (text ++ _)) = _
    rw [decodeFrom, high, low]
    exact ih
  | case2 bytes a b text plain ih =>
    change decodeFrom bytes ('%' :: a :: b :: (text ++ _)) = _
    rw [decodeFrom_percent plain, List.append_assoc]
    exact congrArg (fun rest => Text.decodeUtf8 bytes ++ '%' :: rest) ih
  | case3 bytes c text short ih =>
    have step : decodeFrom bytes (c :: (text ++ '#' :: rest)) =
        Text.decodeUtf8 bytes ++ c :: decodeFrom [] (text ++ '#' :: rest) := by
      by_cases percent : c = '%'
      · -- fewer than two characters stand between the percent sign and the mark
        subst percent
        cases text with
        | nil =>
          cases rest with
          | nil => rfl
          | cons b rest => exact decodeFrom_percent (by simp [mark]) bytes rest
        | cons a text =>
          cases text with
          | nil => exact decodeFrom_percent (by simp [mark]) bytes rest
          | cons b text => exact (short a b text rfl rfl).elim
      · exact decodeFrom_cons percent bytes _
    rw [List.cons_append, step, ih, List.append_assoc, List.cons_append]
  | case4 bytes => exact decodeFrom_cons (by decide) bytes rest

theorem decodeFragment_mark (front behind : String) :
    decodeFragment (front ++ "#" ++ behind) =
      decodeFragment front ++ "#" ++ decodeFragment behind := by
  rw [← String.toList_inj, toList_marked]
  unfold decodeFragment decode
  rw [toList_marked, String.toList_ofList, String.toList_ofList, String.toList_ofList,
    decodeFrom_mark]
  rfl

/-! ## URIs with a mark -/

/-- What is left of a fragment when it is taken off: all but tabs and line ends. -/
def kept (fragment : String) : String :=
  String.ofList (fragment.toList.filter isKept)

theorem toList_kept (fragment : String) :
    (kept fragment).toList = fragment.toList.filter isKept :=
  String.toList_ofList

theorem kept_encode (text : String) : kept (encodeFragment text) = encodeFragment text := by
  rw [← String.toList_inj, toList_kept, List.filter_eq_self.2 (isKept_encodeFragment text)]

theorem kept_mark (front behind : String) :
    kept (front ++ "#" ++ behind) = kept front ++ "#" ++ kept behind := by
  rw [← String.toList_inj, toList_kept, toList_marked, toList_marked, List.filter_append,
    List.filter_cons_of_pos (by decide), toList_kept, toList_kept]

/-- Tabs and line ends behind a mark do not count. -/
theorem splitWith_kept (front behind : List Char) :
    splitWith [] (front ++ '#' :: behind) =
      splitWith [] (front ++ '#' :: behind.filter isKept) := by
  have same : clean (front ++ '#' :: behind) = clean (front ++ '#' :: behind.filter isKept) := by
    have again : (behind.filter isKept).filter isKept = behind.filter isKept :=
      List.filter_eq_self.2 fun c mem => (List.mem_filter.1 mem).2
    unfold clean
    rw [dropWhile_append (by decide), dropWhile_append (by decide), List.filter_append,
      List.filter_append, List.filter_cons_of_pos (by decide), List.filter_cons_of_pos (by decide)]
    exact congrArg (fun rest => _ ++ '#' :: rest) again.symm
  unfold splitWith
  rw [same]

theorem splitFragment_marked (plain : '#' ∉ uri.toList) (fragment : String) :
    splitFragment (uri ++ "#" ++ fragment) =
      (splitFragment (uri ++ "#")).map fun both => (both.1, kept fragment) := by
  have contains : ∀ fragment, (uri ++ "#" ++ fragment).toList.contains '#' = true := by
    intro fragment
    rw [toList_marked]
    exact List.contains_iff_mem.2 (List.mem_append_right _ List.mem_cons_self)
  have same : splitFragment (uri ++ "#" ++ fragment) =
      splitFragment (uri ++ "#" ++ kept fragment) := by
    unfold splitFragment parseWith
    rw [contains, contains, if_pos rfl, if_pos rfl, toList_marked, toList_marked, toList_kept,
      splitWith_kept]
  rw [same, splitFragment_append plain]
  intro c mem
  rw [toList_kept] at mem
  exact (List.mem_filter.1 mem).2

theorem withoutFragment_marked (plain : '#' ∉ uri.toList) (fragment : String) :
    withoutFragment (uri ++ "#" ++ fragment) = withoutFragment (uri ++ "#") := by
  unfold withoutFragment
  rw [splitFragment_marked plain]
  cases splitFragment (uri ++ "#") with
  | error fault => rfl
  | ok both => rfl

theorem normalize_marked (plain : '#' ∉ uri.toList) (fragment : String) :
    normalize (uri ++ "#" ++ fragment) =
      (withoutFragment (uri ++ "#")).map fun base =>
        withFragment base (encodeFragment (decodeFragment (kept fragment))) := by
  unfold normalize withoutFragment
  rw [splitFragment_marked plain]
  cases splitFragment (uri ++ "#") with
  | error fault => rfl
  | ok both => rfl

theorem mark_not_mem_withoutFragment {base : String} (ok : withoutFragment uri = .ok base) :
    '#' ∉ base.toList := by
  obtain ⟨both, split, same⟩ := except_bind_ok ok
  cases same
  exact mark_not_mem_split split

theorem withFragment_of_ne {fragment : String} (some : fragment ≠ "") :
    withFragment uri fragment = uri ++ "#" ++ fragment :=
  if_neg fun empty => some (String.isEmpty_iff.1 empty)

/-- A URI has no mark, or falls apart at the first one. -/
theorem mark_cases (uri : String) :
    '#' ∉ uri.toList ∨
      ∃ front behind, '#' ∉ front.toList ∧ uri = front ++ "#" ++ behind := by
  by_cases mark : '#' ∈ uri.toList
  · obtain ⟨front, behind, whole, plain⟩ := List.eq_append_cons_of_mem mark
    refine .inr ⟨.ofList front, .ofList behind, ?_, ?_⟩
    · rwa [String.toList_ofList]
    · rw [← String.toList_inj, toList_marked, String.toList_ofList, String.toList_ofList, whole]
  · exact .inl mark

/-- In the normal form of the URIs of a document every pointer stands behind the same text. -/
theorem normalize_fragmentOf (uri : String) :
    ∃ lead, ∀ pointer, normalize (uri ++ Location.fragmentOf pointer) =
      (withoutFragment (uri ++ "#")).map fun base =>
        withFragment base (lead ++ encodeFragment pointer.text) := by
  unfold Location.fragmentOf
  rcases mark_cases uri with plain | ⟨front, behind, plain, rfl⟩
  · refine ⟨"", fun pointer => ?_⟩
    rw [← String.append_assoc, normalize_marked plain, kept_encode, decodeFragment_encode,
      String.empty_append]
  · refine ⟨encodeFragment (decodeFragment (kept behind) ++ "#"), fun pointer => ?_⟩
    have bare : withoutFragment (front ++ "#" ++ behind ++ "#") =
        withoutFragment (front ++ "#") := by
      rw [String.append_assoc, withoutFragment_marked plain]
    have whole : front ++ "#" ++ behind ++ ("#" ++ encodeFragment pointer.text) =
        front ++ "#" ++ (behind ++ "#" ++ encodeFragment pointer.text) := by
      simp only [String.append_assoc]
    rw [bare, whole, normalize_marked plain, kept_mark, kept_encode, decodeFragment_mark,
      decodeFragment_encode, encodeFragment_append]

/-- A URI that splits still does when a mark is put behind it. -/
theorem Splits.withoutFragment (splits : Splits uri) :
    ∃ base, Uri.withoutFragment (uri ++ "#") = .ok base := by
  rcases mark_cases uri with plain | ⟨front, behind, plain, rfl⟩
  · obtain ⟨base, -, split⟩ := splits.splitFragment plain
    refine ⟨base, ?_⟩
    have bare := split "" nofun
    rw [String.append_empty] at bare
    unfold Uri.withoutFragment
    rw [bare]
    rfl
  · obtain ⟨parts, ok⟩ := splits.exists_parts
    unfold splitText at ok
    rw [toList_marked, splitWith_kept,
      splitWith_append plain fun c mem => (List.mem_filter.1 mem).2] at ok
    cases bare : splitWith [] (front.toList ++ ['#']) with
    | error fault =>
      rw [bare] at ok
      cases ok
    | ok parts =>
      obtain ⟨both, split⟩ := exists_splitFragment bare
      refine ⟨both.1, ?_⟩
      rw [String.append_assoc, withoutFragment_marked plain]
      unfold Uri.withoutFragment
      rw [split]
      rfl

end Uri

/-! ## Locations further down -/

namespace Location

/-- The URI of a location further down is that of the location with the segments joined to it. -/
theorem absoluteUri_child (location : Location) {segments : Pointer} (some : segments ≠ []) :
    (location.child segments).absoluteUri =
      location.absoluteUri.map (Place.join · segments) := by
  obtain ⟨lead, written⟩ := Uri.normalize_fragmentOf location.documentUri
  change Uri.normalize (location.documentUri ++ fragmentOf (location.pointer ++ segments)) =
    (Uri.normalize (location.documentUri ++ fragmentOf location.pointer)).map _
  rw [written, written]
  cases taken : Uri.withoutFragment (location.documentUri ++ "#") with
  | error fault => rfl
  | ok base =>
    have plain : '#' ∉ base.toList := Uri.mark_not_mem_withoutFragment taken
    change Except.ok (Uri.withFragment base (lead ++ Uri.encodeFragment _)) =
      Except.ok (Place.join (Uri.withFragment base (lead ++ Uri.encodeFragment _)) segments)
    rw [Place.join_withFragment plain, Pointer.text_append, Uri.encodeFragment_append,
      ← String.append_assoc, Uri.withFragment_of_ne]
    intro empty
    have last : Uri.encodeFragment segments.text = "" := (String.append_eq_empty_iff.1 empty).2
    rcases Pointer.encodeFragment_text segments with ⟨-, none⟩ | ⟨rest, start⟩
    · exact some none
    · rw [last] at start
      cases start

theorem exists_absoluteUri {location : Location} (splits : Uri.Splits location.documentUri) :
    ∃ uri, location.absoluteUri = .ok uri := by
  obtain ⟨lead, written⟩ := Uri.normalize_fragmentOf location.documentUri
  obtain ⟨base, taken⟩ := splits.withoutFragment
  have whole := written location.pointer
  rw [taken] at whole
  exact ⟨_, whole⟩

end Location

/-! ## Places one after the other -/

namespace Place

/-- Segments may be joined one after the other. -/
theorem join_join (base : String) (front behind : Pointer) :
    join (join base front) behind = join base (front ++ behind) := by
  rcases Uri.mark_cases base with plain | ⟨start, fragment, plain, rfl⟩
  · rw [join_plain plain, join_plain plain, join_marked, Pointer.text_append,
      Uri.encodeFragment_append]
  · rw [join_marked, join_marked, join_marked, Pointer.text_append, Uri.encodeFragment_append]
    exact congrArg (fun rest => start ++ "#" ++ rest) (String.append_assoc ..)

/-- The owner of a keyword is where the keyword was joined to, with a mark. -/
theorem owner_join (base key : String) : owner (join base [key]) = join base [] := by
  rcases Uri.mark_cases base with plain | ⟨start, fragment, plain, rfl⟩
  · have bare := owner_marked plain "" key
    rw [String.empty_append] at bare
    rw [join_plain plain, join_plain plain, bare]
    rfl
  · rw [join_marked, join_marked, owner_marked plain]
    exact congrArg (fun rest => start ++ "#" ++ rest) String.append_empty.symm

/-- A location in a document whose URI has a mark, a line end and half an escape. -/
def crooked : Location where
  documentUri := "HTTP://e.com/r.json?#a\n%4"
  pointer := ["1", "~/%é"]
  scope := "http://e.com/r.json"
  idBase := "http://e.com/r.json"
  idPointer := []
  declaredId := none

end Place

end JsonSchema
