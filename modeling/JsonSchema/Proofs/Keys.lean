import JsonSchema.Loading.Cache
import JsonSchema.Proofs.Escapes
import JsonSchema.Proofs.Fragment

/-!
# URIs as keys

A URI is normal if taking its fragment off and putting it together again changes nothing
(`Uri.IsNormal`). A key that is made of a normal URI and a pointer falls apart into just these two
(`Location.split_fragmentOf`), and a key in normal form keeps its fragment (`Uri.normalize_split`).
URIs such as `http:////x`, which lose slashes when they are put together, are not normal.
-/

namespace JsonSchema

/-! ## Texts with a mark behind them -/

namespace Text

theorem cut_append {mark : Char} {text : List Char} (clear : mark ∉ text) (rest : List Char) :
    cut mark (text ++ mark :: rest) = (text, some rest) := by
  induction text with
  | nil => exact if_pos rfl
  | cons c text ih =>
    have other : c ≠ mark := fun same => clear (same ▸ List.mem_cons_self)
    rw [List.cons_append, cut, if_neg other, ih (fun mem => clear (List.mem_cons_of_mem _ mem))]

/-- A cut at a mark inside the text leaves what stands behind the text. -/
theorem cut_append_of_mem {mark : Char} {text : List Char} (mem : mark ∈ text)
    (rest : List Char) :
    ∃ before behind, cut mark text = (before, some behind) ∧
      cut mark (text ++ rest) = (before, some (behind ++ rest)) := by
  induction text with
  | nil => exact absurd mem List.not_mem_nil
  | cons c text ih =>
    rw [List.cons_append, cut, cut]
    split
    · exact ⟨_, _, rfl, rfl⟩
    · next other =>
      rcases List.mem_cons.1 mem with same | later
      · exact absurd same.symm other
      · obtain ⟨before, behind, short, long⟩ := ih later
        rw [short, long]
        exact ⟨_, _, rfl, rfl⟩

theorem cut_clear {mark : Char} {text : List Char} (clear : mark ∉ text) :
    cut mark text = (text, none) := by
  induction text with
  | nil => rfl
  | cons c text ih =>
    have other : c ≠ mark := fun same => clear (same ▸ List.mem_cons_self)
    rw [cut, if_neg other, ih (fun mem => clear (List.mem_cons_of_mem _ mem))]

/-- A cut behind another character leaves this one in front. -/
theorem mem_cut_append {mark c : Char} {front : List Char} (clear : mark ∉ front)
    (other : c ≠ mark) (rest : List Char) : c ∈ (cut mark (front ++ c :: rest)).1 := by
  induction front with
  | nil =>
    rw [List.nil_append, cut, if_neg other]
    exact List.mem_cons_self
  | cons d front ih =>
    have different : d ≠ mark := fun same => clear (same ▸ List.mem_cons_self)
    rw [List.cons_append, cut, if_neg different]
    exact List.mem_cons_of_mem _ (ih (fun mem => clear (List.mem_cons_of_mem _ mem)))

end Text

namespace Uri

variable {uri base fragment key : String} {front behind : List Char}

/-! ## Parts of a URI with a fragment -/

/-- The parts with another fragment. -/
def Parts.withFragment (parts : Parts) (fragment : List Char) : Parts :=
  { parts with fragment }

theorem takeWhile_append {p : Char → Bool} {c : Char} (stop : p c = false)
    (text rest : List Char) : (text ++ c :: rest).takeWhile p = text.takeWhile p := by
  induction text with
  | nil => exact List.takeWhile_cons_of_neg (by rw [stop]; decide)
  | cons d text ih =>
    rw [List.cons_append, List.takeWhile_cons, List.takeWhile_cons, ih]

theorem dropWhile_append {p : Char → Bool} {c : Char} (stop : p c = false)
    (text rest : List Char) : (text ++ c :: rest).dropWhile p = text.dropWhile p ++ c :: rest := by
  induction text with
  | nil => exact List.dropWhile_cons_of_neg (by rw [stop]; decide)
  | cons d text ih =>
    rw [List.cons_append, List.dropWhile_cons, List.dropWhile_cons, ih]
    split <;> rfl

/-- Characters that `clean` leaves in the text of a URI. -/
def isKept (c : Char) : Bool :=
  c ≠ '\t' && c ≠ '\r' && c ≠ '\n'

theorem clean_append (kept : ∀ c ∈ behind, isKept c = true) :
    clean (front ++ '#' :: behind) = clean front ++ '#' :: behind := by
  have all : behind.filter isKept = behind := List.filter_eq_self.2 kept
  unfold clean
  rw [dropWhile_append (by decide), List.filter_append, List.filter_cons_of_pos (by decide)]
  exact congrArg (fun rest => _ ++ '#' :: rest) all

theorem takeScheme_append :
    takeScheme? (front ++ '#' :: behind) =
      (takeScheme? front).map fun (scheme, rest) => (scheme, rest ++ '#' :: behind) := by
  by_cases mem : ':' ∈ front
  · obtain ⟨before, after, short, long⟩ := Text.cut_append_of_mem mem ('#' :: behind)
    unfold takeScheme?
    rw [short, long]
    cases before with
    | nil => rfl
    | cons c scheme =>
      dsimp only
      split <;> rfl
  · have whole : takeScheme? front = none := by
      unfold takeScheme?
      rw [Text.cut_clear mem]
      cases front <;> rfl
    have mark := Text.mem_cut_append (c := '#') mem (by decide) behind
    rw [whole]
    unfold takeScheme?
    split
    · next c scheme rest parts =>
      rw [parts] at mark
      rw [if_neg]
      · rfl
      · intro good
        rw [Bool.and_eq_true] at good
        rcases List.mem_cons.1 mark with same | later
        · rw [← same] at good
          exact absurd good.1 (by decide)
        · exact absurd (List.all_eq_true.1 good.2 '#' later) (by decide)
    · rfl

/-- The authority that a text without scheme begins with, and what stands behind it. -/
def takeAuthority (text : List Char) : List Char × List Char :=
  match text with
  | '/' :: '/' :: rest => (rest.takeWhile (!endsAuthority ·), rest.dropWhile (!endsAuthority ·))
  | _ => ([], text)

theorem takeAuthority_append (text behind : List Char) :
    takeAuthority (text ++ '#' :: behind) =
      ((takeAuthority text).1, (takeAuthority text).2 ++ '#' :: behind) := by
  by_cases slashes : ∃ rest, text = '/' :: '/' :: rest
  · obtain ⟨rest, rfl⟩ := slashes
    change (List.takeWhile _ (rest ++ _), List.dropWhile _ (rest ++ _)) = _
    rw [takeWhile_append (by decide), dropWhile_append (by decide)]
    rfl
  · have none : ∀ text : List Char, (¬ ∃ rest, text = '/' :: '/' :: rest) →
        takeAuthority text = ([], text) := by
      intro text other
      unfold takeAuthority
      split
      · exact absurd ⟨_, rfl⟩ other
      · rfl
    rw [none text slashes]
    refine none _ ?_
    rintro ⟨rest, same⟩
    cases text with
    | nil => cases same
    | cons c text =>
      cases text with
      | nil =>
        cases same
      | cons d text =>
        cases same
        exact slashes ⟨_, rfl⟩

/-- The parts of a URI behind its scheme, of which the authority was taken off. -/
def splitRest (scheme authority rest : List Char) : Except UriFault Parts := do
  checkAuthority authority
  let (rest, fragment) := Text.cut '#' rest
  let (path, query) := Text.cut '?' rest
  if authority.any fun c => delimiterLookalikes.contains c.toNat then
    throw (.misleadingAuthority (String.ofList authority))
  return {
    scheme, authority, path, params := [], query := query.getD [], fragment := fragment.getD [] }

theorem splitWith_eq {text scheme rest : List Char}
    (taken : (takeScheme? (clean text)).getD ([], clean text) = (scheme, rest)) :
    splitWith [] text = splitRest scheme (takeAuthority rest).1 (takeAuthority rest).2 := by
  unfold splitWith
  rw [taken]
  rfl

theorem splitRest_append (scheme authority : List Char) {rest : List Char} (clear : '#' ∉ rest)
    (behind : List Char) :
    splitRest scheme authority (rest ++ '#' :: behind) =
      (splitRest scheme authority (rest ++ ['#'])).map (·.withFragment behind) := by
  unfold splitRest
  rw [Text.cut_append clear, Text.cut_append clear]
  dsimp only
  cases checkAuthority authority with
  | error fault => rfl
  | ok _ =>
    change (if _ then _ else _) = Except.map _ (if _ then _ else _)
    split <;> rfl

/-- A scheme is taken off a text whatever stands behind its mark. -/
theorem takeScheme_marked (clear : '#' ∉ front) :
    ∃ scheme rest, '#' ∉ rest ∧
      (takeScheme? (clean front)).getD ([], clean front) = (scheme, rest) ∧
      ∀ behind, (∀ c ∈ behind, isKept c = true) →
        (takeScheme? (clean (front ++ '#' :: behind))).getD
          ([], clean (front ++ '#' :: behind)) = (scheme, rest ++ '#' :: behind) := by
  have outside : '#' ∉ clean front := fun mem =>
    clear (List.dropWhile_subset _ (List.mem_of_mem_filter mem))
  cases taken : takeScheme? (clean front) with
  | none =>
    refine ⟨[], clean front, outside, rfl, ?_⟩
    intro behind kept
    rw [clean_append kept, takeScheme_append, taken]
    rfl
  | some both =>
    refine ⟨both.1, both.2, fun mem => outside (mem_takeScheme taken mem), rfl, ?_⟩
    intro behind kept
    rw [clean_append kept, takeScheme_append, taken]
    rfl

theorem mem_takeAuthority {text : List Char} {c : Char} (mem : c ∈ (takeAuthority text).2) :
    c ∈ text := by
  unfold takeAuthority at mem
  split at mem
  · exact List.mem_cons_of_mem _ (List.mem_cons_of_mem _ (List.dropWhile_subset _ mem))
  · exact mem

/-- What stands in front of the mark is split in the same way whatever the fragment is. -/
theorem splitWith_append (clear : '#' ∉ front) (kept : ∀ c ∈ behind, isKept c = true) :
    splitWith [] (front ++ '#' :: behind) =
      (splitWith [] (front ++ ['#'])).map (·.withFragment behind) := by
  obtain ⟨scheme, rest, plain, -, whole⟩ := takeScheme_marked clear
  have inside : '#' ∉ (takeAuthority rest).2 := fun mem => plain (mem_takeAuthority mem)
  rw [splitWith_eq (whole behind kept), splitWith_eq (whole [] nofun), takeAuthority_append,
    takeAuthority_append, splitRest_append _ _ inside]

/-- A text that splits without a mark splits with any fragment behind it. -/
theorem splitWith_marked (clear : '#' ∉ front) (kept : ∀ c ∈ behind, isKept c = true)
    {parts : Parts} (split : splitWith [] front = .ok parts) :
    splitWith [] (front ++ '#' :: behind) = .ok (parts.withFragment behind) := by
  obtain ⟨scheme, rest, plain, alone, whole⟩ := takeScheme_marked clear
  have inside : '#' ∉ (takeAuthority rest).2 := fun mem => plain (mem_takeAuthority mem)
  rw [splitWith_eq alone] at split
  rw [splitWith_eq (whole behind kept), takeAuthority_append]
  unfold splitRest at split ⊢
  obtain ⟨checked, valid, split⟩ := except_bind_ok split
  rw [Text.cut_clear inside] at split
  rw [valid, Text.cut_append inside]
  change (if _ then _ else _) = _ at split
  change (if _ then _ else _) = _
  split at split
  · cases split
  · next usual =>
    rw [if_neg usual]
    cases split
    rfl

theorem parseWith_append (clear : '#' ∉ front) (kept : ∀ c ∈ behind, isKept c = true) :
    parseWith [] (front ++ '#' :: behind) =
      (parseWith [] (front ++ ['#'])).map (·.withFragment behind) := by
  unfold parseWith
  rw [splitWith_append clear kept]
  cases splitWith [] (front ++ ['#']) with
  | error fault => rfl
  | ok parts =>
    change (if schemeIn parts.scheme paramsSchemes = true then _ else _) =
      Except.map _ (if schemeIn parts.scheme paramsSchemes = true then _ else _)
    by_cases known : schemeIn parts.scheme paramsSchemes = true
    · rw [if_pos known, if_pos known]
      rfl
    · rw [if_neg known, if_neg known]
      rfl

/-! ## Normal URIs -/

/-- A URI that is the same after its fragment was taken off. -/
def IsNormal (uri : String) : Prop :=
  splitFragment (uri ++ "#") = .ok (uri, "")

instance (uri : String) : Decidable (IsNormal uri) :=
  inferInstanceAs (Decidable (_ = _))

theorem mark_not_mem_split (split : splitFragment uri = .ok (base, fragment)) :
    '#' ∉ base.toList := by
  unfold splitFragment at split
  split at split
  · obtain ⟨parts, parsed, same⟩ := except_bind_ok split
    cases same
    rw [String.toList_ofList]
    exact (parseWith_plain parsed).mark
  · next plain =>
    cases split
    exact fun mark => plain (List.contains_iff_mem.2 mark)

theorem IsNormal.mark (normal : IsNormal uri) : '#' ∉ uri.toList :=
  mark_not_mem_split normal

theorem splitFragment_plain (plain : '#' ∉ uri.toList) : splitFragment uri = .ok (uri, "") := by
  unfold splitFragment
  rw [if_neg (fun mark => plain (List.contains_iff_mem.1 mark))]
  rfl

theorem IsNormal.withoutFragment (normal : IsNormal uri) : withoutFragment uri = .ok uri :=
  withoutFragment_of_plain normal.mark

theorem toList_marked (uri fragment : String) :
    (uri ++ "#" ++ fragment).toList = uri.toList ++ '#' :: fragment.toList := by
  rw [String.toList_append, String.toList_append, List.append_assoc]
  rfl

/-- What is in front of the mark does not depend on the fragment. -/
theorem splitFragment_append (plain : '#' ∉ uri.toList)
    (kept : ∀ c ∈ fragment.toList, isKept c = true) :
    splitFragment (uri ++ "#" ++ fragment) =
      (splitFragment (uri ++ "#")).map fun both => (both.1, fragment) := by
  have bare : (uri ++ "#").toList = uri.toList ++ ['#'] := String.toList_append
  have contains : ∀ rest, (uri.toList ++ '#' :: rest).contains '#' = true := fun rest =>
    List.contains_iff_mem.2 (List.mem_append_right _ List.mem_cons_self)
  unfold splitFragment
  rw [toList_marked, bare, contains, contains, if_pos rfl, if_pos rfl, parseWith_append plain kept]
  cases parseWith [] (uri.toList ++ ['#']) with
  | error fault => rfl
  | ok parts =>
    change Except.ok (String.ofList (Parts.text { parts with fragment := [] }),
      String.ofList fragment.toList) = _
    rw [String.ofList_toList]
    rfl

/-- A normal URI with a fragment behind it falls apart into the two. -/
theorem IsNormal.split (normal : IsNormal uri) (kept : ∀ c ∈ fragment.toList, isKept c = true) :
    splitFragment (uri ++ "#" ++ fragment) = .ok (uri, fragment) := by
  rw [splitFragment_append normal.mark kept, normal]
  rfl

/-! ## Normal forms -/

theorem isKept_hexDigit {n : Nat} (small : n < 16) : isKept (hexDigit n) = true := by
  have all : ∀ n < 16, isKept (hexDigit n) = true := by decide
  exact all n small

theorem isKept_of_unreserved {c : Char} (unreserved : isUnreserved c = true) :
    isKept c = true := by
  have other : c ≠ '\t' ∧ c ≠ '\r' ∧ c ≠ '\n' := by
    refine ⟨?_, ?_, ?_⟩ <;> rintro rfl <;> exact absurd unreserved (by decide)
  simp [isKept, other]

/-- A character of escaped text is one of the text that may stay, or belongs to an escape. -/
theorem mem_encode {safe text : List Char} {c : Char} (mem : c ∈ encode safe text) :
    (c ∈ text ∧ (isUnreserved c = true ∨ c ∈ safe)) ∨ c = '%' ∨ ∃ n < 16, c = hexDigit n := by
  obtain ⟨d, source, inside⟩ := List.mem_flatMap.1 mem
  split at inside
  · next plain =>
    rw [← List.mem_singleton.1 inside] at plain source
    exact .inl ⟨source, (Bool.or_eq_true_iff.1 plain).imp_right List.contains_iff_mem.1⟩
  · obtain ⟨byte, listed, escaped⟩ := List.mem_flatMap.1 inside
    have small := Text.utf8Bytes_lt listed
    rcases List.mem_cons.1 escaped with same | escaped
    · exact .inr (.inl same)
    · rcases List.mem_cons.1 escaped with same | escaped
      · exact .inr (.inr ⟨_, by omega, same⟩)
      · exact .inr (.inr ⟨_, by omega, List.mem_singleton.1 escaped⟩)

theorem isKept_encode {safe text : List Char} (kept : ∀ c ∈ safe, isKept c = true) {c : Char}
    (mem : c ∈ encode safe text) : isKept c = true := by
  rcases mem_encode mem with ⟨_, unreserved | mark⟩ | rfl | ⟨n, small, rfl⟩
  · exact isKept_of_unreserved unreserved
  · exact kept c mark
  · rfl
  · exact isKept_hexDigit small

theorem isKept_encodeFragment (text : String) :
    ∀ c ∈ (encodeFragment text).toList, isKept c = true := by
  intro c mem
  unfold encodeFragment at mem
  rw [String.toList_ofList] at mem
  have safe : fragmentMarks.all isKept = true := by decide +kernel
  exact isKept_encode (List.all_eq_true.1 safe) mem

/-- A normal URI with an escaped fragment falls apart into the two. -/
theorem IsNormal.split_withFragment (normal : IsNormal base)
    (kept : ∀ c ∈ fragment.toList, isKept c = true) :
    splitFragment (withFragment base fragment) = .ok (base, fragment) := by
  unfold withFragment
  split
  · next empty =>
    rw [String.isEmpty_iff.1 empty]
    exact splitFragment_plain normal.mark
  · exact normal.split kept

theorem normalize_split (split : splitFragment uri = .ok (base, fragment)) :
    normalize uri = .ok (withFragment base (encodeFragment (decodeFragment fragment))) := by
  unfold normalize
  rw [split]
  rfl

theorem IsNormal.normalize (normal : IsNormal base) (text : String) :
    normalize (base ++ ("#" ++ encodeFragment text)) =
      .ok (withFragment base (encodeFragment text)) := by
  have split := normal.split (isKept_encodeFragment text)
  rw [String.append_assoc] at split
  rw [normalize_split split, decodeFragment_encode]

/-- A URI in normal form is without a fragment, or its fragment is escaped text. -/
theorem split_normalized {source : String} (ok : normalize source = .ok uri)
    (split : splitFragment uri = .ok (base, fragment)) :
    base = uri ∧ fragment = "" ∨
      ∃ text, fragment = encodeFragment text ∧ fragment.isEmpty = false := by
  unfold normalize at ok
  obtain ⟨⟨front, text⟩, first, same⟩ := except_bind_ok ok
  have plain := mark_not_mem_split first
  have same : withFragment front (encodeFragment (decodeFragment text)) = uri :=
    Except.ok.inj same
  generalize decodeFragment text = text at same
  subst same
  unfold withFragment at split ⊢
  split at split
  · next empty =>
    rw [splitFragment_plain plain] at split
    obtain ⟨same, none⟩ := Prod.mk.inj (Except.ok.inj split)
    rw [if_pos empty]
    exact .inl ⟨same.symm, none.symm⟩
  · next nonempty =>
    rw [splitFragment_append plain (isKept_encodeFragment text)] at split
    cases whole : splitFragment (front ++ "#") with
    | error fault =>
      rw [whole] at split
      cases split
    | ok both =>
      rw [whole] at split
      rw [← (Prod.mk.inj (Except.ok.inj split)).2]
      exact .inr ⟨text, rfl, Bool.eq_false_iff.2 nonempty⟩

/-- The fragment of a URI in normal form is escaped just as far as needed. -/
theorem encode_decode_fragment {source : String} (ok : normalize source = .ok uri)
    (split : splitFragment uri = .ok (base, fragment)) :
    encodeFragment (decodeFragment fragment) = fragment := by
  rcases split_normalized ok split with ⟨_, rfl⟩ | ⟨text, rfl, _⟩
  · decide
  · rw [decodeFragment_encode]

/-- What a reference resolves to is in normal form. -/
theorem resolve_normalize {reference : String} (ok : resolve base reference = .ok uri) :
    ∃ source, normalize source = .ok uri := by
  unfold resolve at ok
  obtain ⟨_, _, ok⟩ := except_bind_ok ok
  obtain ⟨absolute, _, ok⟩ := except_bind_ok ok
  split at ok
  · exact ⟨_, ok⟩
  · split at ok
    · obtain ⟨_, _, ok⟩ := except_bind_ok ok
      exact ⟨_, ok⟩
    · obtain ⟨_, _, ok⟩ := except_bind_ok ok
      dsimp only at ok
      split at ok
      · cases ok
      · obtain ⟨_, _, ok⟩ := except_bind_ok ok
        exact ⟨_, ok⟩

end Uri

/-! ## Keys of pointers -/

namespace Location

variable {location : Location} {base key : String} {pointer : Pointer}

/-- A key of a location is one of its three URIs. -/
theorem cacheKeys_cases {keys : List String} (ok : location.cacheKeys = .ok keys)
    (mem : key ∈ keys) :
    location.absoluteUri = .ok key ∨ location.canonicalUri = .ok key ∨
      location.identifierUri = .ok key := by
  unfold cacheKeys at ok
  obtain ⟨first, firstOk, ok⟩ := except_bind_ok ok
  obtain ⟨second, secondOk, ok⟩ := except_bind_ok ok
  obtain ⟨third, thirdOk, ok⟩ := except_bind_ok ok
  have pair : ∀ key ∈ (if second = first then [first] else [first, second]),
      key = first ∨ key = second := by
    intro key mem
    split at mem
    · exact .inl (List.mem_singleton.1 mem)
    · exact (List.mem_cons.1 mem).imp_right List.mem_singleton.1
  have listed : key = first ∨ key = second ∨ key = third := by
    rw [← Except.ok.inj ok] at mem
    generalize (if second = first then [first] else [first, second]) = keys at pair mem
    split at mem
    · exact (pair key mem).imp_right .inl
    · rcases List.mem_append.1 mem with early | last
      · exact (pair key early).imp_right .inl
      · exact .inr (.inr (List.mem_singleton.1 last))
  rcases listed with rfl | rfl | rfl
  · exact .inl firstOk
  · exact .inr (.inl secondOk)
  · exact .inr (.inr thirdOk)

/-- A normal URI with the fragment of a pointer falls apart into the two. -/
theorem split_fragmentOf (normal : Uri.IsNormal base)
    (ok : Uri.normalize (base ++ fragmentOf pointer) = .ok key) :
    Uri.splitFragment key = .ok (base, Uri.encodeFragment pointer.text) := by
  unfold fragmentOf at ok
  rw [normal.normalize] at ok
  rw [← Except.ok.inj ok]
  exact normal.split_withFragment (Uri.isKept_encodeFragment _)

theorem isPointerFragment_encode (pointer : Pointer) :
    Cache.isPointerFragment (Uri.encodeFragment pointer.text) = true := by
  unfold Cache.isPointerFragment
  rcases Pointer.encodeFragment_text pointer with ⟨empty, _⟩ | ⟨rest, start⟩
  · rw [String.toList_eq_nil_iff.1 empty]
    rfl
  · rw [start]
    exact Bool.or_eq_true_iff.2 (.inr rfl)

end Location

end JsonSchema
