import JsonSchema.Proofs.Run
import JsonSchema.Uri

/-!
# URIs without their fragment

No part of a URI but the fragment holds the mark that begins a fragment. So nothing is taken off a
URI whose fragment was taken off before (`Uri.withoutFragment_eq`).
-/

namespace JsonSchema

namespace Text

variable {mark c : Char} {text : List Char}

theorem not_mem_cut : mark ∉ (cut mark text).1 := by
  induction text with
  | nil => exact List.not_mem_nil
  | cons first rest ih =>
    rw [cut]
    split
    · exact List.not_mem_nil
    · next other =>
      intro mem
      rcases List.mem_cons.1 mem with same | later
      · exact other same.symm
      · exact ih later

/-- What is cut is a part of the text. -/
theorem mem_of_mem_cut : c ∈ (cut mark text).1 ++ (cut mark text).2.getD [] → c ∈ text := by
  induction text with
  | nil => exact id
  | cons first rest ih =>
    rw [cut]
    split
    · exact List.mem_cons_of_mem _
    · intro mem
      rcases List.mem_cons.1 mem with same | later
      · rw [same]
        exact List.mem_cons_self
      · exact List.mem_cons_of_mem _ (ih later)

theorem mem_of_mem_before (mark : Char) (mem : c ∈ (cut mark text).1) : c ∈ text :=
  mem_of_mem_cut (List.mem_append_left _ mem)

theorem mem_of_mem_behind (mark : Char) (mem : c ∈ (cut mark text).2.getD []) : c ∈ text :=
  mem_of_mem_cut (List.mem_append_right _ mem)

theorem mem_of_mem_cutLast {front back : List Char}
    (found : cutLast? mark text = some (front, back)) (mem : c ∈ front ∨ c ∈ back) :
    c ∈ text := by
  unfold cutLast? at found
  split at found
  · next behind before parts =>
    cases found
    apply List.mem_reverse.1
    rcases mem with inFront | inBack
    · apply mem_of_mem_behind mark
      rw [parts]
      exact List.mem_reverse.1 inFront
    · apply mem_of_mem_before mark
      rw [parts]
      exact List.mem_reverse.1 inBack
  · cases found

end Text

namespace Uri

variable {text : List Char} {parts : Parts}

/-- The parts other than the fragment hold no mark of a fragment. -/
structure Parts.IsPlain (parts : Parts) : Prop where
  scheme : '#' ∉ parts.scheme
  authority : '#' ∉ parts.authority
  path : '#' ∉ parts.path
  params : '#' ∉ parts.params
  query : '#' ∉ parts.query

theorem toLower_ne_mark {c : Char} (h : isSchemeChar c = true) : c.toLower ≠ '#' := by
  intro same
  unfold Char.toLower at same
  split at same
  · next upper =>
    have value : c.val + 32 = 35 := congrArg Char.val same
    have low : 65 ≤ c.val := upper.1
    have high : c.val ≤ 90 := upper.2
    have sum := congrArg UInt32.toNat value
    rw [UInt32.toNat_add] at sum
    rw [UInt32.le_iff_toNat_le] at low high
    simp at sum low high
    omega
  · subst same
    exact absurd h (by decide)

theorem not_mem_scheme {scheme rest : List Char} (taken : takeScheme? text = some (scheme, rest)) :
    '#' ∉ scheme := by
  unfold takeScheme? at taken
  split at taken
  · next c front rest cutting =>
    split at taken
    · next good =>
      cases taken
      intro mem
      obtain ⟨d, inside, same⟩ := List.mem_map.1 mem
      rw [Bool.and_eq_true] at good
      refine toLower_ne_mark ?_ same
      rcases List.mem_cons.1 inside with rfl | later
      · unfold isSchemeChar Char.isAlphanum
        rw [good.1]
        rfl
      · exact List.all_eq_true.1 good.2 d later
    · cases taken
  · cases taken

theorem mem_takeScheme {scheme rest : List Char} {c : Char}
    (taken : takeScheme? text = some (scheme, rest)) (mem : c ∈ rest) : c ∈ text := by
  unfold takeScheme? at taken
  split at taken
  · next first front rest cutting =>
    split at taken
    · cases taken
      apply Text.mem_of_mem_behind ':'
      rw [cutting]
      exact mem
    · cases taken
  · cases taken

theorem splitWith_plain (ok : splitWith [] text = .ok parts) :
    parts.IsPlain ∧ parts.params = [] := by
  have scheme : '#' ∉ ((takeScheme? (clean text)).getD ([], clean text)).1 := by
    cases taken : takeScheme? (clean text) with
    | none => exact List.not_mem_nil
    | some both => exact not_mem_scheme taken
  have authority : ∀ rest : List Char, '#' ∉ rest.takeWhile (!endsAuthority ·) := by
    intro rest mem
    have kept := List.all_eq_true.1 List.all_takeWhile '#' mem
    exact absurd kept (by decide)
  have plain : ∀ front rest, '#' ∉ front → ∀ parts, parts = {
      scheme := ((takeScheme? (clean text)).getD ([], clean text)).1
      authority := front
      path := (Text.cut '?' (Text.cut '#' rest).1).1
      params := []
      query := (Text.cut '?' (Text.cut '#' rest).1).2.getD []
      fragment := (Text.cut '#' rest).2.getD [] : Parts } → parts.IsPlain ∧ parts.params = [] := by
    rintro front rest clear parts rfl
    refine ⟨⟨scheme, clear, ?_, List.not_mem_nil, ?_⟩, rfl⟩
    · exact fun mem => Text.not_mem_cut (Text.mem_of_mem_before '?' mem)
    · exact fun mem => Text.not_mem_cut (Text.mem_of_mem_behind '?' mem)
  unfold splitWith at ok
  dsimp only at ok
  split at ok
  · next rest _ =>
    obtain ⟨_, _, ok⟩ := except_bind_ok ok
    split at ok
    · cases ok
    · cases ok
      exact plain _ _ (authority rest) _ rfl
  · obtain ⟨_, _, ok⟩ := except_bind_ok ok
    split at ok
    · cases ok
    · cases ok
      exact plain _ _ List.not_mem_nil _ rfl

theorem mem_splitParams {path : List Char} {c : Char}
    (mem : c ∈ (splitParams path).1 ∨ c ∈ (splitParams path).2) (other : c ≠ '/') : c ∈ path := by
  unfold splitParams at mem
  split at mem
  · next front last cutting =>
    have segment : c ∈ last → c ∈ path := fun inLast =>
      Text.mem_of_mem_cutLast cutting (.inr inLast)
    split at mem
    · next first params parts =>
      rcases mem with inPath | inParams
      · rcases List.mem_append.1 inPath with inFront | inSegment
        · exact Text.mem_of_mem_cutLast cutting (.inl inFront)
        · rcases List.mem_cons.1 inSegment with same | inFirst
          · exact absurd same other
          · apply segment
            apply Text.mem_of_mem_before ';'
            rw [parts]
            exact inFirst
      · apply segment
        apply Text.mem_of_mem_behind ';'
        rw [parts]
        exact inParams
    · rcases mem with inPath | inParams
      · exact inPath
      · exact absurd inParams List.not_mem_nil
  · split at mem
    · next segment params parts =>
      rcases mem with inPath | inParams
      · apply Text.mem_of_mem_before ';'
        rw [parts]
        exact inPath
      · apply Text.mem_of_mem_behind ';'
        rw [parts]
        exact inParams
    · rcases mem with inPath | inParams
      · exact inPath
      · exact absurd inParams List.not_mem_nil

theorem parseWith_plain (ok : parseWith [] text = .ok parts) : parts.IsPlain := by
  unfold parseWith at ok
  obtain ⟨whole, split, ok⟩ := except_bind_ok ok
  obtain ⟨plain, params⟩ := splitWith_plain split
  split at ok
  · cases ok
    refine ⟨plain.scheme, plain.authority, ?_, ?_, plain.query⟩
    · exact fun mem => plain.path (mem_splitParams (.inl mem) (by decide))
    · exact fun mem => plain.path (mem_splitParams (.inr mem) (by decide))
  · cases ok
    exact plain

/-- Parts without a fragment make a text without the mark. -/
theorem Parts.IsPlain.mark (plain : parts.IsPlain) :
    '#' ∉ Parts.text { parts with fragment := [] } := by
  have path : '#' ∉ (if parts.params.isEmpty then parts.path
      else parts.path ++ ';' :: parts.params) := by
    split
    · exact plain.path
    · simp [plain.path, plain.params]
  unfold Parts.text
  dsimp only
  generalize (if parts.params.isEmpty then parts.path
      else parts.path ++ ';' :: parts.params) = path' at path ⊢
  simp only [List.mem_append, not_or]
  refine ⟨⟨⟨?_, ?_⟩, ?_⟩, List.not_mem_nil⟩
  · split
    · exact List.not_mem_nil
    · simp [plain.scheme]
  · split
    · simp only [List.mem_append, not_or]
      refine ⟨⟨⟨by decide, plain.authority⟩, ?_⟩, path⟩
      split
      · decide
      · exact List.not_mem_nil
    · exact path
  · split
    · exact List.not_mem_nil
    · simp [plain.query]

theorem withoutFragment_of_plain {uri : String} (plain : '#' ∉ uri.toList) :
    withoutFragment uri = .ok uri := by
  unfold withoutFragment splitFragment
  rw [if_neg (fun mark => plain (List.contains_iff_mem.1 mark))]
  rfl

/-- A URI without its fragment has none. -/
theorem withoutFragment_eq {uri base : String} (ok : withoutFragment uri = .ok base) :
    withoutFragment base = .ok base := by
  apply withoutFragment_of_plain
  unfold withoutFragment at ok
  obtain ⟨both, split, same⟩ := except_bind_ok ok
  cases same
  unfold splitFragment at split
  split at split
  · obtain ⟨parts, parsed, same⟩ := except_bind_ok split
    cases same
    rw [String.toList_ofList]
    exact (parseWith_plain parsed).mark
  · next plain =>
    cases split
    exact fun mark => plain (List.contains_iff_mem.2 mark)

end Uri

end JsonSchema
