import JsonSchema.Pointer
import JsonSchema.Uri

/-!
# Reading escapes back

The bytes of a character are read as that character (`Text.decodeUtf8From_utf8Bytes`), so decoding
undoes encoding for every set of safe characters without the percent sign (`Uri.decode_encode`).
The text of a pointer is read as the pointer. Together, the fragment that a pointer is written as
stands for no other pointer (`Pointer.parseFragment_encode`).
-/

namespace JsonSchema

namespace Text

/-! ## Bytes -/

/-- A byte that continues a character. -/
theorem utf8Step_within {low high bits owed byte : Nat} (above : low ≤ byte) (below : byte ≤ high) :
    utf8Step (some ⟨owed, low, high, bits⟩) byte =
      if owed ≤ 1 then ([Char.ofNat (bits * 64 + (byte - 0x80))], none)
      else ([], some ⟨owed - 1, 0x80, 0xBF, bits * 64 + (byte - 0x80)⟩) := by
  unfold utf8Step
  dsimp only
  rw [if_pos ⟨above, below⟩]

theorem decodeUtf8From_cons (pending : Option Utf8Pending) (byte : Nat) (rest : List Nat) :
    decodeUtf8From pending (byte :: rest) =
      (utf8Step pending byte).1 ++ decodeUtf8From (utf8Step pending byte).2 rest :=
  rfl

/-- The last byte of a character. -/
theorem decodeUtf8From_last {low high bits byte : Nat} (above : low ≤ byte) (below : byte ≤ high)
    (rest : List Nat) :
    decodeUtf8From (some ⟨1, low, high, bits⟩) (byte :: rest) =
      Char.ofNat (bits * 64 + (byte - 0x80)) :: decodeUtf8From none rest := by
  rw [decodeUtf8From_cons, utf8Step_within above below]
  rfl

/-- A byte in the middle of a character. -/
theorem decodeUtf8From_next {low high bits owed byte : Nat} (above : low ≤ byte)
    (below : byte ≤ high) (rest : List Nat) :
    decodeUtf8From (some ⟨owed + 2, low, high, bits⟩) (byte :: rest) =
      decodeUtf8From (some ⟨owed + 1, 0x80, 0xBF, bits * 64 + (byte - 0x80)⟩) rest := by
  rw [decodeUtf8From_cons, utf8Step_within above below, if_neg (by omega)]
  rfl

/-- The first byte of a character that has more. -/
theorem decodeUtf8From_lead {byte : Nat} {pending : Utf8Pending}
    (lead : utf8Lead byte = ([], some pending)) (rest : List Nat) :
    decodeUtf8From none (byte :: rest) = decodeUtf8From (some pending) rest := by
  rw [decodeUtf8From_cons]
  change (utf8Lead byte).1 ++ decodeUtf8From (utf8Lead byte).2 rest = _
  rw [lead]
  rfl

theorem utf8Lead_two {n : Nat} (low : 0x80 ≤ n) (high : n < 0x800) :
    utf8Lead (0xC0 + n / 64) = ([], some ⟨1, 0x80, 0xBF, n / 64⟩) := by
  unfold utf8Lead
  rw [if_neg (by omega), if_pos (by omega)]
  simp

/-- The second of three bytes is in the range that the first one leaves. -/
theorem utf8Lead_three {n : Nat} (low : 0x800 ≤ n) (high : n < 0x10000)
    (valid : n < 0xD800 ∨ 0xDFFF < n) :
    ∃ least most, utf8Lead (0xE0 + n / 4096) = ([], some ⟨2, least, most, n / 4096⟩) ∧
      least ≤ 0x80 + n / 64 % 64 ∧ 0x80 + n / 64 % 64 ≤ most := by
  by_cases first : n / 4096 = 0
  · refine ⟨0xA0, 0xBF, ?_, by omega, by omega⟩
    rw [first]
    rfl
  · by_cases surrogate : n / 4096 = 0xD
    · refine ⟨0x80, 0x9F, ?_, by omega, by omega⟩
      rw [surrogate]
      rfl
    · refine ⟨0x80, 0xBF, ?_, by omega, by omega⟩
      unfold utf8Lead
      rw [if_neg (by omega), if_neg (by omega), if_neg (by omega), if_neg (by omega),
        if_pos (by omega)]
      simp

theorem utf8Lead_four {n : Nat} (low : 0x10000 ≤ n) (high : n < 0x110000) :
    ∃ least most, utf8Lead (0xF0 + n / 262144) = ([], some ⟨3, least, most, n / 262144⟩) ∧
      least ≤ 0x80 + n / 4096 % 64 ∧ 0x80 + n / 4096 % 64 ≤ most := by
  by_cases first : n / 262144 = 0
  · refine ⟨0x90, 0xBF, ?_, by omega, by omega⟩
    rw [first]
    rfl
  · by_cases last : n / 262144 = 4
    · refine ⟨0x80, 0x8F, ?_, by omega, by omega⟩
      rw [last]
      rfl
    · refine ⟨0x80, 0xBF, ?_, by omega, by omega⟩
      unfold utf8Lead
      rw [if_neg (by omega), if_neg (by omega), if_neg (by omega), if_neg (by omega),
        if_neg (by omega), if_neg (by omega), if_pos (by omega)]
      simp

/-- The bytes of a character are read as the character. -/
theorem decodeUtf8From_utf8Bytes (c : Char) (rest : List Nat) :
    decodeUtf8From none (utf8Bytes c ++ rest) = c :: decodeUtf8From none rest := by
  have valid : c.toNat < 0xD800 ∨ 0xDFFF < c.toNat ∧ c.toNat < 0x110000 := c.valid
  have same : ∀ n, n = c.toNat → Char.ofNat n = c := by
    rintro n rfl
    exact Char.ofNat_toNat c
  unfold utf8Bytes
  dsimp only
  generalize c.toNat = n at valid same ⊢
  split
  · next one =>
    have lead : utf8Lead n = ([Char.ofNat n], none) := by
      unfold utf8Lead
      rw [if_pos one]
    change (utf8Lead n).1 ++ decodeUtf8From (utf8Lead n).2 rest = _
    rw [lead, same n rfl]
    rfl
  · split
    · next low two =>
      change decodeUtf8From none (_ :: _ :: rest) = _
      rw [decodeUtf8From_lead (utf8Lead_two (by omega) two),
        decodeUtf8From_last (by omega) (by omega), same _ (by omega)]
    · split
      · next low three =>
        obtain ⟨least, most, lead, above, below⟩ := utf8Lead_three (by omega) three (by omega)
        change decodeUtf8From none (_ :: _ :: _ :: rest) = _
        rw [decodeUtf8From_lead lead, decodeUtf8From_next above below,
          decodeUtf8From_last (by omega) (by omega), same _ (by omega)]
      · obtain ⟨least, most, lead, above, below⟩ := utf8Lead_four (n := n) (by omega) (by omega)
        change decodeUtf8From none (_ :: _ :: _ :: _ :: rest) = _
        rw [decodeUtf8From_lead lead, decodeUtf8From_next above below,
          decodeUtf8From_next (by omega) (by omega), decodeUtf8From_last (by omega) (by omega),
          same _ (by omega)]

theorem decodeUtf8_flatMap (text : List Char) : decodeUtf8 (text.flatMap utf8Bytes) = text := by
  unfold decodeUtf8
  induction text with
  | nil => rfl
  | cons c rest ih => rw [List.flatMap_cons, decodeUtf8From_utf8Bytes, ih]

theorem utf8Bytes_lt {c : Char} {byte : Nat} (mem : byte ∈ utf8Bytes c) : byte < 256 := by
  have valid : c.toNat < 0xD800 ∨ 0xDFFF < c.toNat ∧ c.toNat < 0x110000 := c.valid
  unfold utf8Bytes at mem
  dsimp only at mem
  generalize c.toNat = n at valid mem
  split at mem
  · simp only [List.mem_singleton] at mem
    omega
  · split at mem
    · simp only [List.mem_cons, List.not_mem_nil, or_false] at mem
      omega
    · split at mem
      · simp only [List.mem_cons, List.not_mem_nil, or_false] at mem
        omega
      · simp only [List.mem_cons, List.not_mem_nil, or_false] at mem
        omega

/-! ## Parts between marks -/

theorem split_append {mark : Char} {part : List Char} (clear : mark ∉ part) (rest : List Char) :
    split mark (part ++ mark :: rest) = part :: split mark rest := by
  induction part with
  | nil => exact if_pos rfl
  | cons c part ih =>
    have other : c ≠ mark := fun same => clear (same ▸ List.mem_cons_self)
    have later := ih (fun mem => clear (List.mem_cons_of_mem _ mem))
    rw [List.cons_append, split, if_neg other, later]

theorem split_clear {mark : Char} {part : List Char} (clear : mark ∉ part) :
    split mark part = [part] := by
  induction part with
  | nil => rfl
  | cons c part ih =>
    have other : c ≠ mark := fun same => clear (same ▸ List.mem_cons_self)
    have later := ih (fun mem => clear (List.mem_cons_of_mem _ mem))
    rw [split, if_neg other, later]

end Text

namespace Uri

/-! ## Percent signs -/

theorem hexValue_hexDigit {n : Nat} (small : n < 16) : hexValue? (hexDigit n) = some n := by
  have all : ∀ n < 16, hexValue? (hexDigit n) = some n := by decide
  exact all n small

theorem decodeFrom_escapeByte {byte : Nat} (small : byte < 256) (bytes : List Nat)
    (rest : List Char) :
    decodeFrom bytes (escapeByte byte ++ rest) = decodeFrom (bytes ++ [byte]) rest := by
  have high : hexValue? (hexDigit (byte / 16)) = some (byte / 16) := hexValue_hexDigit (by omega)
  have low : hexValue? (hexDigit (byte % 16)) = some (byte % 16) := hexValue_hexDigit (by omega)
  have whole : 16 * (byte / 16) + byte % 16 = byte := by omega
  change decodeFrom bytes ('%' :: hexDigit (byte / 16) :: hexDigit (byte % 16) :: rest) = _
  rw [decodeFrom, high, low]
  dsimp only
  rw [whole]

theorem decodeFrom_escapes (more bytes : List Nat) (rest : List Char)
    (small : ∀ byte ∈ more, byte < 256) :
    decodeFrom bytes (more.flatMap escapeByte ++ rest) = decodeFrom (bytes ++ more) rest := by
  induction more generalizing bytes with
  | nil => rw [List.append_nil, List.flatMap_nil, List.nil_append]
  | cons byte more ih =>
    rw [List.flatMap_cons, List.append_assoc,
      decodeFrom_escapeByte (small byte List.mem_cons_self),
      ih _ (fun other mem => small other (List.mem_cons_of_mem _ mem)), List.append_assoc]
    rfl

theorem decodeFrom_cons {c : Char} (other : c ≠ '%') (bytes : List Nat) (rest : List Char) :
    decodeFrom bytes (c :: rest) = Text.decodeUtf8 bytes ++ c :: decodeFrom [] rest := by
  rw [decodeFrom]
  exact fun _ _ _ same => absurd same other

variable {safe : List Char}

/-- The characters in `pending` were read as escapes that are not turned into characters yet. -/
theorem decodeFrom_encode (clear : '%' ∉ safe) (pending text : List Char) :
    decodeFrom (pending.flatMap Text.utf8Bytes) (encode safe text) = pending ++ text := by
  induction text generalizing pending with
  | nil =>
    change Text.decodeUtf8 _ = _
    rw [Text.decodeUtf8_flatMap, List.append_nil]
  | cons c text ih =>
    unfold encode at ih ⊢
    rw [List.flatMap_cons]
    split
    · next kept =>
      have other : c ≠ '%' := by
        rintro rfl
        rcases Bool.or_eq_true_iff.1 kept with unreserved | mark
        · exact absurd unreserved (by decide)
        · exact clear (List.contains_iff_mem.1 mark)
      have later := ih []
      rw [List.flatMap_nil, List.nil_append] at later
      rw [List.singleton_append, decodeFrom_cons other, Text.decodeUtf8_flatMap, later]
    · have later := ih (pending ++ [c])
      rw [List.flatMap_append, List.flatMap_singleton, List.append_assoc] at later
      rw [decodeFrom_escapes _ _ _ (fun _ mem => Text.utf8Bytes_lt mem), later]
      rfl

/-- Decoding undoes encoding. -/
theorem decode_encode (clear : '%' ∉ safe) (text : List Char) :
    decode (encode safe text) = text :=
  decodeFrom_encode clear [] text

theorem decodeFragment_encode (text : String) : decodeFragment (encodeFragment text) = text := by
  unfold decodeFragment encodeFragment
  rw [String.toList_ofList, decode_encode (by decide), String.ofList_toList]

end Uri

namespace Pointer

/-! ## Pointers -/

theorem slash_not_mem_escape (segment : List Char) : '/' ∉ escape segment := by
  intro mem
  obtain ⟨c, _, inside⟩ := List.mem_flatMap.1 mem
  split at inside
  · exact absurd inside (by decide)
  · split at inside
    · exact absurd inside (by decide)
    · next other =>
      exact other (List.mem_singleton.1 inside).symm

/-- Escaped text has no invalid escape in front of text that has none. -/
theorem invalidEscape_append (segment rest : List Char) (valid : invalidEscape? rest = none) :
    invalidEscape? (escape segment ++ rest) = none := by
  have plain : ∀ (c : Char) (text : List Char), c ≠ '~' →
      invalidEscape? text = none → invalidEscape? (c :: text) = none := by
    intro c text other valid
    rw [invalidEscape?]
    · exact valid
    · exact fun same => absurd same other
    · exact fun _ same => absurd same other
    · exact fun _ _ same => absurd same other
  induction segment with
  | nil => exact valid
  | cons c segment ih =>
    unfold escape at ih ⊢
    rw [List.flatMap_cons]
    split
    · change invalidEscape? ('~' :: '0' :: _) = none
      rw [invalidEscape?, if_pos (.inl rfl)]
      · exact ih
      · decide
    · split
      · change invalidEscape? ('~' :: '1' :: _) = none
        rw [invalidEscape?, if_pos (.inr rfl)]
        · exact ih
        · decide
      · next other _ => exact plain c _ other ih

theorem invalidEscape_textOf (pointer : Pointer) : invalidEscape? (textOf pointer) = none := by
  induction pointer with
  | nil => rfl
  | cons segment rest ih =>
    change invalidEscape? ('/' :: (escape segment.toList ++ textOf rest)) = none
    rw [invalidEscape?]
    · exact invalidEscape_append segment.toList _ ih
    · exact fun same => absurd same (by decide)
    · exact fun _ same => absurd same (by decide)
    · exact fun _ _ same => absurd same (by decide)

theorem split_textOf (segment : List Char) (rest : Pointer) :
    Text.split '/' (escape segment ++ textOf rest) =
      escape segment :: rest.map fun segment => escape segment.toList := by
  induction rest generalizing segment with
  | nil =>
    change Text.split '/' (escape segment ++ []) = _
    rw [List.append_nil, Text.split_clear (slash_not_mem_escape segment)]
    rfl
  | cons next rest ih =>
    change Text.split '/' (escape segment ++ '/' :: (escape next.toList ++ textOf rest)) = _
    rw [Text.split_append (slash_not_mem_escape segment), ih]
    rfl

/-- The text of a pointer is read as the pointer. -/
theorem parse_text (pointer : Pointer) : parse (text pointer) = .ok pointer := by
  have back : ∀ segment : String, String.ofList (unescape (escape segment.toList)) = segment := by
    intro segment
    rw [unescape_escape, String.ofList_toList]
  unfold parse text
  rw [String.toList_ofList, invalidEscape_textOf]
  cases pointer with
  | nil => rfl
  | cons segment rest =>
    change Except.ok ((Text.split '/' (escape segment.toList ++ textOf rest)).map fun part =>
      String.ofList (unescape part)) = _
    rw [split_textOf, List.map_cons, List.map_map, back]
    congr 2
    exact List.map_congr_left (fun segment _ => back segment) |>.trans (List.map_id _)

/-- The text of a pointer begins with a slash, if it is not empty. -/
theorem encodeFragment_text (pointer : Pointer) :
    (Uri.encodeFragment pointer.text).toList = [] ∧ pointer = [] ∨
      ∃ rest, (Uri.encodeFragment pointer.text).toList = '/' :: rest := by
  unfold Uri.encodeFragment text
  rw [String.toList_ofList, String.toList_ofList]
  cases pointer with
  | nil => exact .inl ⟨rfl, rfl⟩
  | cons segment rest => exact .inr ⟨_, rfl⟩

/-- The fragment of a pointer is read as the pointer. -/
theorem parseFragment_encode (pointer : Pointer) :
    parseFragment (Uri.encodeFragment pointer.text) = .ok pointer := by
  have kept : (Uri.encodeFragment pointer.text).toList.dropWhile (· = '#')
      = (Uri.encodeFragment pointer.text).toList := by
    rcases encodeFragment_text pointer with ⟨empty, _⟩ | ⟨rest, start⟩
    · rw [empty]
      rfl
    · rw [start]
      rfl
  have decoded : String.ofList (Uri.decode (Uri.encodeFragment pointer.text).toList) = pointer.text :=
    Uri.decodeFragment_encode pointer.text
  unfold parseFragment
  rw [kept, decoded, parse_text]

end Pointer

end JsonSchema
