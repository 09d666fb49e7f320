/-!
# Cutting text

A text is cut at a character into the part before it and the part behind it, or into all the parts
between its occurrences. `Text.split` always gives at least one part, and joining the parts gives
the text back.
-/

namespace JsonSchema.Text

/-- The part before the first occurrence of `mark`, and the part behind it if there is one. -/
def cut (mark : Char) : List Char → List Char × Option (List Char)
  | [] => ([], none)
  | c :: rest =>
    if c = mark then ([], some rest)
    else
      let (before, behind) := cut mark rest
      (c :: before, behind)

/-- The part before the last occurrence of `mark` and the part behind it, if there is one. -/
def cutLast? (mark : Char) (text : List Char) : Option (List Char × List Char) :=
  match cut mark text.reverse with
  | (behind, some before) => some (before.reverse, behind.reverse)
  | (_, none) => none

/-- All parts of a text between occurrences of `mark`. -/
def split (mark : Char) : List Char → List (List Char)
  | [] => [[]]
  | c :: rest =>
    if c = mark then [] :: split mark rest
    else
      match split mark rest with
      | [] => [[c]]
      | part :: parts => (c :: part) :: parts

/-- Parts with `mark` between each two of them. -/
def join (mark : Char) : List (List Char) → List Char
  | [] => []
  | [part] => part
  | part :: parts => part ++ mark :: join mark parts

/-- Whether a text starts with the given one. -/
def startsWith (text start : List Char) : Bool :=
  start.isPrefixOf text

/-- A text has at least one part. -/
theorem split_ne_nil (mark : Char) (text : List Char) : split mark text ≠ [] := by
  cases text with
  | nil => simp [split]
  | cons c rest =>
    simp only [split]
    split
    · simp
    · split <;> simp

/-- The parts with the marks between them are the text. -/
theorem join_split (mark : Char) (text : List Char) : join mark (split mark text) = text := by
  induction text with
  | nil => rfl
  | cons c rest ih =>
    simp only [split]
    split
    · rename_i h
      cases hs : split mark rest with
      | nil => exact absurd hs (split_ne_nil mark rest)
      | cons part parts => rw [hs] at ih; simp [join, ih, h]
    · cases hs : split mark rest with
      | nil => exact absurd hs (split_ne_nil mark rest)
      | cons part parts =>
        rw [hs] at ih
        cases parts with
        | nil => simpa [join] using ih
        | cons _ _ => simpa [join] using ih

end JsonSchema.Text
