import JsonSchema.Text.Blank
import JsonSchema.Text.Digit

/-!
# Integers in texts

An integer is written with decimal digits of any scripts, single underscores between digits, a sign
in front, and white space around it.
-/

namespace JsonSchema.Text

/-- The digits of a text without the underscores, each of which has to stand between two digits. -/
def joinDigits? : List Char → Option (List Char)
  | [] => none
  | [c] => if isDecimalDigit c then some [c] else none
  | c :: '_' :: rest => if isDecimalDigit c then (joinDigits? rest).map (c :: ·) else none
  | c :: rest => if isDecimalDigit c then (joinDigits? rest).map (c :: ·) else none

/-- The natural number that a text stands for. -/
def naturalOf? (text : List Char) : Option Nat :=
  (joinDigits? text).bind naturalOfDigits?

/-- The integer that a text stands for. -/
def integerOf? (text : String) : Option Int :=
  match (trimBlank text).toList with
  | '-' :: digits => (naturalOf? digits).map fun n => -(n : Int)
  | '+' :: digits => (naturalOf? digits).map Int.ofNat
  | digits => (naturalOf? digits).map Int.ofNat

end JsonSchema.Text
