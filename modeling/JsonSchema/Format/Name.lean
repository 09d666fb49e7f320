import JsonSchema.Pointer
import JsonSchema.Text.Blank
import JsonSchema.Text.Digit

/-!
# Names and numbers of hosts, phones and things

The forms of host names, telephone numbers, universally unique identifiers and relative JSON
pointers.
-/

namespace JsonSchema.Format

/-- The letters, digits and dashes of host names. -/
def isHostChar (c : Char) : Bool :=
  c = '-' || c.isAlpha || Text.isDecimalDigit c

/-- Whether a text is one part of a host name. -/
def isHostLabel (label : List Char) : Bool :=
  1 ≤ label.length && label.length ≤ 63 && label.all isHostChar
    && label.head? ≠ some '-' && label.getLast? ≠ some '-'

/-- A text without its last character if that is the given one. -/
def dropLastChar (last : Char) (text : List Char) : List Char :=
  if text.getLast? = some last then text.dropLast else text

/-- Whether a text is a host name; a dot may end it, and a line end may follow. -/
def isHostName (text : String) : Bool :=
  let chars := text.toList
  (dropLastChar '.' chars).length ≤ 253
    && (Text.split '.' (dropLastChar '.' (dropLastChar '\n' chars))).all isHostLabel

/-- The marks that may stand between the digits of a telephone number. -/
def isPhoneSeparator (c : Char) : Bool :=
  Text.isBlank c || c = '-' || c = '.' || c = '(' || c = ')'

/-- Whether a text is a telephone number: seven to fifteen digits behind an optional plus. -/
def isPhone (text : String) : Bool :=
  let chars := text.toList.filter fun c => !isPhoneSeparator c
  let digits :=
    match chars with
    | '+' :: rest => rest
    | _ => chars
  7 ≤ digits.length && digits.length ≤ 15 && digits.all Char.isDigit

/-- Takes a word out of a text wherever it stands. -/
def removeWord (word : List Char) : Nat → List Char → List Char
  | 0, text => text
  | _, [] => []
  | fuel + 1, c :: rest =>
    if Text.startsWith (c :: rest) word then removeWord word fuel ((c :: rest).drop word.length)
    else c :: removeWord word fuel rest

/-- A text without a word. -/
def without (word : String) (text : List Char) : List Char :=
  removeWord word.toList text.length text

/-- Whether a character is a hexadecimal digit. -/
def isHexadecimal (c : Char) : Bool :=
  Text.isDecimalDigit c || ('a' ≤ c ∧ c ≤ 'f') || ('A' ≤ c ∧ c ≤ 'F')

/-- Whether a text is hexadecimal digits with single underscores between them. -/
def areHexadecimal : List Char → Bool
  | [] => false
  | [c] => isHexadecimal c
  | c :: '_' :: rest => isHexadecimal c && areHexadecimal rest
  | c :: rest => isHexadecimal c && areHexadecimal rest

/-- Whether a text is a hexadecimal number, which may have a sign and the usual mark in front. -/
def isHexadecimalNumber (text : List Char) : Bool :=
  let trimmed := (Text.trimBlank (String.ofList text)).toList
  let unsigned :=
    match trimmed with
    | '+' :: rest => rest
    | _ => trimmed
  match unsigned with
  | '0' :: 'x' :: '_' :: rest => areHexadecimal rest
  | '0' :: 'X' :: '_' :: rest => areHexadecimal rest
  | '0' :: 'x' :: rest => areHexadecimal rest
  | '0' :: 'X' :: rest => areHexadecimal rest
  | rest => areHexadecimal rest

/-- The places of the dashes in a universally unique identifier. -/
def dashPositions : List Nat := [8, 13, 18, 23]

/-- Whether a character is a brace. -/
def isBrace (c : Char) : Bool :=
  c = '\x7b' || c = '\x7d'

/-- Whether a text is a universally unique identifier. -/
def isUuid (text : String) : Bool :=
  let plain := without "uuid:" (without "urn:" text.toList)
  let bare := ((plain.dropWhile isBrace).reverse.dropWhile isBrace).reverse
  let digits := bare.filter (· ≠ '-')
  digits.length = 32 && isHexadecimalNumber digits
    && dashPositions.all fun position => text.toList[position]? = some '-'

/-- Whether a text is a JSON pointer. -/
def isPointer (text : String) : Bool :=
  match Pointer.parse text with
  | .ok _ => true
  | .error _ => false

/-- Whether no zero stands in front of another digit. -/
def zerosEnd : List Char → Bool
  | c :: d :: rest => Text.digitValue? c ≠ some 0 && zerosEnd (d :: rest)
  | _ => true

/-- Whether a text is a relative JSON pointer: digits, then a number sign or a JSON pointer. -/
def isRelativePointer (text : String) : Bool :=
  let digits := text.toList.takeWhile Text.isDigitlike
  let rest := text.toList.dropWhile Text.isDigitlike
  !digits.isEmpty && zerosEnd digits && (rest = ['#'] || isPointer (String.ofList rest))

end JsonSchema.Format
