import JsonSchema.Json.Reader
import JsonSchema.Text.Cut

/-!
# Quoted and folded texts

A quoted text may go over several lines, which are folded: the blanks around a line end go, a single
line end counts as a blank, and of several all but the first stay. Between single quotes a doubled
quote is a quote; between double quotes a backslash escapes what follows.
-/

namespace JsonSchema.Yaml

/-- What stands between two lines with a number of empty lines between them. -/
def foldedGap (emptyLines : Nat) : List Char :=
  if emptyLines = 0 then [' '] else List.replicate emptyLines '\n'

/-- The lines behind the first one, folded; `emptyLines` counts those passed since the last text. -/
def foldRest (emptyLines : Nat) : List (List Char) → List Char
  | [] => []
  | [line] => foldedGap emptyLines ++ line
  | line :: rest =>
    if line.isEmpty then foldRest (emptyLines + 1) rest
    else foldedGap emptyLines ++ line ++ foldRest 0 rest

/-- Lines folded into one text. -/
def foldLines : List (List Char) → List Char
  | [] => []
  | first :: rest => first ++ foldRest 0 rest

/-- Whether a character is a blank within a line. -/
def isBlankInLine (c : Char) : Bool :=
  c = ' ' || c = '\t'

/-- A text without blanks at its end. -/
def trimEnd (text : List Char) : List Char :=
  (text.reverse.dropWhile isBlankInLine).reverse

/-- Lines without the blanks that are next to a line end. -/
def trimLines : List (List Char) → List (List Char)
  | [] => []
  | [line] => [line]
  | first :: rest =>
    let inner := rest.map fun line => line.dropWhile isBlankInLine
    trimEnd first :: (inner.dropLast.map trimEnd ++ inner.getLast?.toList)

/-- A text that may hold line ends, folded. -/
def folded (text : List Char) : List Char :=
  foldLines (trimLines (Text.split '\n' text))

/-- Reads up to the closing single quote. -/
def takeSingle? : List Char → Option (List Char × List Char)
  | [] => none
  | '\'' :: '\'' :: rest => (takeSingle? rest).map fun (text, rest) => ('\'' :: text, rest)
  | '\'' :: rest => some ([], rest)
  | c :: rest => (takeSingle? rest).map fun (text, rest) => (c :: text, rest)

/-- Reads up to the closing double quote and leaves escapes as they are. -/
def takeDouble? : List Char → Option (List Char × List Char)
  | [] => none
  | '"' :: rest => some ([], rest)
  | '\\' :: c :: rest => (takeDouble? rest).map fun (text, rest) => ('\\' :: c :: text, rest)
  | c :: rest => (takeDouble? rest).map fun (text, rest) => (c :: text, rest)

/-- The character that a one-letter escape stands for. -/
def escaped? : Char → Option Char
  | '0' => some '\x00'
  | 'a' => some '\x07'
  | 'b' => some '\x08'
  | 't' => some '\t'
  | '\t' => some '\t'
  | 'n' => some '\n'
  | 'v' => some '\x0b'
  | 'f' => some '\x0c'
  | 'r' => some '\r'
  | 'e' => some '\x1b'
  | ' ' => some ' '
  | '"' => some '"'
  | '\\' => some '\\'
  | '/' => some '/'
  | 'N' => some '\u0085'
  | '_' => some '\u00a0'
  | 'L' => some '\u2028'
  | 'P' => some '\u2029'
  | _ => none

/-- The character that hexadecimal digits stand for. -/
def charOfHex? (digits : List Char) : Option Char := do
  let values ← digits.mapM Json.hexValue?
  return Char.ofNat (values.foldl (fun n value => n * 16 + value) 0)

/-- A text with its escapes undone. -/
def unescape? : List Char → Option (List Char)
  | [] => some []
  | '\\' :: 'x' :: a :: b :: rest => do return (← charOfHex? [a, b]) :: (← unescape? rest)
  | '\\' :: 'u' :: a :: b :: c :: d :: rest =>
    do return (← charOfHex? [a, b, c, d]) :: (← unescape? rest)
  | '\\' :: 'U' :: a :: b :: c :: d :: e :: f :: g :: h :: rest => do
    return (← charOfHex? [a, b, c, d, e, f, g, h]) :: (← unescape? rest)
  | '\\' :: c :: rest => do return (← escaped? c) :: (← unescape? rest)
  | '\\' :: [] => none
  | c :: rest => do return c :: (← unescape? rest)

/-- Reads a quoted text from its opening quote on. -/
def takeQuoted? : List Char → Option (String × List Char)
  | '\'' :: rest => do
    let (text, rest) ← takeSingle? rest
    return (String.ofList (folded text), rest)
  | '"' :: rest => do
    let (text, rest) ← takeDouble? rest
    return (String.ofList (← unescape? (folded text)), rest)
  | _ => none

end JsonSchema.Yaml
