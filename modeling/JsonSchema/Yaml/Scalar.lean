import JsonSchema.Json.Basic
import JsonSchema.Pattern.Matcher
import JsonSchema.Pattern.Parser
import JsonSchema.Text.Cut

/-!
# Scalars of settings texts

A plain scalar is a truth value, null, a number or a date if it is written like one, and a text
otherwise. Numbers may have underscores among their digits, a base, or parts that count sixty of the
next one.
-/

namespace JsonSchema

/-- A value of a settings text. -/
inductive Yaml where
  | scalar (value : Json)
  | date (text : String)
  | list (items : List Yaml)
  | map (entries : List (Yaml × Yaml))
  deriving Inhabited

namespace Yaml

/-- The words for true. -/
def yesWords : List String :=
  ["yes", "Yes", "YES", "true", "True", "TRUE", "on", "On", "ON"]

/-- The words for false. -/
def noWords : List String :=
  ["no", "No", "NO", "false", "False", "FALSE", "off", "Off", "OFF"]

/-- The words for null. -/
def nullWords : List String :=
  ["~", "null", "Null", "NULL", ""]

/-- The plain scalars that have a meaning of their own, which no value has. -/
def reservedWords : List String :=
  ["=", "<<"]

/-- How doubles are written. -/
def doubleForms : List String := [
  "^[-+]?[0-9][0-9_]*\\.[0-9_]*(?:[eE][-+][0-9]+)?$",
  "^\\.[0-9][0-9_]*(?:[eE][-+][0-9]+)?$",
  "^[-+]?[0-9][0-9_]*(?::[0-5]?[0-9])+\\.[0-9_]*$"]

/-- How integers are written. -/
def integerForms : List String := [
  "^[-+]?0b[0-1_]+$",
  "^[-+]?0[0-7_]+$",
  "^[-+]?(?:0|[1-9][0-9_]*)$",
  "^[-+]?0x[0-9a-fA-F_]+$",
  "^[-+]?[1-9][0-9_]*(?::[0-5]?[0-9])+$"]

/-- How dates are written. -/
def dateForms : List String := [
  "^[0-9][0-9][0-9][0-9]-[0-9][0-9]-[0-9][0-9]$",
  "^[0-9][0-9][0-9][0-9]-[0-9][0-9]?-[0-9][0-9]?(?:[Tt]|[ \\t]+)"
    ++ "[0-9][0-9]?:[0-9][0-9]:[0-9][0-9](?:\\.[0-9]*)?"
    ++ "(?:[ \\t]*(?:Z|[-+][0-9][0-9]?(?::[0-9][0-9])?))?$"]

/-- Whether a text is written in one of some forms. -/
def hasForm (forms : List String) (text : String) : Bool :=
  forms.any fun form =>
    match Pattern.Regex.parse form with
    | .ok regex => regex.search text
    | .error _ => false

/-- The value of a digit in bases up to sixteen. -/
def digitValue (c : Char) : Nat :=
  if c.isDigit then c.toNat - 48 else if 'a' ≤ c then c.toNat - 87 else c.toNat - 55

/-- The number that digits of a base stand for. -/
def naturalIn (base : Nat) (digits : List Char) : Nat :=
  digits.foldl (fun n c => n * base + digitValue c) 0

/-- The number of decimal parts, each counting sixty of the next one. -/
def naturalOfParts (text : List Char) : Nat :=
  (Text.split ':' text).foldl (fun n part => n * 60 + naturalIn 10 part) 0

/-- The size of an integer without its sign. -/
def integerSize : List Char → Nat
  | '0' :: 'b' :: digits => naturalIn 2 digits
  | '0' :: 'x' :: digits => naturalIn 16 digits
  | '0' :: digits => naturalIn 8 digits
  | parts => naturalOfParts parts

/-- The integer that a text of one of the forms stands for. -/
def integerOf (text : List Char) : Int :=
  let (negative, body) := Decimal.splitSign (text.filter (· ≠ '_'))
  let size := integerSize body
  if negative then -(size : Int) else size

/-- The double that a text of one of the forms stands for. -/
def doubleOf (text : List Char) : Double :=
  let (negative, body) := Decimal.splitSign (text.filter (· ≠ '_'))
  let (whole, behind) := Text.cut '.' body
  let behind := behind.getD []
  let fraction := behind.takeWhile Char.isDigit
  let exponent := (Decimal.exponentOfText? (behind.dropWhile Char.isDigit)).getD 0
  let coefficient := naturalOfParts whole * Nat.pow 10 fraction.length + naturalIn 10 fraction
  Double.ofDecimal negative coefficient (exponent - fraction.length)

/-- The double that a word stands for. -/
def doubleOfWord? (text : String) : Option Double :=
  if [".inf", ".Inf", ".INF", "+.inf", "+.Inf", "+.INF"].contains text then some (.infinite false)
  else if ["-.inf", "-.Inf", "-.INF"].contains text then some (.infinite true)
  else if [".nan", ".NaN", ".NAN"].contains text then some .nan
  else none

/-- The number that a plain scalar stands for. -/
def number? (text : String) : Option Number :=
  match doubleOfWord? text with
  | some x => some (.double x)
  | none =>
    if hasForm doubleForms text then some (.double (doubleOf text.toList))
    else if hasForm integerForms text then some (.int (integerOf text.toList))
    else none

/-- The value of a plain scalar. -/
def ofPlain? (text : String) : Option Yaml :=
  if reservedWords.contains text then none
  else if yesWords.contains text then some (.scalar (.bool true))
  else if noWords.contains text then some (.scalar (.bool false))
  else if nullWords.contains text then some (.scalar .null)
  else
    match number? text with
    | some n => some (.scalar (.number n))
    | none => some (if hasForm dateForms text then .date text else .scalar (.string text))

/-- Whether a value may be a key. -/
def isKey : Yaml → Bool
  | .scalar _ | .date _ => true
  | .list _ | .map _ => false

end Yaml

end JsonSchema
