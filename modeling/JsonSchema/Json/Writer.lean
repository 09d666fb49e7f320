import JsonSchema.Json.Basic
import JsonSchema.Text.Quoted

/-!
# Writing JSON text

`Json.written` writes a value without white space. Characters are written as they are, apart from
the quote, the backslash and control characters. Doubles that are no finite numbers are written as
the words that the reader knows.
-/

namespace JsonSchema.Json

/-- A character inside a string. -/
def writtenChar (c : Char) : List Char :=
  if c = '"' then ['\\', '"']
  else if c = '\\' then ['\\', '\\']
  else if c = '\n' then ['\\', 'n']
  else if c.toNat < 32 then ('\\' :: 'u' :: (Text.hexPadded 4 c.toNat).toList)
  else [c]

/-- A text as a string. -/
def writtenText (text : String) : String :=
  String.ofList ('"' :: (text.toList.flatMap writtenChar ++ ['"']))

/-- A number. -/
def writtenNumber : Number → String
  | .double .nan => "NaN"
  | .double (.infinite negative) => if negative then "-Infinity" else "Infinity"
  | n => n.text

mutual

/-- A value without white space. -/
def written : Json → String
  | .null => "null"
  | .bool true => "true"
  | .bool false => "false"
  | .number n => writtenNumber n
  | .string text => writtenText text
  | .array items => "[" ++ ",".intercalate (writtenItems items) ++ "]"
  | .object members => "\x7b" ++ ",".intercalate (writtenMembers members) ++ "\x7d"
  | .bytes text => writtenText text

/-- The items of an array. -/
def writtenItems : List Json → List String
  | [] => []
  | item :: rest => written item :: writtenItems rest

/-- The members of an object. -/
def writtenMembers : List (String × Json) → List String
  | [] => []
  | (name, value) :: rest => (writtenText name ++ ":" ++ written value) :: writtenMembers rest

end

/-- A natural number as a value. -/
def ofNat (n : Nat) : Json :=
  .number (.int n)

/-- A list of texts as a value. -/
def ofTexts (texts : List String) : Json :=
  .array (texts.map .string)

/-- A value that may be missing; null stands for none. -/
def ofOption {α : Type} (form : α → Json) : Option α → Json
  | some value => form value
  | none => .null

end JsonSchema.Json
