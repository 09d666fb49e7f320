import JsonSchema.Json.Basic
import JsonSchema.Text.Quoted

/-!
# Values in messages

A message shows a text as it is and any other value in its quoted form: lists in brackets, objects
in braces in member order, and the texts inside them in quotes.
-/

namespace JsonSchema.Json

/-- An opening brace. -/
def openBrace : String := "\x7b"

/-- A closing brace. -/
def closeBrace : String := "\x7d"

mutual

/-- The quoted form of a value. -/
def quoted : Json → String
  | .null => "None"
  | .bool true => "True"
  | .bool false => "False"
  | .number n => n.quoted
  | .string s => Text.quoted s
  | .array items => "[" ++ ", ".intercalate (quotedItems items) ++ "]"
  | .object members => openBrace ++ ", ".intercalate (quotedMembers members) ++ closeBrace
  | .bytes text => Text.quotedBytes text

/-- The quoted forms of items. -/
def quotedItems : List Json → List String
  | [] => []
  | item :: rest => quoted item :: quotedItems rest

/-- The quoted forms of members. -/
def quotedMembers : List (String × Json) → List String
  | [] => []
  | (name, value) :: rest => (Text.quoted name ++ ": " ++ quoted value) :: quotedMembers rest

end

/-- The form of a value at the top level of a message. -/
def text : Json → String
  | .string s => s
  | .number n => n.text
  | value => value.quoted

/-- The quoted form of a list of texts. -/
def quotedNames (names : List String) : String :=
  "[" ++ ", ".intercalate (names.map Text.quoted) ++ "]"

end JsonSchema.Json
