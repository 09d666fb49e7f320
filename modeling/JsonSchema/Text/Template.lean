/-!
# Message templates

A template is a text in which each pair of braces stands for the next of some given texts; a doubled
brace is a brace.
-/

namespace JsonSchema.Text

/-- Fills in the places of a template. Places without a text stay empty. -/
def fillChars : List Char → List String → List Char
  | [], _ => []
  | '\x7b' :: '\x7b' :: rest, texts => '\x7b' :: fillChars rest texts
  | '\x7d' :: '\x7d' :: rest, texts => '\x7d' :: fillChars rest texts
  | '\x7b' :: '\x7d' :: rest, text :: texts => text.toList ++ fillChars rest texts
  | '\x7b' :: '\x7d' :: rest, [] => fillChars rest []
  | c :: rest, texts => c :: fillChars rest texts

/-- Fills in the places of a template. -/
def fill (template : String) (texts : List String) : String :=
  String.ofList (fillChars template.toList texts)

end JsonSchema.Text
