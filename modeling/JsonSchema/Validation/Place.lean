import JsonSchema.Pointer
import JsonSchema.Uri

/-!
# Places in schemas

The place of a keyword is the URI of its schema with the way to the keyword behind it. `Place.join`
extends a place and `Place.owner` goes back from a keyword to its schema.
-/

namespace JsonSchema.Place

/-- A place with a way behind it. -/
def join (base : String) (segments : Pointer) : String :=
  let start := if base.toList.contains '#' then base else base ++ "#"
  start ++ Uri.encodeFragment segments.text

/-- The place of the schema that a keyword belongs to. -/
def owner (place : String) : String :=
  let (base, pointer) := Text.cut '#' place.toList
  let pointer := pointer.getD []
  let parent :=
    match Text.cutLast? '/' pointer with
    | some (front, _) => front
    | none => pointer
  String.ofList (base ++ '#' :: parent)

end JsonSchema.Place
