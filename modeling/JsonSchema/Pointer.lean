import JsonSchema.Json.Display
import JsonSchema.Text.Cut
import JsonSchema.Uri.Percent

/-!
# JSON pointers

A pointer is the list of segments that leads from a document to a value inside it. Its text puts a
slash in front of each segment, with `~` and `/` inside a segment written `~0` and `~1`;
`unescape_escape` says that no segment is lost by this.
-/

namespace JsonSchema

/-- The segments that lead to a value inside a document. -/
abbrev Pointer := List String

/-- What is wrong with a pointer. -/
inductive PointerReason where
  | invalidEscape (escape : String)
  | noLeadingSlash
  | notAContainer
  | notAnIndex
  | outOfBounds (index : Nat)
  | memberMissing (name : String) (object : Json)

/-- A pointer text that does not parse, or a pointer that leads nowhere. -/
structure PointerFault where
  pointer : String
  segment : Option String
  reason : PointerReason

namespace PointerReason

/-- Why the pointer does not lead on. -/
def message : PointerReason → String
  | .invalidEscape escape => "Found invalid escape " ++ escape
  | .noLeadingSlash => "Location must start with /"
  | .notAContainer => "not a container"
  | .notAnIndex => "not an array index"
  | .outOfBounds index => "index '" ++ toString index ++ "' is out of bounds"
  | .memberMissing name object => "member '" ++ name ++ "' not found in " ++ object.text

end PointerReason

/-- Why the pointer leads nowhere, with the place where it ends. -/
def PointerFault.message (fault : PointerFault) : String :=
  let place :=
    match fault.segment with
    | some segment => " at segment '" ++ segment ++ "'"
    | none => ""
  "Unable to resolve JSON Pointer '" ++ fault.pointer ++ "'" ++ place ++ ": "
    ++ fault.reason.message

namespace Pointer

/-- A segment with `~` written `~0` and `/` written `~1`. -/
def escape (segment : List Char) : List Char :=
  segment.flatMap fun c => if c = '~' then ['~', '0'] else if c = '/' then ['~', '1'] else [c]

/-- A written segment with `~1` and then `~0` read back; any other `~` stays. -/
def unescape : List Char → List Char
  | '~' :: '0' :: rest => '~' :: unescape rest
  | '~' :: '1' :: rest => '/' :: unescape rest
  | c :: rest => c :: unescape rest
  | [] => []

/-- A segment as it is written. -/
def escapeSegment (segment : String) : String :=
  String.ofList (escape segment.toList)

/-- The text of a pointer, as characters. -/
def textOf (pointer : Pointer) : List Char :=
  pointer.flatMap fun segment => '/' :: escape segment.toList

/-- The text of a pointer. -/
def text (pointer : Pointer) : String :=
  String.ofList (textOf pointer)

/-- The first `~` of a text that is followed by neither `0` nor `1`, with the character behind it. A
line end is no such character: in front of one a `~` counts only if nothing else follows. -/
def invalidEscape? : List Char → Option (List Char)
  | [] => none
  | ['~'] => some ['~']
  | '~' :: '\n' :: rest => if rest.isEmpty then some ['~'] else invalidEscape? rest
  | '~' :: c :: rest => if c = '0' ∨ c = '1' then invalidEscape? rest else some ['~', c]
  | _ :: rest => invalidEscape? rest

/-- Reads the text of a pointer. -/
def parse (text : String) : Except PointerFault Pointer :=
  match invalidEscape? text.toList with
  | some escape => .error ⟨text, none, .invalidEscape (String.ofList escape)⟩
  | none =>
    match text.toList with
    | [] => .ok []
    | '/' :: rest => .ok ((Text.split '/' rest).map fun part => String.ofList (unescape part))
    | _ => .error ⟨text, none, .noLeadingSlash⟩

/-- Reads the fragment of a URI that holds a pointer; the fragment is decoded once. -/
def parseFragment (fragment : String) : Except PointerFault Pointer :=
  parse (String.ofList (Uri.decode (fragment.toList.dropWhile (· = '#'))))

/-- The position that a segment names in an array: digits without a leading zero. -/
def index? (segment : String) : Option Nat :=
  let digits := segment.toList
  if digits = ['0'] then some 0
  else if digits.head? = some '0' then none
  else if digits.isEmpty then none
  else digitsValue? digits

/-- The value that one segment leads to. -/
def step (value : Json) (segment : String) : Except PointerReason Json :=
  match value with
  | .object members =>
    match members.lookup segment with
    | some child => .ok child
    | none => .error (.memberMissing segment value)
  | .array items =>
    match index? segment with
    | none => .error .notAnIndex
    | some index =>
      match items[index]? with
      | some child => .ok child
      | none => .error (.outOfBounds index)
  | _ => .error .notAContainer

/-- The value that the rest of a pointer leads to; `whole` is the pointer that faults name. -/
def resolveFrom (whole : Pointer) (value : Json) : Pointer → Except PointerFault Json
  | [] => .ok value
  | segment :: rest =>
    match step value segment with
    | .ok child => resolveFrom whole child rest
    | .error reason => .error ⟨text whole, some segment, reason⟩

/-- The value that a pointer leads to in a document. -/
def resolve (document : Json) (pointer : Pointer) : Except PointerFault Json :=
  resolveFrom pointer document pointer

/-- No segment is lost when it is written. -/
theorem unescape_escape (segment : List Char) : unescape (escape segment) = segment := by
  induction segment with
  | nil => rfl
  | cons c rest ih =>
    have step : escape (c :: rest)
        = (if c = '~' then ['~', '0'] else if c = '/' then ['~', '1'] else [c])
          ++ escape rest := rfl
    rw [step]
    by_cases tilde : c = '~'
    · simp [tilde, unescape, ih]
    · by_cases slash : c = '/'
      · simp [slash, unescape, ih]
      · simp [tilde, slash, unescape, ih]

end Pointer

end JsonSchema
