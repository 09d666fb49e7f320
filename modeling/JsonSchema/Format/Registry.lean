import JsonSchema.Address
import JsonSchema.Fault
import JsonSchema.Format.Date
import JsonSchema.Format.Name
import JsonSchema.Pattern.Parser

/-!
# Registries of formats

A registry holds the tests of the known formats, one for each name. A format that is not known is
not tested.
-/

namespace JsonSchema

/-- The test of a format. -/
abbrev FormatTest := String → Except Fault Bool

namespace Format

/-- The test of a property of texts. -/
def plainTest (test : String → Bool) : FormatTest :=
  fun text => .ok (test text)

/-- Whether a text may be an address for mail: it has an at sign. -/
def isEmail (text : String) : Bool :=
  text.toList.contains '@'

/-- Whether a text is an internet address of version six without a zone. -/
def isAddress6 (text : String) : Bool :=
  Address.isIPv6 text.toList

/-- Whether a text is an internet address of version four. -/
def isAddress4 (text : String) : Bool :=
  Address.isIPv4 text.toList

/-- The test for regular expressions. A repetition that is too large is a fault. -/
def regexTest : FormatTest := fun text =>
  match Pattern.Regex.parse text with
  | .ok _ => .ok true
  | .error .hugeRepetition => .error (.notAPattern .hugeRepetition)
  | .error _ => .ok false

end Format

/-- The tests of the known formats. -/
structure FormatRegistry where
  tests : List (String × FormatTest)

namespace FormatRegistry

/-- The registry without formats. -/
def empty : FormatRegistry := ⟨[]⟩

/-- The test of a format. -/
def lookup (registry : FormatRegistry) (name : String) : Option FormatTest :=
  registry.tests.lookup name

/-- Adds a format whose name is new. -/
def register (registry : FormatRegistry) (name : String) (test : FormatTest) :
    Except Fault FormatRegistry :=
  match registry.lookup name with
  | some _ => .error (.formatRegistered name)
  | none => .ok ⟨registry.tests ++ [(name, test)]⟩

/-- The names of all formats in order. -/
def names (registry : FormatRegistry) : List String :=
  (Members.keys registry.tests).mergeSort fun a b => decide (a ≤ b)

open Format in
/-- The registry of the formats that the drafts name. Formats whose grammars are kept elsewhere
admit every text. -/
def default : FormatRegistry := ⟨[
  ("idn-email", plainTest isEmail),
  ("email", plainTest isEmail),
  ("ipv4", plainTest isAddress4),
  ("ip-address", plainTest isAddress4),
  ("ipv6", plainTest isAddress6),
  ("hostname", plainTest isHostName),
  ("host-name", plainTest isHostName),
  ("idn-hostname", plainTest fun _ => true),
  ("uri", plainTest fun _ => true),
  ("uri-reference", plainTest fun _ => true),
  ("iri", plainTest fun _ => true),
  ("iri-reference", plainTest fun _ => true),
  ("date-time", plainTest isDateTime),
  ("time", plainTest isClockTime),
  ("regex", regexTest),
  ("date", plainTest isDate),
  ("color", plainTest fun _ => true),
  ("json-pointer", plainTest isPointer),
  ("relative-json-pointer", plainTest isRelativePointer),
  ("uri-template", plainTest fun _ => true),
  ("duration", plainTest fun _ => true),
  ("uuid", plainTest isUuid),
  ("phone", plainTest isPhone)]⟩

end FormatRegistry

end JsonSchema
