import JsonSchema.Fault
import JsonSchema.Keyword.Form
import JsonSchema.Text.Blank
import JsonSchema.Text.Case
import JsonSchema.Text.Digit

/-!
# Options of loading

The options of a loading session, and how they are read from the members of an object. Values are
taken liberally: a text that says yes is true, and a double that is a whole number is an integer.
-/

namespace JsonSchema

/-- The options of a loading session. -/
structure Options where
  /-- Whether the first error ends the session. -/
  strict : Bool
  /-- The draft of documents that name none. -/
  defaultDraft : Draft
  /-- The URI of documents without one; a generated one if there is none. -/
  defaultBaseUri : Option String
  fetchTimeout : Double
  fetchRetries : Int
  allowRemoteFetch : Bool
  reportUnknownKeywords : Bool

namespace Options

/-- The usual options. -/
def default : Options where
  strict := false
  defaultDraft := .draft6
  defaultBaseUri := none
  fetchTimeout := Double.ofInt 10
  fetchRetries := 2
  allowRemoteFetch := true
  reportUnknownKeywords := true

/-- A text in lower case without blanks around it. -/
def normalWord (text : String) : String :=
  String.ofList ((Text.trimBlank text).toList.map Text.lowercase)

/-- The words for true. -/
def yesWords : List String := ["1", "on", "t", "true", "y", "yes"]

/-- The words for false. -/
def noWords : List String := ["0", "off", "f", "false", "n", "no"]

/-- The truth value that a word stands for. -/
def flagOfWord? (text : String) : Option Bool :=
  let word := String.ofList (text.toList.map Text.lowercase)
  if yesWords.contains word then some true else if noWords.contains word then some false else none

/-- The truth value that a value stands for. -/
def flag? : Json → Option Bool
  | .bool b => some b
  | .number n =>
    if n.equals (.int 1) then some true else if n.equals (.int 0) then some false else none
  | .string text => flagOfWord? text
  | .bytes text => flagOfWord? text
  | _ => none

/-- The digits of a text with single underscores between them. -/
def joinDigits? : List Char → Option (List Char)
  | [] => some []
  | '_' :: c :: rest => if c.isDigit then (joinDigits? rest).map (c :: ·) else none
  | c :: rest => if c.isDigit then (joinDigits? rest).map (c :: ·) else none

/-- The natural number that a text of digits stands for. -/
def naturalOfText? (text : List Char) : Option Nat :=
  match text with
  | [] => none
  | '_' :: _ => none
  | _ => (joinDigits? text).bind digitsValue?

/-- The integer that a text stands for; a fraction of zeros does not count. -/
def integerOfText? (text : String) : Option Int :=
  let (negative, body) := Decimal.splitSign (Text.trimBlank text).toList
  let (whole, fraction) := Text.cut '.' body
  if (fraction.getD ['0']).all (· = '0') then
    (naturalOfText? whole).map fun n => if negative then -(n : Int) else n
  else none

/-- The integer that a value stands for. -/
def integer? : Json → Option Int
  | .bool b => some (if b then 1 else 0)
  | .number n => if n.isIntegral then n.truncate? else none
  | .string text => integerOfText? text
  | .bytes text => integerOfText? text
  | _ => none

/-- The double next to a decimal. -/
def doubleOfDecimal : Decimal → Double
  | .finite negative coefficient exponent => Double.ofDecimal negative coefficient exponent
  | .infinite negative => .infinite negative

/-- The double that a text stands for. -/
def doubleOfText? (text : String) : Option Double :=
  let word := normalWord text
  if word = "nan" || word = "+nan" || word = "-nan" then some .nan
  else (Decimal.ofText? (Text.trimBlank text)).map doubleOfDecimal

/-- The double that a value stands for. -/
def double? : Json → Option Double
  | .bool b => some (Double.ofInt (if b then 1 else 0))
  | .number (.int n) => some (Double.ofInt n)
  | .number (.double x) => some x
  | .number (.decimal x) => some (doubleOfDecimal x)
  | .string text => doubleOfText? text
  | .bytes text => doubleOfText? text
  | _ => none

/-- The text that a value stands for; null stands for none. -/
def optionalText? : Json → Option (Option String)
  | .null => some none
  | .string text => some (some text)
  | .bytes text => some (some text)
  | _ => none

/-- The draft that a value stands for. -/
def draft? : Json → Option Draft
  | .number n => if n.isIntegral then n.truncate?.bind Draft.ofNumber? else none
  | _ => none

/-- A member read by `read`, or what is there without it. -/
def member? {α : Type} (members : List (String × Json)) (name : String) (read : Json → Option α)
    (absent : α) : Option α :=
  match members.lookup name with
  | some value => read value
  | none => some absent

/-- The double of a time that has to be positive. -/
def timeout? (value : Json) : Option Double := do
  let x ← double? value
  if Number.less (.int 0) (.double x) then return x else none

/-- A number of retries, which is not negative. -/
def retries? (value : Json) : Option Int := do
  let n ← integer? value
  if 0 ≤ n then return n else none

/-- The options that members give; members of other names are ignored. -/
def ofMembers? (members : List (String × Json)) : Option Options := do
  return {
    strict := ← member? members "strict" flag? default.strict
    defaultDraft := ← member? members "default_version" draft? default.defaultDraft
    defaultBaseUri := ← member? members "default_base_uri" optionalText? default.defaultBaseUri
    fetchTimeout := ← member? members "fetch_timeout_seconds" timeout? default.fetchTimeout
    fetchRetries := ← member? members "fetch_retries" retries? default.fetchRetries
    allowRemoteFetch := ← member? members "allow_remote_fetch" flag? default.allowRemoteFetch
    reportUnknownKeywords :=
      ← member? members "report_unknown_keywords" flag? default.reportUnknownKeywords }

/-- The options that members give, a fault if a value fits no option. -/
def ofMembers (members : List (String × Json)) : Except Fault Options :=
  match ofMembers? members with
  | some options => .ok options
  | none => .error .settingsRejected

/-- Options as an object. -/
def form (options : Options) : Json :=
  .object [
    ("strict", .bool options.strict),
    ("default_version", options.defaultDraft.form),
    ("default_base_uri", .ofOption .string options.defaultBaseUri),
    ("fetch_timeout_seconds", .number (.double options.fetchTimeout)),
    ("fetch_retries", .number (.int options.fetchRetries)),
    ("allow_remote_fetch", .bool options.allowRemoteFetch),
    ("report_unknown_keywords", .bool options.reportUnknownKeywords)]

/-- What is left of a text behind a start that it may have. -/
def dropStart (start text : List Char) : List Char :=
  if Text.startsWith text start then text.drop start.length else text

/-- The draft that a text means: a number, with or without the word in front, or a schema URI. Any
other value, and a text that means none, stays as it is. -/
def draftSetting (value : Json) : Except Fault Json :=
  match value with
  | .string text =>
    let word := normalWord text
    match Draft.ofSchemaUri? word with
    | some draft => .ok (.number (.int draft.number))
    | none =>
      let digits := (dropStart "draft".toList word.toList).dropWhile fun c => c = '-' || c = '0'
      if !digits.isEmpty && digits.all Text.isDigitlike then
        match Text.naturalOfDigits? digits with
        | some n => .ok (.number (.int n))
        | none => .error (.notADigit (String.ofList digits))
      else .ok value
  | _ => .ok value

end Options

end JsonSchema
