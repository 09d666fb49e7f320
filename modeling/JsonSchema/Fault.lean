import JsonSchema.Keyword.Registry
import JsonSchema.Loading.Code
import JsonSchema.Location
import JsonSchema.Pattern.Fault

/-!
# Faults

Everything that can go wrong, by cause. `Fault.message` is the text of a fault. `Fault.isValueFault`
tells the faults that are about an unusable value: loading turns them into issues of the keyword
that it is at, while all others end it.
-/

namespace JsonSchema

/-- Why a keyword value in a document is not accepted. -/
inductive ValueReason where
  | notLeaf (kind : KeywordKind)
  | noTypes
  | typeNotText (value : Json)
  | unknownType (name : String)
  | typeTwice (name : String)
  | namesNotArray (value : Json)
  | noNames
  | namesNotTexts (value : Json)
  | namesTwice (value : Json)
  | noSchemas
  | boundMissing (exclusiveKey key : String)
  | boundNotNumber (value : Json)

namespace ValueReason

/-- The code of the issue that the reason makes. -/
def code : ValueReason → IssueCode
  | .boundMissing .. => .keywordMissing
  | _ => .keywordInvalid

/-- What is wrong with the value, as it stands in messages. -/
def message : ValueReason → String
  | .notLeaf kind => "'" ++ kind.name ++ "' values are not leaf values"
  | .noTypes => "type array must not be empty"
  | .typeNotText value => "type entries must be strings, got " ++ value.quoted
  | .unknownType name => "unknown type '" ++ name ++ "'"
  | .typeTwice name => "type '" ++ name ++ "' listed twice"
  | .namesNotArray value => "expected an array of strings, got " ++ value.quoted
  | .noNames => "array must not be empty"
  | .namesNotTexts value => "array must contain only strings, got " ++ value.quoted
  | .namesTwice value => "array must not contain duplicates, got " ++ value.quoted
  | .noSchemas => "array of schemas must not be empty"
  | .boundMissing exclusiveKey key => "'" ++ exclusiveKey ++ "' requires '" ++ key ++ "'"
  | .boundNotNumber value => "expected a number, got " ++ value.quoted

end ValueReason

/-- Why two forms of one keyword exclude each other. -/
inductive ConflictReason where
  /-- One form is there already. -/
  | otherFormGiven
  /-- Both forms are given at once. -/
  | bothFormsGiven
  deriving DecidableEq, Repr

/-- What the values contradict each other in. -/
def ConflictReason.message : ConflictReason → String
  | .otherFormGiven => "schema and array forms both given"
  | .bothFormsGiven => "'items' cannot be both a schema and an array of schemas"

/-- The closed lists of names that texts are looked up in. -/
inductive Vocabulary where
  | draft | instanceType | shape | kind | issueCode | errorCode
  deriving DecidableEq, Repr

/-- The name that messages give to a vocabulary. -/
def Vocabulary.name : Vocabulary → String
  | .draft => "JsonSchemaVersion"
  | .instanceType => "JsonSchemaType"
  | .shape => "JsonShape"
  | .kind => "KeywordKind"
  | .issueCode => "LoadingIssueCode"
  | .errorCode => "ValidationErrorCode"

/-- Anything that can go wrong. -/
inductive Fault where
  | badUri (fault : Uri.UriFault)
  | badPointer (fault : PointerFault)
  | deadEnd (fault : StepFault)
  | registry (fault : RegistryFault)
  | keywordValue (key : String) (reason : ValueReason)
  | keywordConflict (key : String) (reason : ConflictReason)
  | notInVocabulary (value : Json) (vocabulary : Vocabulary)
  | formatRegistered (name : String)
  | notAKeywordValue (key typeName : String)
  | wrongKind (key : String) (kind : KeywordKind)
  | notACount (key : String) (value : Json)
  | notPositive (key : String) (value : Json)
  | badPattern (key pattern : String) (fault : Pattern.PatternFault)
  | notAPattern (fault : Pattern.PatternFault)
  | patternNotText
  | emptyLimit
  | flagWithoutBound
  | bothItemForms
  | dependenciesTwice (names : List String)
  | handleBound (uri : String)
  | unresolved (uri : String)
  | documentClash (uri : String)
  | documentMissing (uri : String)
  | notAbsolute (uri : String)
  | validatorFilled (location : String)
  | notASchema (typeName : String)
  | notJson (typeName : String)
  | unhashable (typeName : String)
  | notIterable (typeName : String)
  | unordered (operator left right : String)
  /-- The order of a NaN and a decimal. -/
  | invalidOperation
  | noFraction (fault : FractionFault)
  | notADigit (text : String)
  | unfit (key : String) (kind : KeywordKind)
  | notFetched (uri reason : String)
  | optionsMissing (path : String)
  | optionsNotMapping (path : String)
  | optionsRejected
  | optionsUnread
  | settingsRejected
  /-- A recursion bound was too small, which the bounds in use exclude. -/
  | exhausted

namespace Fault

/-- The fault of a walk down a document. -/
def ofWalk : WalkFault → Fault
  | .uri fault => .badUri fault
  | .step fault => .deadEnd fault

/-- The text of a fault; settings that are rejected have none of their own. -/
def message : Fault → String
  | .badUri fault => fault.message
  | .badPointer fault => fault.message
  | .deadEnd fault => fault.message
  | .registry fault => fault.message
  | .keywordValue key reason => "Invalid value for keyword '" ++ key ++ "': " ++ reason.message
  | .keywordConflict key reason =>
    "Conflicting values for keyword '" ++ key ++ "': " ++ reason.message
  | .notInVocabulary value vocabulary => value.quoted ++ " is not a valid " ++ vocabulary.name
  | .formatRegistered name => "Format '" ++ name ++ "' already registered"
  | .notAKeywordValue key typeName =>
    "Keyword '" ++ key ++ "' needs a SchemaKeyword, got " ++ typeName
  | .wrongKind key kind => "Keyword '" ++ key ++ "' cannot hold a " ++ kind.valueName
  | .notACount key value => "'" ++ key ++ "' must be a non-negative integer, got " ++ value.quoted
  | .notPositive key value => "'" ++ key ++ "' must be strictly positive, got " ++ value.quoted
  | .badPattern key source fault =>
    "'" ++ key ++ "' is not a valid regular expression: " ++ Text.quoted source ++ " ("
      ++ fault.message ++ ")"
  | .notAPattern fault => fault.message
  | .patternNotText => "first argument must be string or compiled pattern"
  | .emptyLimit => "A limit needs a bound or an exclusive bound"
  | .flagWithoutBound => "An exclusive flag needs a bound"
  | .bothItemForms => ConflictReason.bothFormsGiven.message
  | .dependenciesTwice names => "Dependencies declared twice: " ++ Json.quotedNames names
  | .handleBound uri => "Handle for '" ++ uri ++ "' is already bound"
  | .unresolved uri => "Schema '" ++ uri ++ "' is referenced but was never loaded"
  | .documentClash uri => "A different document is already registered for '" ++ uri ++ "'"
  | .documentMissing uri => Text.quoted uri
  | .notAbsolute uri => "Preloaded documents need an absolute URI, got '" ++ uri ++ "'"
  | .validatorFilled location => "Validator for '" ++ location ++ "' is already compiled"
  | .notASchema typeName => "Expected a Schema or a schema document, got " ++ typeName
  | .notJson typeName => "Not a JSON value: " ++ typeName
  | .unhashable typeName => "unhashable type: '" ++ typeName ++ "'"
  | .notIterable typeName => "'" ++ typeName ++ "' object is not iterable"
  | .unordered operator left right =>
    "'" ++ operator ++ "' not supported between instances of '" ++ left ++ "' and '" ++ right ++ "'"
  | .invalidOperation => "[<class 'decimal.InvalidOperation'>]"
  | .noFraction (.notFinite text) => "Invalid literal for Fraction: '" ++ text ++ "'"
  | .noFraction .infiniteDecimal => "cannot convert Infinity to integer ratio"
  | .notADigit text => "invalid literal for int() with base 10: " ++ Text.quoted text
  | .unfit key kind => "Keyword '" ++ key ++ "' cannot work with a " ++ kind.valueName
  | .notFetched uri reason => "Unable to fetch schema document '" ++ uri ++ "': " ++ reason
  | .optionsMissing path => "Options file not found: " ++ path
  | .optionsNotMapping path => "Options file " ++ path ++ " must hold a mapping"
  | .optionsRejected => "Failed to load options"
  | .optionsUnread => "Failed to parse YAML options"
  | .settingsRejected => ""
  | .exhausted => "recursion bound exhausted"

/-- Whether a fault is about an unusable value. -/
def isValueFault : Fault → Bool
  | .badUri _ | .keywordValue .. | .keywordConflict .. | .notInVocabulary ..
  | .formatRegistered _ | .notACount .. | .notPositive .. | .badPattern .. | .emptyLimit
  | .flagWithoutBound | .bothItemForms | .dependenciesTwice _ | .handleBound _ | .documentClash _
  | .notAbsolute _ | .validatorFilled _ | .notADigit _ | .optionsNotMapping _ | .optionsRejected
  | .optionsUnread =>
    true
  | .deadEnd (.notAnInteger _) => true
  | .registry (.alreadyRegistered _) => true
  | .noFraction (.notFinite _) => true
  | _ => false

end Fault

end JsonSchema
