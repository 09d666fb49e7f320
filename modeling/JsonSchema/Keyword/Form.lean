import JsonSchema.Fault
import JsonSchema.Json.Writer

/-!
# Descriptions of keywords as JSON

A keyword is described by an object with its key and kind and, where they differ from what is usual,
its drafts, instance types, shapes, variants and the keyword that takes it in. `Keyword.ofForm`
reads a description and `Keyword.form` gives the full one.
-/

namespace JsonSchema

/-- The draft that a number stands for. -/
def Draft.ofForm (value : Json) : Except Fault Draft :=
  match value with
  | .number n =>
    match if n.isIntegral then n.truncate?.bind Draft.ofNumber? else none with
    | some draft => .ok draft
    | none => .error (.notInVocabulary value .draft)
  | _ => .error (.notInVocabulary value .draft)

/-- A draft is given by its number. -/
def Draft.form (draft : Draft) : Json :=
  .ofNat draft.number

/-- What a text names in a vocabulary. -/
def ofName {α : Type} (vocabulary : Vocabulary) (find : String → Option α) (value : Json) :
    Except Fault α :=
  match value with
  | .string name =>
    match find name with
    | some found => .ok found
    | none => .error (.notInVocabulary value vocabulary)
  | _ => .error (.notInVocabulary value vocabulary)

/-- Reads an instance type by its name. -/
def InstanceType.ofForm : Json → Except Fault InstanceType :=
  ofName .instanceType InstanceType.ofName?

/-- Reads a shape by its name. -/
def Shape.ofForm : Json → Except Fault Shape :=
  ofName .shape Shape.ofName?

/-- Reads a kind by its name. -/
def KeywordKind.ofForm : Json → Except Fault KeywordKind :=
  ofName .kind KeywordKind.ofName?

namespace Keyword

/-- A member that must be there; any fault rejects the description. -/
def needed {α : Type} (form : Json) (name : String) (read : Json → Except Fault α) :
    Except Fault α :=
  match form.member? name with
  | some value => (read value).mapError fun _ => .settingsRejected
  | none => .error .settingsRejected

/-- The list that a member holds. -/
def listed {α : Type} (read : Json → Except Fault α) : Json → Except Fault (List α)
  | .array values => values.mapM read
  | _ => .error .settingsRejected

/-- A list that may be missing. -/
def listedOr {α : Type} (absent : List α) (form : Json) (name : String)
    (read : Json → Except Fault α) : Except Fault (List α) :=
  match form.member? name with
  | some _ => needed form name (listed read)
  | none => .ok absent

/-- A text. -/
def textOf : Json → Except Fault String
  | .string text => .ok text
  | _ => .error .settingsRejected

/-- A text that may be missing or null. -/
def optionalText (form : Json) (name : String) : Except Fault (Option String) :=
  match form.member? name with
  | some (.string text) => .ok (some text)
  | some .null => .ok none
  | none => .ok none
  | some _ => .error .settingsRejected

/-- The variant that an object describes. -/
def variantOfForm (form : Json) : Except Fault KeywordVariant := do
  let drafts ← needed form "versions" (listed Draft.ofForm)
  let kind ← needed form "kind" KeywordKind.ofForm
  let expects ← needed form "expects" (listed Shape.ofForm)
  return variant drafts kind expects

/-- The keyword that an object describes. -/
def ofForm (form : Json) : Except Fault Keyword := do
  let key ← needed form "key" textOf
  let kind ← needed form "kind" KeywordKind.ofForm
  let drafts ← listedOr Draft.all form "versions" Draft.ofForm
  let appliesTo ← listedOr [] form "applies_to" InstanceType.ofForm
  let expects ← listedOr Shape.all form "expects" Shape.ofForm
  let variants ← listedOr [] form "variants" variantOfForm
  let mergedInto ← optionalText form "merged_into"
  match make? key kind drafts appliesTo expects variants mergedInto with
  | some keyword => return keyword
  | none => throw .settingsRejected

/-- A variant as an object. -/
def variantForm (variant : KeywordVariant) : Json :=
  .object [
    ("versions", .array (variant.drafts.map Draft.form)),
    ("kind", .string variant.kind.name),
    ("expects", .ofTexts (Shape.sortedNames variant.expects))]

/-- The full description of a keyword. -/
def form (keyword : Keyword) : Json :=
  .object [
    ("key", .string keyword.key),
    ("kind", .string keyword.kind.name),
    ("versions", .array (keyword.drafts.map Draft.form)),
    ("applies_to", .ofTexts (InstanceType.sortedNames keyword.appliesTo)),
    ("expects", .ofTexts (Shape.sortedNames keyword.expects)),
    ("variants", .array (keyword.variants.map variantForm)),
    ("merged_into", .ofOption .string keyword.mergedInto),
    ("text", .string keyword.key)]

end Keyword

end JsonSchema
