import JsonSchema.Keyword.Builtin

/-!
# Registries of keywords

A registry holds the keywords that documents may use: those of the drafts and any extensions, one
for each key, in the order in which they were registered.
-/

namespace JsonSchema

/-- What a registry refuses or does not find. -/
inductive RegistryFault where
  | alreadyRegistered (key : String)
  | notFound (key : String) (draft : Option Draft)
  deriving DecidableEq, Repr

/-- What is wrong with the key. -/
def RegistryFault.message : RegistryFault → String
  | .alreadyRegistered key => "Keyword '" ++ key ++ "' already registered"
  | .notFound key draft =>
    "Keyword '" ++ key ++ "' not found in registry"
      ++ ((draft.map fun d => " for draft " ++ toString d.number).getD "")

/-- The keywords that documents may use. -/
structure Registry where
  keywords : List Keyword
  deriving DecidableEq, Repr

namespace Registry

/-- The registry without keywords. -/
def empty : Registry := ⟨[]⟩

/-- The keyword with a key, in whatever draft. -/
def get? (registry : Registry) (key : String) : Option Keyword :=
  registry.keywords.find? (·.key = key)

/-- Adds a keyword whose key is new. -/
def register (registry : Registry) (keyword : Keyword) : Except RegistryFault Registry :=
  if (registry.get? keyword.key).isSome then .error (.alreadyRegistered keyword.key)
  else .ok ⟨registry.keywords ++ [keyword]⟩

/-- The keyword with a key if the given draft, if any, has it. -/
def find? (registry : Registry) (key : String) (draft : Option Draft) : Option Keyword :=
  (registry.get? key).filter fun keyword => (draft.map keyword.isApplicable).getD true

/-- Like `find?`, with a fault for a key that is not known. -/
def lookup (registry : Registry) (key : String) (draft : Option Draft) :
    Except RegistryFault Keyword :=
  match registry.find? key draft with
  | some keyword => .ok keyword
  | none => .error (.notFound key draft)

/-- The keywords of a draft that constrain instances of a type. -/
def applicable (registry : Registry) (draft : Draft) (type : InstanceType) : List Keyword :=
  registry.keywords.filter fun keyword => keyword.isApplicable draft && keyword.appliesToType type

/-- The registry of the keywords of the drafts. -/
def default : Registry := ⟨Builtin.all⟩

end Registry

end JsonSchema
