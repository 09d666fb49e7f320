import JsonSchema.Loading.Options
import JsonSchema.Yaml.Reader

/-!
# Options files

A file of options holds a mapping in YAML. An empty file, and one with an empty value, stands for
the usual options. The draft may be given as a number, a word such as `draft-06`, or a schema URI.
-/

namespace JsonSchema

mutual

/-- A value of a settings text as an option is read from it. No option takes a date, a list or a
mapping. -/
def Yaml.json : Yaml → Json
  | .scalar value => value
  | .date text => .array [.string text]
  | .list items => .array (Yaml.jsonItems items)
  | .map entries => .object (Yaml.jsonMembers entries)

/-- The values of a list. -/
def Yaml.jsonItems : List Yaml → List Json
  | [] => []
  | item :: rest => item.json :: Yaml.jsonItems rest

/-- The values of a mapping under the texts of their keys. -/
def Yaml.jsonMembers : List (Yaml × Yaml) → List (String × Json)
  | [] => []
  | (key, value) :: rest => (key.json.text, value.json) :: Yaml.jsonMembers rest

end

namespace Options

/-- Whether a key is a text. -/
def isName : Yaml → Bool
  | .scalar (.string _) => true
  | _ => false

/-- The options that entries give. -/
def ofEntries (entries : List (Yaml × Yaml)) : Except Fault Options := do
  let names := entries.filter fun (key, _) => isName key
  let members :=
    (Yaml.jsonMembers names).foldl (fun members (name, value) => Members.put members name value) []
  let members ←
    match members.lookup "default_version" with
    | some value => do pure (Members.put members "default_version" (← draftSetting value))
    | none => pure members
  if !entries.all fun (key, _) => isName key then throw .optionsRejected
  match ofMembers? members with
  | some options => return options
  | none => throw .optionsRejected

/-- The options that a value gives. -/
def ofYaml (path : String) (value : Yaml) : Except Fault Options :=
  if !value.json.isTruthy then .ok default
  else
    match value with
    | .map entries => ofEntries entries
    | _ => .error (.optionsNotMapping path)

/-- The options in the file at a path; without a text there is no such file. -/
def ofFile (path : String) (text : Option String) : Except Fault Options :=
  match text with
  | none => .error (.optionsMissing path)
  | some text =>
    match Yaml.ofText? text with
    | some value => ofYaml path value
    | none => .error .optionsUnread

end Options

end JsonSchema
