import JsonSchema.Schema.Equality

/-!
# Hashes of schemas

The hash of a schema is made from the hashes of its keywords, whatever their order, and not from its
place and draft. References hash by their text. How plain things are hashed is left open
(`Hasher`). What has no hash is what cannot be put into a table (`Schema.checkTabled`).
-/

namespace JsonSchema

/-- How plain things are hashed, and how hashes are put together. Equal numbers have the same hash,
and the elements of a set have no order. A truth value hashes as the number zero or one. -/
structure Hasher (α : Type) where
  nothing : α
  number : Number → α
  text : String → α
  bytes : String → α
  type : InstanceType → α
  /-- The hash of what tells keyword values of one kind from others. -/
  kind : KeywordKind → α
  tuple : List α → α
  set : List α → α
  number_congr : ∀ {m n : Number}, m.equals n = true → number m = number n
  set_congr : ∀ {xs ys : List α}, xs.Perm ys → set xs = set ys

namespace Hasher

variable {α : Type} (hasher : Hasher α)

/-- The hash of a truth value. -/
def bool (value : Bool) : α :=
  hasher.number (.int (if value then 1 else 0))

/-- The hash of what may be missing. -/
def optional (hash : Option α) : α :=
  hash.getD hasher.nothing

/-- The hash of a keyword whose value is of a kind and holds something. -/
def keyword (key : String) (kind : KeywordKind) (content : α) : α :=
  hasher.tuple [hasher.text key, hasher.tuple [hasher.kind kind, content]]

end Hasher

variable {α : Type} (hasher : Hasher α)

mutual

/-- The hash of a frozen form. -/
def Frozen.hash : Frozen → α
  | .literal none => hasher.tuple [hasher.text "literal", hasher.nothing]
  | .literal (some b) => hasher.tuple [hasher.text "literal", hasher.bool b]
  | .number n => hasher.tuple [hasher.text "number", hasher.number n]
  | .string text => hasher.tuple [hasher.text "string", hasher.text text]
  | .array items => hasher.tuple [hasher.text "array", hasher.tuple (Frozen.hashes items)]
  | .object members => hasher.tuple [hasher.text "object", hasher.set (Frozen.memberHashes members)]

/-- The hashes of the items of an array. -/
def Frozen.hashes : List Frozen → List α
  | [] => []
  | item :: rest => item.hash :: Frozen.hashes rest

/-- The hashes of the members of an object. -/
def Frozen.memberHashes : List (String × Frozen) → List α
  | [] => []
  | (name, value) :: rest =>
    hasher.tuple [hasher.text name, value.hash] :: Frozen.memberHashes rest

end

/-- The hash of a plain value; arrays and objects have none. -/
def Json.hashPlain : Json → Except Fault α
  | .null => .ok hasher.nothing
  | .bool b => .ok (hasher.bool b)
  | .number n => .ok (hasher.number n)
  | .string text => .ok (hasher.text text)
  | .bytes text => .ok (hasher.bytes text)
  | .array items => .error (.unhashable (Json.array items).typeName)
  | .object members => .error (.unhashable (Json.object members).typeName)

/-- The hash of the two bounds and the flag. -/
def Limit.hash (limit : Limit) : Except Fault α := do
  let (bound, exclusiveBound) ← limit.freeze
  return hasher.tuple [hasher.optional (bound.map (·.hash hasher)), hasher.bool limit.exclusive,
    hasher.optional (exclusiveBound.map (·.hash hasher))]

/-- The hash of the names on which properties depend. -/
def hashNames (names : List (String × List String)) : α :=
  hasher.set <| names.map fun (name, needed) =>
    hasher.tuple [hasher.text name, hasher.set (needed.map hasher.text)]

mutual

/-- The hash of a schema. -/
def Schema.hash : Schema → Except Fault α
  | .always => .ok (hasher.set [])
  | .never => .ok (hasher.set [hasher.keyword Builtin.not.key .schema (hasher.set [])])
  | .node _ _ _ keywords => do return hasher.set (← KeywordValue.hashes keywords)

/-- The hash of what a keyword value holds. -/
def KeywordValue.contentHash : KeywordValue → Except Fault α
  | .literal .string value => value.hashPlain hasher
  | .literal .boolean value => value.hashPlain hasher
  | .literal .number value => do return (← value.freeze).hash hasher
  | .literal .any value => do return (← value.freeze).hash hasher
  | .stringSet names => .ok (hasher.set (names.map hasher.text))
  | .jsonArray values => do
    return hasher.tuple ((← values.mapM Json.freeze).map (·.hash hasher))
  | .schema schema => schema.hash
  | .schemaList schemas => do return hasher.tuple (← Schema.hashes schemas)
  | .schemaMap schemas => do return hasher.set (← Schema.entryHashes schemas)
  | .types types => .ok (hasher.set (types.map hasher.type))
  | .limit limit => limit.hash hasher
  | .items form additional => do
    let (every, each) ← form.hash
    return hasher.tuple [every, each, hasher.optional (← Schema.optionHash additional)]
  | .dependencies names schemas => do
    return hasher.tuple [hashNames hasher names, hasher.set (← Schema.entryHashes schemas)]
  | .reference ref _ _ => .ok (hasher.text ref)

/-- The hashes of keywords with their values. -/
def KeywordValue.hashes : List (Keyword × KeywordValue) → Except Fault (List α)
  | [] => .ok []
  | (keyword, value) :: rest => do
    let content ← value.contentHash
    let others ← KeywordValue.hashes rest
    return hasher.keyword keyword.key value.kind content :: others

/-- The hashes of the schema for all items and of those for each position. -/
def ItemsForm.hash : ItemsForm → Except Fault (α × α)
  | .absent => .ok (hasher.nothing, hasher.nothing)
  | .every schema => do return (← schema.hash, hasher.nothing)
  | .each schemas => do return (hasher.nothing, hasher.tuple (← Schema.hashes schemas))

/-- The hashes of a list of schemas. -/
def Schema.hashes : List Schema → Except Fault (List α)
  | [] => .ok []
  | schema :: rest => do
    let first ← schema.hash
    let others ← Schema.hashes rest
    return first :: others

/-- The hashes of the entries of a map of schemas. -/
def Schema.entryHashes : List (String × Schema) → Except Fault (List α)
  | [] => .ok []
  | (name, schema) :: rest => do
    let first ← schema.hash
    let others ← Schema.entryHashes rest
    return hasher.tuple [hasher.text name, first] :: others

/-- The hash of a schema that may be missing. -/
def Schema.optionHash : Option Schema → Except Fault (Option α)
  | none => .ok none
  | some schema => do return some (← schema.hash)

end

end JsonSchema
