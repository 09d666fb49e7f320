import JsonSchema.Loading.Loader
import JsonSchema.Validation.Compile
import JsonSchema.Validation.Evaluate

/-!
# Validating instances

A schema is compiled once and then validates any number of instances, each with a report of its own
that has at most one violation at the top. `CompiledSchema.ofDocument` goes all the way from a
document.
-/

namespace JsonSchema

/-- A compiled schema in its table. -/
structure CompiledSchema where
  table : Array Validator
  root : ValidatorId

namespace CompiledSchema

/-- Compiles a schema of a graph. -/
def ofSchema (compiler : Compiler) (graph : SchemaGraph) (schema : Schema) :
    Except Fault CompiledSchema :=
  match (Compile.schema compiler graph schema).run.run .empty with
  | (.ok root, state) => .ok { table := state.validators, root }
  | (.error fault, _) => .error fault

/-- The compiled form of the root schema. -/
def validator (compiled : CompiledSchema) : Validator :=
  compiled.table[compiled.root.index]?.getD (.unfilled "")

/-- The report on an instance. -/
def validate (compiled : CompiledSchema) (instanceValue : Json) : Except Fault Report := do
  return ⟨← evaluate compiled.table compiled.root instanceValue⟩

/-- Whether an instance is valid. -/
def isValid (compiled : CompiledSchema) (instanceValue : Json) : Except Fault Bool := do
  return (← compiled.validate instanceValue).isValid

/-- Loads and compiles a document, which is an object or a truth value. -/
def ofDocument (compiler : Compiler) (loader : Loader) (document : Document) :
    Load CompiledSchema := do
  match document.value with
  | .object _ | .bool _ =>
    let schema ← Load.readSchema loader document none
    Load.check (ofSchema compiler (← get).graph schema)
  | other => throw (.fault (.notASchema other.typeName))

end CompiledSchema

end JsonSchema
