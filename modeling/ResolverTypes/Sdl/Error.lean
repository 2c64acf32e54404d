/-!
# Why a schema document is rejected

One constructor per cause, and the wording of each in `Error.message`.
-/

namespace ResolverTypes.Sdl

/-- Why a schema document is rejected. -/
inductive Error where
  /-- The text does not follow the grammar, or a number in it is too large to represent. -/
  | malformed
  /-- A schema definition names two root types for one operation. -/
  | multipleRoots (operation : String)
  /-- A schema definition names no root type for queries. -/
  | missingQueryRoot
  /-- Something that may be defined once is defined again. -/
  | duplicateDefinition (kind name : String)
  /-- An extension names a type that the document does not define. -/
  | unknownExtension (name : String)
  /-- An extension is of another kind than the type that it names. -/
  | extensionKindMismatch (name expected found : String)
  /-- The definitions do not fit together in some other way. -/
  | invalidStructure (message : String)
deriving DecidableEq, Repr

def Error.message : Error → String
  | malformed => "GraphQL syntax error: malformed document"
  | multipleRoots operation =>
    s!"GraphQL syntax error: multiple {operation} roots in schema definition"
  | missingQueryRoot => "GraphQL syntax error: schema definition is missing query root"
  | duplicateDefinition kind name => s!"duplicate {kind} definition: '{name}'"
  | unknownExtension name => s!"cannot extend unknown type '{name}'"
  | extensionKindMismatch name expected found =>
    s!"extension of '{name}' is a {found} but the type is a {expected}"
  | invalidStructure message => s!"invalid schema structure: {message}"

end ResolverTypes.Sdl
