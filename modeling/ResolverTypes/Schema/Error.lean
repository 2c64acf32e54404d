import ResolverTypes.Sdl.Error

/-!
# Why a schema is rejected

One constructor per condition that a schema may violate, and the wording of each in `Error.message`.
-/

namespace ResolverTypes.Schema

/-- Why a schema is rejected. -/
inductive Error where
  | document (cause : Sdl.Error)
  /-- A reference leads nowhere; `referencedBy` is the type or the dotted path that refers. -/
  | typeNotFound (name referencedBy : String)
  | emptyUnion (name : String)
  /-- A member of a union is something else than an object. -/
  | invalidUnionMember (union member kind : String)
  /-- A type implements something else than an interface. -/
  | invalidImplements (typeName interface : String)
  | duplicateMember (owner kind name : String)
  | invalidRootType (operation name : String)
  /-- Some other condition is violated. -/
  | invalid (message : String)
deriving DecidableEq, Repr

def Error.message : Error → String
  | document cause => "parse error: " ++ cause.message
  | typeNotFound name referencedBy => s!"type '{name}' referenced by '{referencedBy}' not found"
  | emptyUnion name => s!"union '{name}' has no members"
  | invalidUnionMember union member kind =>
    s!"union '{union}' member '{member}' is a {kind}, expected an object type"
  | invalidImplements typeName interface =>
    s!"type '{typeName}' implements '{interface}', which is not an interface"
  | duplicateMember owner kind name => s!"duplicate {kind} '{name}' on type '{owner}'"
  | invalidRootType operation name =>
    s!"{operation} root type '{name}' must be a defined object type"
  | invalid message => s!"validation error: {message}"

/-- The condition that a scalar of the schema must not take the name of a built-in one. -/
def Error.builtinRedefined (name : String) : Error :=
  .invalid s!"built-in scalar '{name}' cannot be redefined"

end ResolverTypes.Schema
