import ResolverTypes.Config.Basic
import ResolverTypes.Schema.Error

/-!
# Why nothing is generated

One constructor per cause, and the wording of each in `Error.message`.
-/

namespace ResolverTypes.Output

/-- Why nothing is generated. -/
inductive Error where
  | document (cause : Sdl.Error)
  | schema (cause : Schema.Error)
  | config (cause : Config.Error)
  | unreadable
  /-- Something that is to be generated has no content. -/
  | generation (message : String)
  /-- The type graph lacks a type; `referencedBy` is the type or the dotted path that refers to
  it. -/
  | unknownType (typeName referencedBy : String)
deriving DecidableEq, Repr

def Error.message : Error → String
  | document cause => "schema parse error: " ++ cause.message
  | schema cause => "schema error: " ++ cause.message
  | config cause => "configuration error: " ++ cause.message
  | unreadable => "IO error: unreadable"
  | generation message => s!"generation error: {message}"
  | unknownType typeName referencedBy =>
    s!"unknown type '{typeName}' referenced by '{referencedBy}'"

end ResolverTypes.Output
