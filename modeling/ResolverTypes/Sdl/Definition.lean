import ResolverTypes.Decimal
import ResolverTypes.Schema.Basic
import ResolverTypes.Sdl.Error

/-!
# Definitions of a schema document

A document is a list of definitions: types, extensions of types, root types, and directives. The
grammar yields drafts of them. A draft still has the numbers that were written anywhere in it and
the root types as they were assigned; `Draft.check` makes a definition of it or says what is wrong.
-/

namespace ResolverTypes.Sdl

/-- A definition of a document. -/
inductive Definition where
  /-- Root types, named in a schema definition or in an extension of one. -/
  | schema (isExtension : Bool) (roots : Roots)
  /-- A named type, or more content for one. -/
  | type (isExtension : Bool) (definition : TypeDef)
  /-- A directive, which adds nothing to the schema. -/
  | directive
deriving DecidableEq, Repr

/-- What a draft is about. -/
inductive Draft.Content where
  /-- Root types in the order in which they are assigned. -/
  | schema (isExtension : Bool) (assignments : List (Operation × String))
  /-- A named type, or more content for one. -/
  | type (isExtension : Bool) (definition : TypeDef)
  | directive
deriving DecidableEq, Repr

/-- A definition as the grammar yields it. -/
structure Draft where
  content : Draft.Content
  /-- The numbers in default values and in arguments of directives. -/
  numbers : List Decimal := []
deriving DecidableEq, Repr

/-- The roots after the assignments, none of which may repeat an operation. -/
def assignRoots (roots : Roots) : List (Operation × String) → Except Error Roots
  | [] => .ok roots
  | (op, name) :: rest =>
    if (roots.get? op).isSome then .error (.multipleRoots op.text)
    else assignRoots (roots.set op (some name)) rest

/-- The definition that a draft amounts to. Its numbers must be finite, and if it defines root
types it must not define any of them twice, and must define the one for queries unless it is an
extension. -/
def Draft.check (d : Draft) : Except Error Definition :=
  if d.numbers.all (·.isFinite) then
    match d.content with
    | .schema isExtension assignments => do
      let roots ← assignRoots {} assignments
      if !isExtension && roots.query.isNone then .error .missingQueryRoot
      else .ok (.schema isExtension roots)
    | .type isExtension definition => .ok (.type isExtension definition)
    | .directive => .ok .directive
  else .error .malformed

end ResolverTypes.Sdl
