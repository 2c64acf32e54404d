/-!
# Type references

The type of a field, an argument or an input field: a named type inside any number of list and
non-null modifiers. A reference is nullable at every level that carries no non-null modifier, and
`TypeRef.layers` reads off, from the outside in, where a value may be null and where it is a list.
-/

namespace ResolverTypes

/-- A reference to a named type, wrapped in list and non-null modifiers. -/
inductive TypeRef where
  | named (name : String)
  | list (element : TypeRef)
  /-- The same type without the null value. -/
  | nonNull (inner : TypeRef)
deriving DecidableEq, Repr, Inhabited

/-- One layer around the innermost type of a reference. -/
inductive Layer where
  | nullable
  | list
deriving DecidableEq, Repr

namespace TypeRef

/-- The reference without the null value; a reference that excludes it already is left as it is. -/
def required : TypeRef → TypeRef
  | nonNull t => nonNull t
  | t => nonNull t

/-- The innermost named type. -/
def innermost : TypeRef → String
  | named name => name
  | list t => t.innermost
  | nonNull t => t.innermost

/-- Whether the outermost modifier excludes null. -/
def isNonNull : TypeRef → Bool
  | nonNull _ => true
  | _ => false

/-- The reference as schema documents write it: `[T]` for a list and `T!` for a non-null type. -/
def text : TypeRef → String
  | named name => name
  | list t => "[" ++ t.text ++ "]"
  | nonNull t => t.text ++ "!"

/-- Puts the layer for a value that may be null in front, if it may be null. -/
def nullableIf (nullable : Bool) (layers : List Layer) : List Layer :=
  if nullable then .nullable :: layers else layers

/-- The layers of a reference, outermost first, where `nullable` says whether the level that the
reference describes may still be null. Every list element starts out as nullable again. -/
def layersFrom (nullable : Bool) : TypeRef → List Layer
  | named _ => nullableIf nullable []
  | list t => nullableIf nullable (.list :: layersFrom true t)
  | nonNull t => layersFrom false t

/-- The layers of a reference, outermost first: `[T]` is nullable, a list, nullable. -/
def layers (t : TypeRef) : List Layer := layersFrom true t

end TypeRef

end ResolverTypes
