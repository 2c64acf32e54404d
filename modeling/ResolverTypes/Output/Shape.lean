import ResolverTypes.Output.Names
import ResolverTypes.TypeGraph
import ResolverTypes.TypeScript.Basic

/-!
# Shapes of type references

A reference to a named type is written as the name, or as a look-up in `Scalars` if it names a
scalar, with a wrapper around it for every list and for every level that may be null.
-/

namespace ResolverTypes.Output

open TypeScript

/-- The direction in which a value travels. -/
inductive Direction where
  /-- From a resolver: the result of a field. -/
  | output
  /-- To a resolver: an argument or an input field. -/
  | input
deriving DecidableEq, Repr

namespace Direction

/-- The key under which `Scalars` has the representation for the direction. -/
def key : Direction → String
  | output => "output"
  | input => "input"

/-- The wrapper around values that may be null. -/
def nullable : Direction → String
  | output => Names.maybe
  | input => Names.inputMaybe

end Direction

/-- Puts one layer around a type. -/
def wrapLayer (nullable : String) : Layer → TypeExpr → TypeExpr
  | .nullable, t => .reference nullable [t]
  | .list, t => .reference "Array" [t]

/-- Puts layers around a type, the first one outermost. -/
def wrap (nullable : String) (layers : List Layer) (inner : TypeExpr) : TypeExpr :=
  layers.foldr (wrapLayer nullable) inner

def scalarType (direction : Direction) (name : String) : TypeExpr :=
  ((TypeExpr.name Names.scalars).index name).index direction.key

def namedShape (g : TypeGraph) (direction : Direction) (name : String) : TypeExpr :=
  if g.isScalar name then scalarType direction name else .name name

def shape (g : TypeGraph) (direction : Direction) (t : TypeRef) : TypeExpr :=
  wrap direction.nullable t.layers (namedShape g direction t.innermost)

end ResolverTypes.Output
