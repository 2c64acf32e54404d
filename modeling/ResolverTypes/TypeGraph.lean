import ResolverTypes.Scalar
import ResolverTypes.Schema.Basic

/-!
# The type graph

All types that belong in the generated tables, in table order, each with the operation that it is
the root of. Declared types keep the order of their declarations. A built-in scalar that the schema
does not declare stands after the first declared type that refers to it; those that every schema
carries come last if nothing refers to them.

Two indexes go with it: which objects belong to some union, and which objects implement an
interface.
-/

namespace ResolverTypes

/-- Where a type of the graph comes from. -/
inductive TypeOrigin where
  | declared (definition : TypeDef)
  | builtin (scalar : BuiltinScalar)
deriving DecidableEq, Repr

structure TypeNode where
  origin : TypeOrigin
  /-- The operation that the type is the root of. -/
  root : Option Operation := none
deriving DecidableEq, Repr

namespace TypeNode

def name (t : TypeNode) : String :=
  match t.origin with
  | .declared d => d.name
  | .builtin scalar => scalar.name

def kind (t : TypeNode) : TypeKind :=
  match t.origin with
  | .declared d => d.kind
  | .builtin _ => .scalar

def definition? (t : TypeNode) : Option TypeDef :=
  match t.origin with
  | .declared d => some d
  | .builtin _ => none

/-- Whether the type is a scalar that needs no declaration. -/
def isBuiltin (t : TypeNode) : Bool := t.definition?.isNone

def fields (t : TypeNode) : List Field :=
  match t.definition? with
  | some d => d.fields
  | none => []

def members (t : TypeNode) : List String :=
  match t.definition? with
  | some d => d.members
  | none => []

def isCustomScalar (t : TypeNode) : Bool := t.kind = .scalar && !t.isBuiltin

end TypeNode

/-- The types of a schema in table order, with what is known of unions and interfaces. -/
structure TypeGraph where
  /-- The types by name, in table order. -/
  types : OrderedMap TypeNode
  /-- The names that are members of some union, in the order in which they first occur. -/
  unionMembers : List String
  /-- The objects that implement an interface, in declaration order. -/
  implementations : OrderedMap (List String)

namespace TypeGraph

/-- Adds the built-in scalar of that name, unless the schema declares the name or it is there. -/
def addBuiltin (s : Schema) (types : OrderedMap TypeNode) (name : String) : OrderedMap TypeNode :=
  if s.contains name || types.contains name then types
  else
    match BuiltinScalar.ofName? name with
    | some scalar => types.insert name { origin := .builtin scalar }
    | none => types

/-- Adds a declared type and the built-in scalars that it is the first to refer to. -/
def addDeclared (s : Schema) (types : OrderedMap TypeNode) (d : TypeDef) : OrderedMap TypeNode :=
  d.references.foldl (addBuiltin s)
    (types.insert d.name { origin := .declared d, root := s.operationOf? d.name })

/-- The scalars that every schema carries. -/
def alwaysPresent : List String :=
  (BuiltinScalar.all.filter (·.isAlwaysPresent)).map (·.name)

/-- The types of a schema in table order. -/
def typesOf (s : Schema) : OrderedMap TypeNode :=
  alwaysPresent.foldl (addBuiltin s) (s.types.foldl (addDeclared s) ∅)

/-- Notes that the object implements the interface. -/
def addImplementation (object : String) (m : OrderedMap (List String)) (interface : String) :
    OrderedMap (List String) :=
  m.insert interface ((m.get? interface).getD [] ++ [object])

/-- The objects that implement each interface. Every declared interface has an entry. -/
def implementationsOf (s : Schema) : OrderedMap (List String) :=
  let declared := (s.namesOfKind .interface).foldl (fun m name => m.insertIfNew name []) ∅
  (s.types.filter fun d => d.kind = .object).foldl
    (fun m d => d.interfaces.foldl (addImplementation d.name) m) declared

def ofSchema (s : Schema) : TypeGraph where
  types := typesOf s
  unionMembers := (s.types.flatMap (·.members)).eraseDups
  implementations := implementationsOf s

def find? (g : TypeGraph) (name : String) : Option TypeNode := g.types.get? name

def ofKind (g : TypeGraph) (kind : TypeKind) : List TypeNode :=
  g.types.values.filter fun t => t.kind = kind

def hasUnions (g : TypeGraph) : Bool := !(g.ofKind .union).isEmpty

def isUnionMember (g : TypeGraph) (name : String) : Bool := g.unionMembers.contains name

def rootName? (g : TypeGraph) (op : Operation) : Option String :=
  (g.types.values.find? fun t => t.root = some op).map (·.name)

/-- The names of the scalars that the schema declares, in table order. -/
def customScalars (g : TypeGraph) : List String :=
  (g.types.values.filter (·.isCustomScalar)).map (·.name)

/-- The objects that implement the interface, in declaration order. -/
def objectsImplementing (g : TypeGraph) (interface : String) : List String :=
  (g.implementations.get? interface).getD []

def isScalar (g : TypeGraph) (name : String) : Bool :=
  (g.find? name).any fun t => t.kind = .scalar

end TypeGraph

end ResolverTypes
