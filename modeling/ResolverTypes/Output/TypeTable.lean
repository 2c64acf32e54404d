import ResolverTypes.Output.Shape
import ResolverTypes.Output.UnionVariants

/-!
# Type tables

Two tables with one entry per type of the graph: what resolvers answer with for a value of the type,
and what they are given when such a value is the parent. Both are made from one list of entries, so
their keys are the same; they differ in the wrapper around an answer and in the table through which
the variants of a union are referred to.
-/

namespace ResolverTypes.Output

open TypeScript

/-- What an entry of the tables stands for. -/
inductive EntryShape where
  | scalar
  | concrete
  | root (type : String)
  | union
deriving DecidableEq, Repr

structure TableEntry where
  /-- The name of the type, its key in both tables. -/
  name : String
  shape : EntryShape
deriving DecidableEq, Repr

namespace TableEntry

/-- The entry for a type. A root type stands for the root value whatever its kind. -/
def ofNode (c : Config) (t : TypeNode) : TableEntry where
  name := t.name
  shape :=
    if t.root.isSome then .root c.rootValueType
    else
      match t.kind with
      | .scalar => .scalar
      | .union => .union
      | .object | .interface | .enum | .inputObject => .concrete

/-- The type that the entry stands for, where unions are referred to through the given table. -/
def typeIn (e : TableEntry) (table : String) : TypeExpr :=
  match e.shape with
  | .scalar => scalarType .output e.name
  | .concrete => .name e.name
  | .root type => .raw type
  | .union => UnionVariants.reference table e.name

/-- What resolvers answer with. -/
def resolverType (e : TableEntry) : TypeExpr :=
  .reference Names.resolverTypeWrapper [e.typeIn Names.resolversTypes]

/-- What resolvers are given. -/
def parentType (e : TableEntry) : TypeExpr := e.typeIn Names.resolversParentTypes

end TableEntry

/-- The entries of both tables, in table order. -/
abbrev TypeTable := List TableEntry

namespace TypeTable

def ofGraph (g : TypeGraph) (c : Config) : TypeTable := g.types.values.map (TableEntry.ofNode c)

def find? (t : TypeTable) (name : String) : Option TableEntry :=
  List.find? (fun (e : TableEntry) => e.name = name) t

/-- The properties of a table that shows each entry as `type` says. -/
def properties (t : TypeTable) (type : TableEntry → TypeExpr) : List (Property TypeExpr) :=
  t.map fun e => { key := e.name, value := type e }

def resolversTypes (t : TypeTable) : Declaration :=
  .typeAlias Names.resolversTypes (.object (t.properties TableEntry.resolverType))
    "Mapping between all available schema types and the resolvers types"

def resolversParentTypes (t : TypeTable) : Declaration :=
  .typeAlias Names.resolversParentTypes (.object (t.properties TableEntry.parentType))
    "Mapping between all available schema types and the resolvers parents"

end TypeTable

end ResolverTypes.Output
