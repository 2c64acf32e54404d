import ResolverTypes.Output.BaseTypes
import ResolverTypes.Output.Contract
import ResolverTypes.Output.Preamble
import ResolverTypes.Output.TypeTable

/-!
# From a type graph to a document

A blueprint holds all that a document says about resolvers, before any of it is laid out. There is
one for a graph only if the configuration is valid, every reference in the graph leads to a type of
the graph, and every union has a member; otherwise nothing is derived at all.
-/

namespace ResolverTypes

namespace TypeGraph

/-- Why a reference leads to no type of the graph. -/
def unknownReference (g : TypeGraph) (referencedBy name : String) : List Output.Error :=
  if g.types.contains name then [] else [.unknownType name referencedBy]

/-- The references of an argument or input field that lead to no type of the graph. -/
def unknownOfInput (g : TypeGraph) (owner : String) (v : InputValue) : List Output.Error :=
  g.unknownReference (owner ++ "." ++ v.name) v.type.innermost

/-- The references of a field that lead to no type of the graph. -/
def unknownOfField (g : TypeGraph) (owner : String) (f : Field) : List Output.Error :=
  let path := owner ++ "." ++ f.name
  g.unknownReference path f.type.innermost ++ f.args.flatMap (g.unknownOfInput path)

/-- The references of a definition that lead to no type of the graph. -/
def unknownOfDefinition (g : TypeGraph) (d : TypeDef) : List Output.Error :=
  d.interfaces.flatMap (g.unknownReference d.name) ++
    d.body.inputFields.flatMap (g.unknownOfInput d.name) ++
      d.fields.flatMap (g.unknownOfField d.name) ++ d.members.flatMap (g.unknownReference d.name)

/-- All references that lead to no type of the graph, in table order. -/
def unknownReferences (g : TypeGraph) : List Output.Error :=
  (g.types.values.filterMap (·.definition?)).flatMap g.unknownOfDefinition

end TypeGraph

namespace Output

open TypeScript

/-- All that a document says about resolvers. -/
structure Blueprint where
  unions : List UnionVariants
  table : TypeTable
  contracts : List Contract
  /-- The custom scalars, each of which gets an interface for its configuration. -/
  scalars : List String

namespace Blueprint

def ofGraph (g : TypeGraph) (c : Config) : Except Error Blueprint := do
  c.validate.mapError .config
  if let e :: _ := g.unknownReferences then throw e
  let unions ← UnionVariants.ofGraph g
  return {
    unions
    table := .ofGraph g c
    contracts := Contract.ofGraph g c unions
    scalars := g.customScalars }

def contract? (b : Blueprint) (typeName : String) : Option Contract :=
  b.contracts.find? fun k => k.typeName = typeName

def document (g : TypeGraph) (c : Config) (b : Blueprint) : Document :=
  .ofSections
    [{ declarations := [Preamble.imports !b.scalars.isEmpty] },
      Preamble.typeHelpers c,
      { declarations := scalarsDeclaration g c :: enumDeclarations g ++ shapeDeclarations g },
      Preamble.resolverHelpers c,
      { declarations :=
          (UnionVariants.declaration? b.unions).toList ++
            [b.table.resolversTypes, b.table.resolversParentTypes] },
      { declarations :=
          b.contracts.map (Contract.declaration c) ++ b.scalars.map scalarConfigDeclaration ++
            [resolversDeclaration g c] }]

end Blueprint

def documentOf (g : TypeGraph) (c : Config) : Except Error Document :=
  (Blueprint.ofGraph g c).map (Blueprint.document g c)

end Output

end ResolverTypes
