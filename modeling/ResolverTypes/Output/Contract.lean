import ResolverTypes.Config.Basic
import ResolverTypes.Output.Shape
import ResolverTypes.Output.UnionVariants

/-!
# Contracts

For every object, interface and union the type of an object that resolves it: a function that
decides which object type a value of an abstract type has, one function per field, and a predicate
that decides whether a value has an object type. A custom scalar has an interface for its
configuration instead. `Resolvers` puts them all together.
-/

namespace ResolverTypes.Output

open TypeScript

structure ContractEntry where
  name : String
  signature : TypeExpr
  isOptional : Bool

/-- The contract of an object, interface or union. -/
structure Contract where
  typeName : String
  kind : TypeKind
  /-- The function that decides which object type a value of an abstract type has. -/
  resolveType : Option TypeExpr := none
  /-- The functions for the fields. A name that is repeated has its first place and its last
  type. -/
  fields : OrderedMap TypeExpr := ∅
  /-- Whether there is a predicate that decides whether a value has the type. -/
  hasIsTypeOf : Bool := false

/-! ## Signatures -/

/-- What every function ends its list of type arguments with. -/
def parentAndContext : List TypeExpr := [.name Names.parentType, .name Names.contextType]

/-- The function that chooses between the given object types. -/
def resolveTypeSignature (possible : TypeExpr) : TypeExpr :=
  .reference "TypeResolveFn" (possible :: parentAndContext)

/-- The predicate that decides whether a value has an object type. -/
def isTypeOfSignature : TypeExpr := .reference "IsTypeOfResolverFn" parentAndContext

/-- A choice between the names of object types, or null if there are none. -/
def possibleTypes (names : List String) : TypeExpr :=
  if names.isEmpty then .raw "null" else .union (names.map .literal)

/-- What a resolver of a field of that type answers with. -/
def resultType (t : TypeRef) : TypeExpr :=
  wrap Names.maybe t.layers ((TypeExpr.name Names.resolversTypes).index t.innermost)

/-- The arguments that a resolver of a field is given: those that must be provided are there, and
the others may be missing. -/
def argsType (typeName : String) (f : Field) : TypeExpr :=
  let all := TypeExpr.name (Names.args typeName f.name)
  if f.requiredArgs.isEmpty then .reference "Partial" [all]
  else .reference "RequireFields" [all, .union (f.requiredArgs.map .literal)]

/-- The function that resolves a field. Fields of the root type for subscriptions are subscribed to
under their names. -/
def fieldSignature (t : TypeNode) (f : Field) : TypeExpr :=
  let args := if f.args.isEmpty then [] else [argsType t.name f]
  if t.root = some .subscription then
    .reference "SubscriptionResolver"
      (resultType f.type :: .quoted f.name :: parentAndContext ++ args)
  else .reference "Resolver" (resultType f.type :: parentAndContext ++ args)

/-! ## Contracts of types -/

/-- Whether the contract of a type has a predicate that decides whether a value has the type. Only
those of objects have one, and if the configuration says so, only those of union members. -/
def requiresIsTypeOf (c : Config) (unionMembers : List String) (t : TypeNode) : Bool :=
  t.kind = .object && (!c.isTypeOfOnlyIfNeeded || unionMembers.contains t.name)

def fieldSignatures (t : TypeNode) : OrderedMap TypeExpr :=
  .ofList (t.fields.map fun f => (f.name, fieldSignature t f))

namespace Contract

/-- The contract of a type, if it is an object, an interface or a union. -/
def ofNode? (g : TypeGraph) (c : Config) (unions : List UnionVariants) (t : TypeNode) :
    Option Contract :=
  match t.kind with
  | .object =>
    some
      { typeName := t.name, kind := .object, fields := fieldSignatures t,
        hasIsTypeOf := requiresIsTypeOf c g.unionMembers t }
  | .interface =>
    some
      { typeName := t.name, kind := .interface, fields := fieldSignatures t,
        resolveType := some (resolveTypeSignature (possibleTypes (g.objectsImplementing t.name))) }
  | .union =>
    let possible :=
      match UnionVariants.find? unions t.name with
      | some u => u.literals
      | none => .raw "null"
    some { typeName := t.name, kind := .union, resolveType := some (resolveTypeSignature possible) }
  | .scalar | .enum | .inputObject => none

def ofGraph (g : TypeGraph) (c : Config) (unions : List UnionVariants) : List Contract :=
  g.types.values.filterMap (ofNode? g c unions)

def name (k : Contract) : String := Names.contract k.typeName

/-- The entries of the contract in the order in which they are emitted. -/
def entries (k : Contract) : List ContractEntry :=
  (k.resolveType.toList.map fun signature => ⟨Names.resolveType, signature, false⟩) ++
    (k.fields.entries.map fun (name, signature) => ⟨name, signature, true⟩) ++
      if k.hasIsTypeOf then [⟨Names.isTypeOf, isTypeOfSignature, true⟩] else []

def contextParam (c : Config) : TypeParam :=
  { name := Names.contextType, default := some (.raw c.contextType) }

def declaration (c : Config) (k : Contract) : Declaration :=
  let parent := (TypeExpr.name Names.resolversParentTypes).index k.typeName
  let params : List TypeParam :=
    [contextParam c, { name := Names.parentType, bound := some parent, default := some parent }]
  let properties := k.entries.map fun e =>
    ({ key := e.name, value := e.signature, isOptional := e.isOptional } : Property TypeExpr)
  { form := .typeAlias k.name params (.object properties) }

end Contract

/-! ## Custom scalars, and all contracts together -/

/-- The interface for the configuration of a custom scalar. -/
def scalarConfigDeclaration (scalar : String) : Declaration where
  form :=
    .interface (Names.scalarConfig scalar) []
      (some (.reference "GraphQLScalarTypeConfig"
        [(TypeExpr.name Names.resolversTypes).index scalar, .name "any"]))
      [{ key := "name", value := .literal scalar }]

/-- The property of `Resolvers` for a type, if it has one. -/
def resolversProperty? (t : TypeNode) : Option (Property TypeExpr) :=
  match t.kind with
  | .object | .interface | .union =>
    some
      { key := t.name, value := .reference (Names.contract t.name) [.name Names.contextType],
        isOptional := true }
  | .scalar =>
    if t.isBuiltin then none
    else some { key := t.name, value := .name "GraphQLScalarType", isOptional := true }
  | .enum | .inputObject => none

/-- The contracts of all types together, in table order. -/
def resolversDeclaration (g : TypeGraph) (c : Config) : Declaration where
  form :=
    .typeAlias Names.resolvers [Contract.contextParam c]
      (.object (g.types.values.filterMap resolversProperty?))

end ResolverTypes.Output
