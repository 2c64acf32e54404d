import ResolverTypes.Config.Basic
import ResolverTypes.Output.Shape

/-!
# Base types

The types of the values themselves, apart from who resolves them: the representations of all
scalars, an enum for every enum, and a type for every object, interface, union and input object. The
type of an object or interface is followed by one for the arguments of each field that has any.
-/

namespace ResolverTypes.Output

open TypeScript

/-! ## Scalars -/

/-- The property of `Scalars` for one scalar. -/
def scalarProperty (c : Config) (name : String) : Property TypeExpr where
  key := name
  value :=
    let representation := c.representation name
    .inlineObject [("input", .raw representation.input), ("output", .raw representation.output)]

/-- The names of all scalars of a document: the built-in ones, used or not, then those that the
schema declares. -/
def scalarNames (g : TypeGraph) : List String :=
  BuiltinScalar.all.map (·.name) ++ g.customScalars

def scalarsDeclaration (g : TypeGraph) (c : Config) : Declaration :=
  .typeAlias Names.scalars (.object ((scalarNames g).map (scalarProperty c)))
    "All built-in and custom scalars, mapped to their actual values"

/-! ## Enums -/

/-- The member of an enum for one of its values. -/
def enumMember (v : EnumValue) : EnumMember := ⟨Text.pascalCase v.name, v.name⟩

/-- The declaration of a type that is an enum. -/
def enumDeclaration? (d : TypeDef) : Option Declaration :=
  match d.body with
  | .enum values =>
    some { form := .enum d.name (values.map enumMember), description := d.description }
  | _ => none

/-- The declarations of all enums, in table order. -/
def enumDeclarations (g : TypeGraph) : List Declaration :=
  (g.types.values.filterMap (·.definition?)).filterMap enumDeclaration?

/-! ## Objects, interfaces, unions and input objects -/

/-- The property for a field. It may be missing if the field may be null. -/
def fieldProperty (g : TypeGraph) (f : Field) : Property TypeExpr where
  key := f.name
  value := shape g .output f.type
  isOptional := !f.type.isNonNull
  description := f.description

/-- The property for an argument or an input field. It may be missing unless the value is
required. -/
def inputProperty (g : TypeGraph) (v : InputValue) : Property TypeExpr where
  key := v.name
  value := shape g .input v.type
  isOptional := !v.isRequired
  description := v.description

/-- The property that tells objects of different types apart. -/
def typenameProperty (typeName : String) : Property TypeExpr where
  key := Names.typename
  value := .literal typeName
  isOptional := true

/-- The types of the arguments of those fields that have any. -/
def argsDeclarations (g : TypeGraph) (typeName : String) (fields : List Field) :
    List Declaration :=
  (fields.filter fun f => !f.args.isEmpty).map fun f =>
    .typeAlias (Names.args typeName f.name) (.object (f.args.map (inputProperty g)))

/-- The declarations that a type which is neither a scalar nor an enum adds. -/
def typeDeclarations (g : TypeGraph) (d : TypeDef) : List Declaration :=
  match d.body with
  | .object _ fields =>
    .typeAlias d.name (.object (typenameProperty d.name :: fields.map (fieldProperty g)))
        d.description ::
      argsDeclarations g d.name fields
  | .interface _ fields =>
    .typeAlias d.name (.object (fields.map (fieldProperty g))) d.description ::
      argsDeclarations g d.name fields
  | .union members => [.typeAlias d.name (.union (members.eraseDups.map .name)) d.description]
  | .inputObject fields =>
    [.typeAlias d.name (.object (fields.map (inputProperty g))) d.description]
  | .scalar => []
  | .enum _ => []

/-- The declarations of all types that are neither scalars nor enums, in table order. -/
def shapeDeclarations (g : TypeGraph) : List Declaration :=
  (g.types.values.filterMap (·.definition?)).flatMap (typeDeclarations g)

end ResolverTypes.Output
