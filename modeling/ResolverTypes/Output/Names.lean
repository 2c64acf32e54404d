import ResolverTypes.Text.PascalCase

/-!
# Names of generated declarations

The fixed names that every document declares, and the names that are made from those of the schema.
-/

namespace ResolverTypes.Output.Names

/-! ## Fixed names -/

/-- A value that may be null, where values go out. -/
def maybe : String := "Maybe"

/-- A value that may be null, where values come in. -/
def inputMaybe : String := "InputMaybe"

def scalars : String := "Scalars"

/-- What a resolver may answer with. -/
def resolverTypeWrapper : String := "ResolverTypeWrapper"

def resolversUnionTypes : String := "ResolversUnionTypes"

def resolversTypes : String := "ResolversTypes"

/-- The table of what resolvers are given as the parent value. -/
def resolversParentTypes : String := "ResolversParentTypes"

def resolvers : String := "Resolvers"

/-- The parameter for the context of a request. -/
def contextType : String := "ContextType"

def parentType : String := "ParentType"

/-- The parameter for the table through which union variants are referred to. -/
def refType : String := "_RefType"

/-- The entry that decides which object type a value of an abstract type has. -/
def resolveType : String := "__resolveType"

/-- The entry that decides whether a value has an object type. -/
def isTypeOf : String := "__isTypeOf"

/-- The property that holds the name of an object type. -/
def typename : String := "__typename"

/-! ## Names made from those of the schema -/

/-- The type of the arguments of a field: `QueryUserArgs`. -/
def args (typeName fieldName : String) : String := typeName ++ Text.pascalCase fieldName ++ "Args"

/-- The contract of a type: `UserResolvers`. -/
def contract (typeName : String) : String := typeName ++ "Resolvers"

/-- The configuration of a custom scalar: `DateScalarConfig`. -/
def scalarConfig (scalarName : String) : String := scalarName ++ "ScalarConfig"

end ResolverTypes.Output.Names
