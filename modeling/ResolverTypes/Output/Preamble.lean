import ResolverTypes.Config.Basic
import ResolverTypes.Output.Names
import ResolverTypes.TypeScript.Basic

/-!
# The preamble of a document

What every document declares besides the types of its schema: what it takes from the runtime
library, the wrappers that the configuration chooses, and the types of resolver functions.
-/

namespace ResolverTypes.Output.Preamble

open TypeScript

/-- A declaration that is the same in all documents. -/
def fixed (declares text : String) : Declaration := { form := .verbatim (some declares) text }

/-- An alias with one parameter `T`. -/
def wrapper (name : String) (type : TypeExpr) : Declaration :=
  { form := .typeAlias name [{ name := "T" }] type }

/-- The names that a document takes from the runtime library. Those about scalars are needed only if
the schema declares one. -/
def imports (withScalars : Bool) : Declaration :=
  let names := ["GraphQLResolveInfo"] ++
    if withScalars then ["GraphQLScalarType", "GraphQLScalarTypeConfig"] else []
  { form := .imports names "graphql" }

/-- Types that make other types exact, or some of their properties mandatory. -/
def propertyHelpers : List Declaration :=
  [fixed "Exact" <|
      "export type Exact<T extends \x7b [key: string]: unknown \x7d> = \x7b [K in keyof " ++
        "T]: T[K] \x7d;",
    fixed "RequireFields" <|
      "export type RequireFields<T, K extends keyof T> = Omit<T, K> & \x7b [P in K]-?: " ++
        "NonNullable<T[P]> \x7d;"]

/-- The wrappers of values that may be null, and helpers for properties. -/
def typeHelpers (c : Config) : Section where
  isCompact := true
  declarations :=
    wrapper Names.maybe (.raw c.maybeValue) ::
      wrapper Names.inputMaybe (.reference Names.maybe [.name "T"]) :: propertyHelpers

/-- The types of resolver functions. -/
def resolverFunctions : List Declaration :=
  [fixed "ResolverFn" <|
      "export type ResolverFn<TResult, TParent, TContext, TArgs> = (\n  parent: TParent,\n" ++
        "  args: TArgs,\n  context: TContext,\n  info: GraphQLResolveInfo\n" ++
        ") => Promise<TResult> | TResult;",
    fixed "Resolver" <|
      "export type Resolver<TResult, TParent = \x7b\x7d, TContext = \x7b\x7d, TArgs = " ++
        "\x7b\x7d> = ResolverFn<TResult, TParent, TContext, TArgs>;",
    fixed "SubscriptionSubscribeFn" <|
      "export type SubscriptionSubscribeFn<TResult, TParent, TContext, TArgs> = (\n" ++
        "  parent: TParent,\n  args: TArgs,\n  context: TContext,\n" ++
        "  info: GraphQLResolveInfo\n" ++
        ") => AsyncIterable<TResult> | Promise<AsyncIterable<TResult>>;",
    fixed "SubscriptionResolveFn" <|
      "export type SubscriptionResolveFn<TResult, TParent, TContext, TArgs> = (\n" ++
        "  parent: TParent,\n  args: TArgs,\n  context: TContext,\n" ++
        "  info: GraphQLResolveInfo\n) => TResult | Promise<TResult>;",
    fixed "SubscriptionSubscriberObject" <|
      "export interface SubscriptionSubscriberObject<TResult, TKey extends string, " ++
        "TParent, TContext, TArgs> \x7b\n" ++
        "  subscribe: SubscriptionSubscribeFn<\x7b [key in TKey]: TResult \x7d, TParent, " ++
        "TContext, TArgs>;\n" ++
        "  resolve?: SubscriptionResolveFn<TResult, \x7b [key in TKey]: TResult \x7d, " ++
        "TContext, TArgs>;\n\x7d",
    fixed "SubscriptionResolver" <|
      "export type SubscriptionResolver<TResult, TKey extends string, TParent = \x7b\x7d, " ++
        "TContext = \x7b\x7d, TArgs = \x7b\x7d> =\n" ++
        "  | ((...args: any[]) => SubscriptionSubscriberObject<TResult, TKey, TParent, " ++
        "TContext, TArgs>)\n" ++
        "  | SubscriptionSubscriberObject<TResult, TKey, TParent, TContext, TArgs>;",
    fixed "TypeResolveFn" <|
      "export type TypeResolveFn<TTypes, TParent = \x7b\x7d, TContext = \x7b\x7d> = (\n" ++
        "  parent: TParent,\n  context: TContext,\n  info: GraphQLResolveInfo\n" ++
        ") => Maybe<TTypes> | Promise<Maybe<TTypes>>;",
    fixed "IsTypeOfResolverFn" <|
      "export type IsTypeOfResolverFn<T = \x7b\x7d, TContext = \x7b\x7d> = (obj: T, " ++
        "context: TContext, info: GraphQLResolveInfo) => boolean | Promise<boolean>;"]

/-- The wrapper of what resolvers answer with, and the types of resolver functions. -/
def resolverHelpers (c : Config) : Section where
  declarations :=
    wrapper Names.resolverTypeWrapper (.raw c.resolverTypeWrapperSignature) :: resolverFunctions

end ResolverTypes.Output.Preamble
