import ResolverTypes.Output.Error
import ResolverTypes.Output.Names
import ResolverTypes.TypeGraph
import ResolverTypes.TypeScript.Basic

/-!
# Union variants

For every union the list of its members without repetitions, in the order in which they first occur.
Both tables refer to it through the declaration of `ResolversUnionTypes` and do not repeat it, and
the contract of the union lists the same names.
-/

namespace ResolverTypes.Output

open TypeScript

structure UnionVariants where
  name : String
  /-- The members in the order of their first occurrence, each once. -/
  members : List String
deriving DecidableEq, Repr

namespace UnionVariants

/-- The variants of a union with the given members. A union needs a member. -/
def ofMembers (name : String) (members : List String) : Except Error UnionVariants :=
  if members.isEmpty then .error (.generation s!"union '{name}' has no members")
  else .ok ⟨name, members.eraseDups⟩

/-- The variants of all unions of a graph, in table order. -/
def ofGraph (g : TypeGraph) : Except Error (List UnionVariants) :=
  (g.ofKind .union).mapM fun t => ofMembers t.name t.members

def find? (unions : List UnionVariants) (name : String) : Option UnionVariants :=
  unions.find? fun u => u.name = name

/-- The members as a choice between types in parentheses. -/
def variants (u : UnionVariants) : TypeExpr := .union (u.members.map fun m => .group (.name m))

/-- The names of the members as a choice between texts. -/
def literals (u : UnionVariants) : TypeExpr := .union (u.members.map .literal)

/-- The variants of a union as the given table refers to them. -/
def reference (table name : String) : TypeExpr :=
  (TypeExpr.reference Names.resolversUnionTypes [.name table]).index name

/-- The declaration that holds the variants of all unions, unless there are none. -/
def declaration? (unions : List UnionVariants) : Option Declaration :=
  if unions.isEmpty then none
  else
    let bound := .reference "Record" [.name "string", .name "unknown"]
    let param : TypeParam := { name := Names.refType, bound := some bound }
    let body := unions.map fun u => ({ key := u.name, value := u.variants } : Property TypeExpr)
    some
      { form := .typeAlias Names.resolversUnionTypes [param] (.object body)
        description := "Mapping of union types" }

end UnionVariants

end ResolverTypes.Output
