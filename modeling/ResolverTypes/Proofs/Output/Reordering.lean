import ResolverTypes.Proofs.Output.Lookup
import ResolverTypes.Proofs.TypeGraph.Reordering

/-!
# Blueprints do not depend on the order of definitions

A blueprint is made type by type from a graph. Of graphs that have the same types under the same
names the blueprints have the same entries, variants, contracts and scalars, in whatever order. One
thing inside a contract follows the order of the definitions: the list of object types from which
the function of an interface chooses. That of a union follows the union's own list of members.
-/

namespace ResolverTypes.Output

open TypeScript

/-- The same contract, but for the order in which the function of an interface lists the names of
the object types. -/
def Contract.SameButForOrder (k k' : Contract) : Prop :=
  k = k' ∨
    k.kind = .interface ∧ ∃ names names', names.Perm names' ∧
      k.resolveType = some (resolveTypeSignature (possibleTypes names)) ∧
      k' = { k with resolveType := some (resolveTypeSignature (possibleTypes names')) }

/-- The same tables, variants, contracts and scalars, all maybe in another order. -/
structure Blueprint.Alike (b b' : Blueprint) : Prop where
  /-- The tables have the same keys. -/
  keys : (b.table.map (·.name)).Perm (b'.table.map (·.name))
  /-- The tables have the same entry for every key. -/
  entries : ∀ name, b.table.find? name = b'.table.find? name
  /-- The same unions have variants. -/
  unions : (b.unions.map (·.name)).Perm (b'.unions.map (·.name))
  /-- Every union has the same variants in the same order. -/
  variants : ∀ name, UnionVariants.find? b.unions name = UnionVariants.find? b'.unions name
  /-- Put in one order, the contracts are the same but for the object types of interfaces. -/
  contracts : ∃ l, b.contracts.Perm l ∧ List.Forall₂ Contract.SameButForOrder l b'.contracts
  /-- Every type has the same contract, but for the object types of an interface. -/
  contract : ∀ name,
    Option.Rel Contract.SameButForOrder (b.contract? name) (b'.contract? name)
  /-- The same custom scalars have configurations. -/
  scalars : b.scalars.Perm b'.scalars

variable {g g' : TypeGraph} {c : Config}

/-! ## Contracts -/

theorem requiresIsTypeOf_eq (alike : g.Alike g') (t : TypeNode) :
    requiresIsTypeOf c g.unionMembers t = requiresIsTypeOf c g'.unionMembers t := by
  have member : g.unionMembers.contains t.name = g'.unionMembers.contains t.name := by
    rw [Bool.eq_iff_iff, List.contains_iff_mem, List.contains_iff_mem, alike.unionMembers]
  rw [requiresIsTypeOf, member, ← requiresIsTypeOf]

/-- The contracts of one type. -/
theorem sameButForOrder_ofNode? (alike : g.Alike g') {unions unions' : List UnionVariants}
    (variants : ∀ name, UnionVariants.find? unions name = UnionVariants.find? unions' name)
    (t : TypeNode) :
    Option.Rel Contract.SameButForOrder (Contract.ofNode? g c unions t)
      (Contract.ofNode? g' c unions' t) := by
  unfold Contract.ofNode?
  cases t.kind with
  | object =>
    rw [requiresIsTypeOf_eq alike]
    exact .some (.inl rfl)
  | interface =>
    exact .some (.inr ⟨rfl, _, _, alike.implementing t.name, rfl, rfl⟩)
  | union =>
    rw [variants]
    exact .some (.inl rfl)
  | scalar | enum | inputObject => exact .none

/-- The contracts of all types, once those of one graph are put in the order of the other. -/
theorem sameButForOrder_contracts (alike : g.Alike g') {unions unions' : List UnionVariants}
    (variants : ∀ name, UnionVariants.find? unions name = UnionVariants.find? unions' name) :
    ∃ l, (Contract.ofGraph g c unions).Perm l ∧
      List.Forall₂ Contract.SameButForOrder l (Contract.ofGraph g' c unions') := by
  refine ⟨g'.types.values.filterMap (Contract.ofNode? g c unions),
    (OrderedMap.values_perm alike.types).filterMap _, ?_⟩
  exact forall₂_filterMap (sameButForOrder_ofNode? alike variants) _

/-! ## Blueprints -/

theorem blueprintOf_alike (named : ∀ k t, g.types.get? k = some t → t.name = k)
    (alike : g.Alike g') : (blueprintOf g c).Alike (blueprintOf g' c) := by
  have values : g.types.values.Perm g'.types.values := OrderedMap.values_perm alike.types
  have named' (k : String) (t : TypeNode) (h : g'.types.get? k = some t) : t.name = k :=
    named k t (alike.types k ▸ h)
  have variants (name : String) :
      UnionVariants.find? ((g.ofKind .union).map variantsOf) name =
        UnionVariants.find? ((g'.ofKind .union).map variantsOf) name := by
    rw [find?_variants named, find?_variants named', alike.types]
  constructor
  · exact (values.map _).map _
  · intro name
    show TypeTable.find? (.ofGraph g c) name = TypeTable.find? (.ofGraph g' c) name
    rw [find?_table named, find?_table named', alike.types]
  · exact ((values.filter _).map _).map _
  · exact variants
  · exact sameButForOrder_contracts alike variants
  · intro name
    unfold Blueprint.contract?
    show Option.Rel _ ((Contract.ofGraph g c _).find? _) ((Contract.ofGraph g' c _).find? _)
    rw [find?_contracts named, find?_contracts named', alike.types]
    cases g'.types.get? name with
    | none => exact .none
    | some t => exact sameButForOrder_ofNode? alike variants t
  · exact (values.filter _).map _

/-- The order of definitions with pairwise distinct names does not matter. A reordering is accepted
exactly if the schema is, and then with any usable configuration both have blueprints that differ in
order only: the same entry for every key, the same variants for every union, the same contract for
every object and union, and the same custom scalars. The contract of an interface may list the same
object types in another order. -/
theorem reordering {s s' : Schema} (same : s.Reordered s') (c : Config) :
    (s.validate = .ok () ↔ s'.validate = .ok ()) ∧
      (s.validate = .ok () → c.validate = .ok () →
        ∃ b b', Blueprint.ofGraph (.ofSchema s) c = .ok b ∧
          Blueprint.ofGraph (.ofSchema s') c = .ok b' ∧ b.Alike b') := by
  refine ⟨same.validate_eq_ok_iff, ?_⟩
  intro valid usable
  have sound := TypeGraph.sound_ofSchema same.built valid
  have sound' := TypeGraph.sound_ofSchema same.built' (same.validate_eq_ok_iff.mp valid)
  exact ⟨_, _, Blueprint.ofGraph_eq_ok sound usable, Blueprint.ofGraph_eq_ok sound' usable,
    blueprintOf_alike sound.named (TypeGraph.alike_of_reordered same)⟩

/-- Two objects that implement an interface change places, and the built-in scalar that one of them
refers to moves with it. -/
theorem reordering_example :
    let query : TypeDef := ⟨"Query", none, .object ["Node"] [⟨"size", .named "Int", none, []⟩]⟩
    let node : TypeDef := ⟨"Node", none, .interface [] []⟩
    let user : TypeDef := ⟨"User", none, .object ["Node"] []⟩
    let s := Schema.ofTypes [query, node, user] {}
    let s' := Schema.ofTypes [user, node, query] {}
    (∃ b b', Blueprint.ofGraph (.ofSchema s) {} = .ok b ∧
      Blueprint.ofGraph (.ofSchema s') {} = .ok b' ∧ b.Alike b') ∧
    (TypeGraph.ofSchema s).types.keys = ["Query", "Int", "Node", "User", "String", "Boolean"] ∧
    (TypeGraph.ofSchema s').types.keys = ["User", "Node", "Query", "Int", "String", "Boolean"] ∧
    (TypeGraph.ofSchema s).objectsImplementing "Node" = ["Query", "User"] ∧
    (TypeGraph.ofSchema s').objectsImplementing "Node" = ["User", "Query"] := by
  intro query node user s s'
  have same : s.Reordered s' :=
    { built := Schema.built_ofTypes _ _
      built' := Schema.built_ofTypes _ _
      nodup := by decide
      types := by decide
      roots := rfl }
  refine ⟨(reordering same {}).2 rfl (by decide), ?_, ?_, ?_, ?_⟩
  · decide +kernel
  · decide +kernel
  · rw [TypeGraph.objectsImplementing_ofSchema]
    decide
  · rw [TypeGraph.objectsImplementing_ofSchema]
    decide

end ResolverTypes.Output
