import ResolverTypes.Output.TypeTable
import ResolverTypes.Proofs.TypeGraph.Order

/-!
# The entries of both tables

Both tables have the keys of the type graph in its order (`keys_resolversTypes`,
`keys_resolversParentTypes`), and under a key they show one entry, made from the node under that
key (`property?_resolversTypes`, `property?_resolversParentTypes`). What is given as the parent is
what is answered with, less the wrapper, unless the entry is a union: there each table refers to
the variants through itself.
-/

namespace ResolverTypes

/-- The type of the property of that key in the object type that the declaration names. -/
def TypeScript.Declaration.property? (d : Declaration) (key : String) : Option TypeExpr :=
  match d.form with
  | .typeAlias _ _ (.object properties) => (properties.find? fun p => p.key = key).map (·.value)
  | .interface _ _ _ properties => (properties.find? fun p => p.key = key).map (·.value)
  | _ => none

namespace Output

open TypeScript

variable {s : Schema}

/-- The keys of a table are those of the graph, whatever the table shows. -/
theorem map_key_properties (s : Schema) (c : Config) (type : TableEntry → TypeExpr) :
    ((TypeTable.ofGraph (.ofSchema s) c).properties type).map (·.key) =
      (TypeGraph.typesOf s).keys := by
  rw [← TypeGraph.name_values_typesOf]
  simp [TypeTable.properties, TypeTable.ofGraph, TypeGraph.ofSchema, TableEntry.ofNode]

theorem keys_resolversTypes (s : Schema) (c : Config) :
    (TypeTable.ofGraph (.ofSchema s) c).resolversTypes.keys? = some (TypeGraph.typesOf s).keys :=
  congrArg some (map_key_properties s c TableEntry.resolverType)

theorem keys_resolversParentTypes (s : Schema) (c : Config) :
    (TypeTable.ofGraph (.ofSchema s) c).resolversParentTypes.keys? =
      some (TypeGraph.typesOf s).keys :=
  congrArg some (map_key_properties s c TableEntry.parentType)

/-- Under a key a table shows the entry of the node under that key. -/
theorem find?_properties (c : Config) (type : TableEntry → TypeExpr) {k : String} {t : TypeNode}
    (node : (TypeGraph.typesOf s).get? k = some t) :
    (((TypeTable.ofGraph (.ofSchema s) c).properties type).find? fun p => p.key = k).map (·.value) =
      some (type (.ofNode c t)) := by
  let property (t : TypeNode) : Property TypeExpr := { key := t.name, value := type (.ofNode c t) }
  have keeps (t : TypeNode) (p : Property TypeExpr) (made : some (property t) = some p) :
      p.key = t.name := by rw [← Option.some.inj made]
  have found := OrderedMap.find?_filterMap_values
    (fun _ _ => TypeGraph.name_of_get?_typesOf (s := s)) keeps k
  rw [node, List.filterMap_eq_map'] at found
  rw [TypeTable.properties, TypeTable.ofGraph, List.map_map]
  exact congrArg (Option.map (·.value)) found

theorem property?_resolversTypes (c : Config) {k : String} {t : TypeNode}
    (node : (TypeGraph.typesOf s).get? k = some t) :
    (TypeTable.ofGraph (.ofSchema s) c).resolversTypes.property? k =
      some (TableEntry.ofNode c t).resolverType :=
  find?_properties c TableEntry.resolverType node

theorem property?_resolversParentTypes (c : Config) {k : String} {t : TypeNode}
    (node : (TypeGraph.typesOf s).get? k = some t) :
    (TypeTable.ofGraph (.ofSchema s) c).resolversParentTypes.property? k =
      some (TableEntry.ofNode c t).parentType :=
  find?_properties c TableEntry.parentType node

/-! ## The type behind an entry -/

/-- A union that is no root is referred to through the table that asks. -/
theorem typeIn_ofNode_of_union (c : Config) {t : TypeNode} (table : String)
    (union : t.kind = .union) (notRoot : t.root = none) :
    (TableEntry.ofNode c t).typeIn table = UnionVariants.reference table t.name := by
  simp [TableEntry.ofNode, TableEntry.typeIn, union, notRoot]

/-- Any other entry is the same in both tables. -/
theorem typeIn_ofNode_of_not_union (c : Config) {t : TypeNode} (table table' : String)
    (other : ¬(t.kind = .union ∧ t.root = none)) :
    (TableEntry.ofNode c t).typeIn table = (TableEntry.ofNode c t).typeIn table' := by
  unfold TableEntry.ofNode TableEntry.typeIn
  cases root : t.root with
  | some op => rfl
  | none =>
    cases kind : t.kind with
    | union => exact absurd ⟨kind, root⟩ other
    | object | interface | scalar | enum | inputObject => rfl

/-- The order and the entries of both tables. For pairwise distinct type names the keys of the
graph, and so of both tables, stand in the order that `tableOrder` reads off the definitions: no key
repeats, deleting the built-in scalars leaves the declaration order, and a built-in scalar that is
not always there is a key exactly if it is declared or mentioned. What resolvers answer with is the
wrapper around what they are given, where a union that is no root is looked up through the one table
or the other, and nothing else differs. -/
theorem tables_in_order {s : Schema} (built : s.Built) (nodup : (s.types.map (·.name)).Nodup)
    (c : Config) :
    let g := TypeGraph.ofSchema s
    let table := TypeTable.ofGraph g c
    g.types.keys = TypeGraph.tableOrder s.types ∧
    table.resolversTypes.keys? = some (TypeGraph.tableOrder s.types) ∧
    table.resolversParentTypes.keys? = some (TypeGraph.tableOrder s.types) ∧
    (TypeGraph.tableOrder s.types).Nodup ∧
    (g.types.values.filter fun t => !t.isBuiltin).map (·.name) = s.types.map (·.name) ∧
    (∀ name ∈ ["ID", "Int", "Float"], name ∈ g.types.keys ↔
      name ∈ s.types.map (·.name) ∨ name ∈ s.types.flatMap (·.mentions)) ∧
    ∀ k t, g.types.get? k = some t → ∃ answer parent,
      table.resolversTypes.property? k =
        some (.reference Names.resolverTypeWrapper [answer]) ∧
      table.resolversParentTypes.property? k = some parent ∧
      (t.kind = .union ∧ t.root = none →
        answer = UnionVariants.reference Names.resolversTypes k ∧
        parent = UnionVariants.reference Names.resolversParentTypes k) ∧
      (¬(t.kind = .union ∧ t.root = none) → answer = parent) := by
  have order := TypeGraph.keys_typesOf built nodup
  refine ⟨order, ?_, ?_, ?_, TypeGraph.declared_values_typesOf built nodup, ?_, ?_⟩
  · rw [keys_resolversTypes, order]
  · rw [keys_resolversParentTypes, order]
  · rw [← order]
    exact OrderedMap.nodup_keys _
  · intro name member
    apply TypeGraph.mem_keys_typesOf_of_builtin built
    · revert name
      decide
    · revert name
      decide
  · intro k t node
    refine ⟨_, _, property?_resolversTypes c node, property?_resolversParentTypes c node, ?_, ?_⟩
    · rintro ⟨union, notRoot⟩
      rw [← TypeGraph.name_of_get?_typesOf node]
      exact ⟨typeIn_ofNode_of_union c _ union notRoot, typeIn_ofNode_of_union c _ union notRoot⟩
    · exact typeIn_ofNode_of_not_union c _ _

/-- An argument mentions `Float` before an object of that name is declared, and `ID` comes in
through the field of that argument. -/
theorem tables_in_order_example :
    let rate : Field := ⟨"rate", .named "ID", none, [⟨"at", .list (.named "Float"), none, false⟩]⟩
    let types : List TypeDef :=
      [⟨"Query", none, .object [] [rate]⟩, ⟨"Any", none, .union ["Float"]⟩,
        ⟨"Float", none, .object [] [⟨"digits", .named "Int", none, []⟩]⟩]
    let table := TypeTable.ofGraph (.ofSchema (.ofTypes types {})) {}
    table.resolversTypes.keys? =
      some ["Query", "ID", "Any", "Float", "Int", "String", "Boolean"] ∧
    table.resolversParentTypes.property? "Any" =
      some (UnionVariants.reference Names.resolversParentTypes "Any") := by
  intro rate types table
  have distinct : ((Schema.ofTypes types {}).types.map (·.name)).Nodup := by decide
  have result := tables_in_order (Schema.built_ofTypes types {}) distinct {}
  constructor
  · rw [result.2.1, Schema.types_ofTypes]
    decide
  · have node : (TypeGraph.ofSchema (.ofTypes types {})).types.get? "Any" =
        some { origin := .declared ⟨"Any", none, .union ["Float"]⟩ } := by decide
    obtain ⟨answer, parent, -, shown, union, -⟩ := result.2.2.2.2.2.2 "Any" _ node
    rw [shown, (union ⟨rfl, rfl⟩).2]

end Output

end ResolverTypes
