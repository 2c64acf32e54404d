import ResolverTypes.Proofs.Output.Lookup
import ResolverTypes.Proofs.Output.ResolverReferences
import ResolverTypes.Proofs.Output.TypeTable

/-!
# Root types

A type of a graph is the root of one operation at most. Nothing rules out that a schema names one
type for several operations; such a type counts for the first of them (`Schema.operationOf?_iff`),
and the others have no root in the graph (`TypeGraph.rootName?_ofSchema`).

The entries of the tables only ask whether a type is a root at all, so every root has the shape of
one. What a resolver of a field looks like depends on the operation, so the fields of a root for
subscriptions are subscribed to unless the type serves an earlier operation as well.
-/

namespace ResolverTypes

namespace Operation

/-- The operations that are looked at first. -/
def earlier : Operation → List Operation
  | query => []
  | mutation => [query]
  | subscription => [query, mutation]

theorem not_mem_earlier (op : Operation) : op ∉ op.earlier := by cases op <;> decide

end Operation

/-! ## Roots of a schema -/

namespace Schema

variable {s : Schema}

/-- A type counts as the root of the first operation that has it. -/
theorem operationOf?_iff {name : String} {op : Operation} :
    s.operationOf? name = some op ↔
      s.rootName? op = some name ∧ ∀ e ∈ op.earlier, s.rootName? e ≠ some name := by
  unfold operationOf? Operation.all
  cases op <;> by_cases query : s.rootName? .query = some name <;>
    by_cases mutation : s.rootName? .mutation = some name <;>
    by_cases subscription : s.rootName? .subscription = some name <;>
    simp [Operation.earlier, query, mutation, subscription]

/-- Whether no type is the root of two operations. -/
def RootsApart (s : Schema) : Prop :=
  ∀ op op' name, s.rootName? op = some name → s.rootName? op' = some name → op = op'

theorem operationOf?_isSome_iff {name : String} :
    (s.operationOf? name).isSome = true ↔ ∃ op, s.rootName? op = some name := by
  unfold operationOf?
  rw [List.find?_isSome]
  constructor
  · rintro ⟨op, -, root⟩
    exact ⟨op, of_decide_eq_true root⟩
  · rintro ⟨op, root⟩
    exact ⟨op, op.mem_all, decide_eq_true root⟩

theorem find?_of_isObject {name : String} (object : s.isObject name = true) :
    ∃ d, s.find? name = some d ∧ d.kind = .object := by
  obtain ⟨d, found, kind⟩ := (Option.any_eq_true _ _).mp object
  exact ⟨d, found, of_decide_eq_true kind⟩

/-- The roots of a schema that is accepted are objects. -/
theorem find?_of_rootName? (valid : s.validate = .ok ()) {op : Operation} {name : String}
    (root : s.rootName? op = some name) : ∃ d, s.find? name = some d ∧ d.kind = .object := by
  unfold rootName? at root
  split at root
  · have none := validate_eq_ok_iff.mp valid
    rw [violations, List.append_eq_nil_iff, List.flatMap_eq_nil_iff] at none
    have accepted := none.1 op op.mem_all
    unfold rootViolations at accepted
    rw [root] at accepted
    apply find?_of_isObject
    by_contra other
    simp [other] at accepted
  · split at root
    · next object =>
      obtain rfl := Option.some.inj root
      exact find?_of_isObject object
    · cases root

end Schema

/-! ## Roots of a graph -/

namespace TypeGraph

variable {s : Schema}

/-- A built-in scalar is no root. -/
theorem root_of_builtin {t : TypeNode} (ht : t ∈ (ofSchema s).types.values)
    (builtin : t.definition? = none) : t.root = none := by
  obtain ⟨k, node⟩ := OrderedMap.mem_values_iff.mp ht
  change (typesOf s).get? k = some t at node
  rw [get?_typesOf, Option.or_eq_some_iff] at node
  rcases node with declared | ⟨-, node⟩
  · obtain ⟨d, -, rfl⟩ := Option.map_eq_some_iff.mp declared
    cases builtin
  · split at node
    · unfold builtinNode? at node
      split at node
      · cases node
      · obtain ⟨scalar, -, rfl⟩ := Option.map_eq_some_iff.mp node
        rfl
    · cases node

/-- A node is the root of the operation that the type of its name counts for. -/
theorem root_eq_operationOf? (built : s.Built) (valid : s.validate = .ok ()) {t : TypeNode}
    (ht : t ∈ (ofSchema s).types.values) : t.root = s.operationOf? t.name := by
  cases definition : t.definition? with
  | some d =>
    obtain ⟨-, rfl⟩ := mem_types_of_definition? ht definition
    rfl
  | none =>
    rw [root_of_builtin ht definition]
    cases root : s.operationOf? t.name with
    | none => rfl
    | some op =>
      -- a root has a definition, and so would its node
      obtain ⟨d, found, -⟩ := Schema.find?_of_rootName? valid (Schema.operationOf?_iff.mp root).1
      obtain ⟨k, node⟩ := OrderedMap.mem_values_iff.mp ht
      obtain rfl : t.name = k := name_of_get?_typesOf node
      obtain rfl : t = declaredNode s d :=
        Option.some.inj (node.symm.trans (get?_typesOf_of_find? built found))
      cases definition

/-- Where an operation has a root in the graph, the type counts for that operation. -/
theorem rootName?_eq_some_iff (built : s.Built) (valid : s.validate = .ok ()) {op : Operation}
    {name : String} : (ofSchema s).rootName? op = some name ↔ s.operationOf? name = some op := by
  have counts : ∀ t, ((ofSchema s).types.values.find? fun t => t.root = some op) = some t →
      s.operationOf? t.name = some op := by
    intro t found
    rw [← root_eq_operationOf? built valid (List.mem_of_find?_eq_some found)]
    simpa using List.find?_some found
  unfold rootName?
  rw [Option.map_eq_some_iff]
  constructor
  · rintro ⟨t, found, rfl⟩
    exact counts t found
  · intro own
    have root := (Schema.operationOf?_iff.mp own).1
    obtain ⟨d, found, -⟩ := Schema.find?_of_rootName? valid root
    have node : (ofSchema s).types.get? name = some (declaredNode s d) :=
      get?_typesOf_of_find? built found
    have there : declaredNode s d ∈ (ofSchema s).types.values :=
      OrderedMap.mem_values_iff.mpr ⟨name, node⟩
    have named : (declaredNode s d).name = name := name_of_get?_typesOf node
    have rooted : (declaredNode s d).root = some op := by
      rw [root_eq_operationOf? built valid there, named, own]
    have met : ((ofSchema s).types.values.find? fun t => t.root = some op).isSome = true := by
      rw [List.find?_isSome]
      exact ⟨_, there, decide_eq_true rooted⟩
    obtain ⟨t, first⟩ := Option.isSome_iff_exists.mp met
    -- whatever node is met first, the operation has one root only
    have same := (Schema.operationOf?_iff.mp (counts t first)).1
    exact ⟨t, first, Option.some.inj (same.symm.trans root)⟩

/-- The root of an operation in the graph is that of the schema, unless an earlier operation has the
same. -/
theorem rootName?_ofSchema (built : s.Built) (valid : s.validate = .ok ()) (op : Operation) :
    (ofSchema s).rootName? op =
      if ∃ e ∈ op.earlier, s.rootName? e = s.rootName? op then none else s.rootName? op := by
  ext name
  rw [rootName?_eq_some_iff built valid, Schema.operationOf?_iff]
  split
  · next shared =>
    obtain ⟨e, he, same⟩ := shared
    refine iff_of_false ?_ nofun
    rintro ⟨root, apart⟩
    exact apart e he (same.trans root)
  · next apart =>
    refine and_iff_left_of_imp ?_
    intro root e he same
    exact apart ⟨e, he, same.trans root.symm⟩

/-- All roots of a schema are those of its graph exactly if no type is the root of two
operations. -/
theorem rootsApart_iff (built : s.Built) (valid : s.validate = .ok ()) :
    s.RootsApart ↔ ∀ op, (ofSchema s).rootName? op = s.rootName? op := by
  constructor
  · intro apart op
    rw [rootName?_ofSchema built valid, ite_eq_right_iff]
    rintro ⟨e, he, same⟩
    cases root : s.rootName? op with
    | none => rfl
    | some name =>
      rw [apart e op name (same.trans root) root] at he
      exact absurd he op.not_mem_earlier
  · intro kept op op' name root root'
    have first := (rootName?_eq_some_iff built valid).mp ((kept op).trans root)
    have second := (rootName?_eq_some_iff built valid).mp ((kept op').trans root')
    exact Option.some.inj (first.symm.trans second)

end TypeGraph

/-! ## Roots in the output -/

namespace Output

open TypeScript

variable {s : Schema} {c : Config}

/-- Whether the signature is that of a field which is subscribed to under the name. -/
def Subscribes (name : String) (signature : TypeExpr) : Prop :=
  ∃ result rest, signature =
    .reference "SubscriptionResolver" (result :: .quoted name :: parentAndContext ++ rest)

/-- Whether the signature is that of a field which is resolved once. -/
def Resolves (signature : TypeExpr) : Prop :=
  ∃ result rest, signature = .reference "Resolver" (result :: parentAndContext ++ rest)

theorem not_resolves_of_subscribes {name : String} {signature : TypeExpr}
    (subscribes : Subscribes name signature) : ¬Resolves signature := by
  obtain ⟨result, rest, rfl⟩ := subscribes
  rintro ⟨_, _, same⟩
  injection same with names
  revert names
  decide

/-- The fields of a root for subscriptions are subscribed to, and others resolved. -/
theorem fieldSignature_cases (t : TypeNode) (f : Field) :
    t.root = some .subscription ∧ Subscribes f.name (fieldSignature t f) ∨
      t.root ≠ some .subscription ∧ Resolves (fieldSignature t f) := by
  unfold fieldSignature
  by_cases root : t.root = some .subscription
  · left
    rw [if_pos root]
    exact ⟨root, _, _, rfl⟩
  · right
    rw [if_neg root]
    exact ⟨root, _, _, rfl⟩

/-- The entry of a type has the shape of a root exactly if the type is one. -/
theorem shape_ofNode (built : s.Built) (valid : s.validate = .ok ()) {t : TypeNode}
    (ht : t ∈ (TypeGraph.ofSchema s).types.values) :
    (∃ op, s.rootName? op = some t.name) ∧ (TableEntry.ofNode c t).shape = .root c.rootValueType ∨
      (¬∃ op, s.rootName? op = some t.name) ∧
        ∀ type, (TableEntry.ofNode c t).shape ≠ .root type := by
  rw [← Schema.operationOf?_isSome_iff, ← TypeGraph.root_eq_operationOf? built valid ht]
  unfold TableEntry.ofNode
  by_cases root : t.root.isSome = true
  · exact .inl ⟨root, if_pos root⟩
  · refine .inr ⟨root, fun type => ?_⟩
    simp only [if_neg root]
    cases t.kind <;> nofun

/-- The entry for a field in the contract of its owner. -/
theorem signature_cases (built : s.Built) (valid : s.validate = .ok ()) {k : Contract}
    (hk : k ∈ (blueprintOf (.ofSchema s) c).contracts) {name : String} {signature : TypeExpr}
    (entry : k.fields.get? name = some signature) :
    s.operationOf? k.typeName = some .subscription ∧ Subscribes name signature ∨
      s.operationOf? k.typeName ≠ some .subscription ∧ Resolves signature := by
  obtain ⟨t, ht, named, -, fields⟩ := exists_node_of_contract hk
  obtain ⟨f, -, same⟩ := fields _ (OrderedMap.get?_eq_some_iff_mem.mp entry)
  obtain ⟨rfl, rfl⟩ := Prod.mk.inj same
  rw [named, ← TypeGraph.root_eq_operationOf? built valid ht]
  exact fieldSignature_cases t f

/-- Every field of an object or interface has an entry in the contract of its owner. -/
theorem exists_entry (built : s.Built) {d : TypeDef} (found : s.find? d.name = some d) {f : Field}
    (hf : f ∈ d.fields) :
    ∃ k signature, (blueprintOf (.ofSchema s) c).contract? d.name = some k ∧
      k.fields.get? f.name = some signature := by
  have node : (TypeGraph.ofSchema s).types.get? d.name = some (TypeGraph.declaredNode s d) :=
    TypeGraph.get?_typesOf_of_find? built found
  have there : f.name ∈ (fieldSignatures (TypeGraph.declaredNode s d)).keys := by
    rw [fieldSignatures, OrderedMap.mem_keys_ofList, List.map_map]
    exact List.mem_map_of_mem hf
  obtain ⟨signature, entry⟩ := OrderedMap.mem_keys_iff.mp there
  have contract (unions : List UnionVariants) :
      ∃ k, Contract.ofNode? (.ofSchema s) c unions (TypeGraph.declaredNode s d) = some k ∧
        k.fields = fieldSignatures (TypeGraph.declaredNode s d) := by
    obtain ⟨name, description, body⟩ := d
    cases body with
    | object | interface => exact ⟨_, rfl, rfl⟩
    | union | scalar | enum | inputObject => cases hf
  obtain ⟨k, made, fields⟩ :=
    contract (((TypeGraph.ofSchema s).ofKind .union).map variantsOf)
  refine ⟨k, signature, ?_, by rw [fields, entry]⟩
  show (Contract.ofGraph _ c _).find? _ = some k
  rw [find?_contracts (fun _ _ => TypeGraph.name_of_get?_typesOf), node]
  exact made

/-- What becomes of the roots of a schema. The graph has the root of an operation unless the type is
the root of an earlier operation as well, so it has all roots exactly if no type is the root of two
operations. The entries of a type in both tables are those of a root exactly if the type is the root
of some operation. Every field of an object or interface has an entry in the contract of its owner;
it is subscribed to under its name if the owner is the root for subscriptions and no other, and
resolved if not. -/
theorem roots_in_output (built : s.Built) (valid : s.validate = .ok ())
    (usable : c.validate = .ok ()) :
    let g := TypeGraph.ofSchema s
    (∀ op, g.rootName? op =
      if ∃ e ∈ op.earlier, s.rootName? e = s.rootName? op then none else s.rootName? op) ∧
    (s.RootsApart ↔ ∀ op, g.rootName? op = s.rootName? op) ∧
    ∃ b, Blueprint.ofGraph g c = .ok b ∧
      (∀ e ∈ b.table,
        (∃ op, s.rootName? op = some e.name) ∧ e.shape = .root c.rootValueType ∨
          (¬∃ op, s.rootName? op = some e.name) ∧ ∀ type, e.shape ≠ .root type) ∧
      (∀ op name, s.rootName? op = some name →
        b.table.resolversTypes.property? name =
            some (.reference Names.resolverTypeWrapper [.raw c.rootValueType]) ∧
          b.table.resolversParentTypes.property? name = some (.raw c.rootValueType)) ∧
      (∀ d, s.find? d.name = some d → ∀ f ∈ d.fields, ∃ k signature,
        b.contract? d.name = some k ∧ k.fields.get? f.name = some signature) ∧
      ∀ k ∈ b.contracts, ∀ name signature, k.fields.get? name = some signature →
        (Subscribes name signature ↔ s.rootName? .subscription = some k.typeName ∧
          ∀ op ∈ [Operation.query, .mutation], s.rootName? op ≠ some k.typeName) ∧
        (Resolves signature ↔ ¬Subscribes name signature) := by
  intro g
  have sound : g.Sound := TypeGraph.sound_ofSchema built valid
  refine ⟨TypeGraph.rootName?_ofSchema built valid, TypeGraph.rootsApart_iff built valid, _,
    Blueprint.ofGraph_eq_ok sound usable, ?_, ?_, ?_, ?_⟩
  · intro e he
    obtain ⟨t, ht, rfl⟩ := List.mem_map.mp he
    exact shape_ofNode built valid ht
  · intro op name root
    obtain ⟨d, found, -⟩ := Schema.find?_of_rootName? valid root
    have node : g.types.get? name = some (TypeGraph.declaredNode s d) :=
      TypeGraph.get?_typesOf_of_find? built found
    have ht := OrderedMap.mem_values_iff.mpr ⟨name, node⟩
    have named : (TypeGraph.declaredNode s d).name = name := TypeGraph.name_of_get?_typesOf node
    have shape : (TableEntry.ofNode c (TypeGraph.declaredNode s d)).shape =
        .root c.rootValueType := by
      rcases shape_ofNode (c := c) built valid ht with ⟨-, shape⟩ | ⟨none, -⟩
      · exact shape
      · exact absurd ⟨op, by rw [root, named]⟩ none
    constructor
    · refine (property?_resolversTypes c node).trans ?_
      rw [TableEntry.resolverType, TableEntry.typeIn, shape]
    · refine (property?_resolversParentTypes c node).trans ?_
      rw [TableEntry.parentType, TableEntry.typeIn, shape]
  · intro d found f hf
    exact exists_entry built found hf
  · intro k hk name signature entry
    have counts : s.operationOf? k.typeName = some .subscription ↔
        s.rootName? .subscription = some k.typeName ∧
          ∀ op ∈ [Operation.query, .mutation], s.rootName? op ≠ some k.typeName :=
      Schema.operationOf?_iff
    rw [← counts]
    rcases signature_cases built valid hk entry with ⟨root, subscribes⟩ | ⟨other, resolves⟩
    · exact ⟨iff_of_true subscribes root,
        iff_of_false (not_resolves_of_subscribes subscribes) (not_not_intro subscribes)⟩
    · have not_subscribes : ¬Subscribes name signature := fun subscribes =>
        not_resolves_of_subscribes subscribes resolves
      exact ⟨iff_of_false not_subscribes other, iff_of_true resolves not_subscribes⟩

/-- Roots of other names than the usual ones, where an object of a usual name is none. -/
theorem roots_in_output_example :
    let object (name field : String) : TypeDef :=
      ⟨name, none, .object [] [⟨field, .named "Int", none, []⟩]⟩
    let s := Schema.ofTypes [object "Q" "now", object "S" "tick", object "Mutation" "set"]
      { query := some "Q", subscription := some "S" }
    let c : Config := { rootValueType := "Root" }
    (TypeGraph.ofSchema s).rootName? .subscription = some "S" ∧
    (TypeGraph.ofSchema s).rootName? .mutation = none ∧
    ∃ b k signature, Blueprint.ofGraph (.ofSchema s) c = .ok b ∧
      b.table.resolversParentTypes.property? "S" = some (.raw "Root") ∧
      b.contract? "S" = some k ∧ k.fields.get? "tick" = some signature ∧
      Subscribes "tick" signature := by
  intro object s c
  obtain ⟨roots, -, b, made, -, tables, entries, signatures⟩ :=
    roots_in_output (s := s) (c := c) (Schema.built_ofTypes _ _) rfl (by decide)
  obtain ⟨k, signature, found, entry⟩ :=
    entries (object "S" "tick") rfl _ (List.mem_singleton_self _)
  refine ⟨(roots .subscription).trans rfl, (roots .mutation).trans rfl, b, k, signature, made,
    (tables .subscription "S" rfl).2, found, entry, ?_⟩
  have named : k.typeName = "S" := by simpa using List.find?_some found
  refine (signatures k (List.mem_of_find?_eq_some found) _ _ entry).1.mpr ?_
  rw [named]
  exact ⟨rfl, by decide⟩

/-- One type that is named as the root of all operations: the schema is accepted, in the graph two
operations have no root, and the fields are not subscribed to. -/
theorem roots_shared :
    let root : TypeDef := ⟨"R", none, .object [] [⟨"a", .named "Int", none, []⟩]⟩
    let s := Schema.ofTypes [root]
      { query := some "R", mutation := some "R", subscription := some "R" }
    s.validate = .ok () ∧
    (∀ op, s.rootName? op = some "R") ∧
    (TypeGraph.ofSchema s).rootName? .mutation = none ∧
    (TypeGraph.ofSchema s).rootName? .subscription = none ∧
    ∃ b k signature, Blueprint.ofGraph (.ofSchema s) {} = .ok b ∧ b.contract? "R" = some k ∧
      k.fields.get? "a" = some signature ∧ Resolves signature ∧ ¬Subscribes "a" signature := by
  intro root s
  have built : s.Built := Schema.built_ofTypes _ _
  have usable : (default : Config).validate = .ok () := by decide
  obtain ⟨k, signature, found, entry⟩ :=
    exists_entry (c := {}) built (show s.find? root.name = some root from rfl)
      (List.mem_singleton_self _)
  have named : k.typeName = "R" := by simpa using List.find?_some found
  refine ⟨rfl, fun op => by cases op <;> rfl, by decide, by decide, _, k, signature,
    Blueprint.ofGraph_eq_ok (TypeGraph.sound_ofSchema built rfl) usable, found, entry, ?_⟩
  rcases signature_cases built rfl (List.mem_of_find?_eq_some found) entry with
    ⟨counts, -⟩ | ⟨-, resolves⟩
  · rw [named] at counts
    exact absurd counts (by decide)
  · exact ⟨resolves, fun subscribes => not_resolves_of_subscribes subscribes resolves⟩

end Output

end ResolverTypes
