import ResolverTypes.Proofs.Output.BaseReferences

/-!
# References of resolvers

What the contracts, the configurations of scalars and `Resolvers` may refer to is `InResolvers`:
their own parameters, the types of arguments, contracts of types, the runtime library's types for
scalars, and entries of both tables. It leaves base types out, so that a resolver refers to values
through the tables only.
-/

namespace ResolverTypes

/-- Inserting bindings one after the other adds no other bindings. -/
theorem OrderedMap.mem_entries_ofList {α : Type} {l : List (String × α)} {e : String × α}
    (h : e ∈ (OrderedMap.ofList l).entries) : e ∈ l := by
  have insert (m : OrderedMap α) (k : String) (v : α) (he : e ∈ (m.insert k v).entries) :
      e = (k, v) ∨ e ∈ m.entries := by
    rw [← OrderedMap.get?_eq_some_iff_mem, OrderedMap.get?_insert] at he
    split at he
    · next same =>
      left
      rw [← same, Option.some.inj he]
    · exact .inr (OrderedMap.get?_eq_some_iff_mem.mp he)
  -- for any map to start from, since the bindings before are in the way otherwise
  have fold (l : List (String × α)) (m : OrderedMap α)
      (he : e ∈ (l.foldl (fun m e => m.insert e.1 e.2) m).entries) : e ∈ l ∨ e ∈ m.entries := by
    induction l generalizing m with
    | nil => exact .inr he
    | cons first rest ih =>
      rcases ih _ he with he | he
      · exact .inl (List.mem_cons_of_mem _ he)
      · rcases insert m first.1 first.2 he with rfl | he
        · exact .inl List.mem_cons_self
        · exact .inr he
  rcases fold l ∅ h with h | h
  · exact h
  · cases h

namespace Output

open TypeScript

variable {g : TypeGraph} {c : Config}

/-- The names of the types of arguments, one for every field that has any. -/
def argsNames (g : TypeGraph) : List String :=
  g.types.values.flatMap fun t =>
    (t.fields.filter fun f => !f.args.isEmpty).map fun f => Names.args t.name f.name

/-- The names of the contracts. -/
def contractNames (g : TypeGraph) : List String :=
  (g.types.values.filter fun t => t.kind ∈ [.object, .interface, .union]).map fun t =>
    Names.contract t.name

/-- The types of resolver functions, and the wrappers that go with them. -/
def functionNames : List String :=
  [Names.maybe, "Array", "Partial", "RequireFields", "Resolver", "SubscriptionResolver",
    "TypeResolveFn", "IsTypeOfResolverFn"]

/-- Whether a declaration about resolvers with the given parameters may refer so. -/
def InResolvers (g : TypeGraph) (params : List String) : Reference → Prop
  | .plain name =>
    name ∈ params ∨ name = "any" ∨ name ∈ argsNames g ∨
      name = "GraphQLScalarType" ∧ g.customScalars ≠ []
  | .applied name =>
    name ∈ functionNames ∨ name ∈ contractNames g ∨
      name = "GraphQLScalarTypeConfig" ∧ g.customScalars ≠ []
  | .entry table key =>
    table ∈ [Names.resolversTypes, Names.resolversParentTypes] ∧ key ∈ g.types.keys
  | .handed _ => False
  | .text _ => True

/-- The parameters of a contract. -/
def contractParams : List String := [Names.contextType, Names.parentType]

/-! ## Signatures -/

theorem parentAndContext_inResolvers :
    ∀ r ∈ parentAndContext.flatMap (·.references), InResolvers g contractParams r := by
  intro r hr
  simp only [parentAndContext, List.flatMap_cons, List.flatMap_nil, TypeExpr.references_name,
    List.append_nil, List.singleton_append, List.mem_cons, List.not_mem_nil, or_false] at hr
  rcases hr with rfl | rfl
  · exact .inl (by decide)
  · exact .inl (by decide)

theorem resultType_inResolvers {t : TypeRef} (known : t.innermost ∈ g.types.keys) :
    ∀ r ∈ (resultType t).references, InResolvers g contractParams r := by
  apply forall_references_wrap
  · exact .inl (by decide)
  · exact .inl (by decide)
  · intro r hr
    rw [TypeExpr.references_index_name, List.mem_singleton] at hr
    rw [hr]
    exact ⟨by decide, known⟩

theorem argsType_inResolvers {t : TypeNode} (ht : t ∈ g.types.values) {f : Field}
    (hf : f ∈ t.fields) (some : f.args.isEmpty = false) :
    ∀ r ∈ (argsType t.name f).references, InResolvers g contractParams r := by
  have there : Names.args t.name f.name ∈ argsNames g :=
    List.mem_flatMap.mpr ⟨t, ht, List.mem_map_of_mem (List.mem_filter.mpr ⟨hf, by simp [some]⟩)⟩
  have all : ∀ r ∈ (TypeExpr.name (Names.args t.name f.name)).references,
      InResolvers g contractParams r := by
    intro r hr
    rw [TypeExpr.references_name, List.mem_singleton] at hr
    rw [hr]
    exact .inr (.inr (.inl there))
  intro r hr
  unfold argsType at hr
  split at hr
  · rw [TypeExpr.references_reference, List.flatMap_singleton] at hr
    rcases List.mem_cons.mp hr with rfl | hr
    · exact .inl (by decide)
    · exact all r hr
  · rw [TypeExpr.references_reference, List.flatMap_cons, List.flatMap_singleton] at hr
    rcases List.mem_cons.mp hr with rfl | hr
    · exact .inl (by decide)
    · rcases List.mem_append.mp hr with hr | hr
      · exact all r hr
      · obtain ⟨name, -, rfl⟩ := TypeExpr.mem_references_literals.mp hr
        trivial

theorem fieldSignature_inResolvers {t : TypeNode} (ht : t ∈ g.types.values) {f : Field}
    (hf : f ∈ t.fields) (known : f.type.innermost ∈ g.types.keys) :
    ∀ r ∈ (fieldSignature t f).references, InResolvers g contractParams r := by
  have args : ∀ r ∈ (if f.args.isEmpty then [] else [argsType t.name f]).flatMap (·.references),
      InResolvers g contractParams r := by
    intro r hr
    split at hr
    · cases hr
    · next some =>
      rw [List.flatMap_singleton] at hr
      exact argsType_inResolvers ht hf (by simpa using some) r hr
  intro r hr
  unfold fieldSignature at hr
  dsimp only at hr
  -- both kinds of function end with the same arguments
  generalize (if f.args.isEmpty then [] else [argsType t.name f]) = given at args hr
  split at hr
  · rw [List.cons_append, List.cons_append, TypeExpr.references_reference] at hr
    simp only [List.flatMap_cons, List.flatMap_append, TypeExpr.references_quoted,
      List.mem_cons, List.mem_append, List.not_mem_nil, or_false] at hr
    rcases hr with rfl | hr | rfl | hr | hr
    · exact .inl (by decide)
    · exact resultType_inResolvers known r hr
    · trivial
    · exact parentAndContext_inResolvers r hr
    · exact args r hr
  · rw [List.cons_append, TypeExpr.references_reference] at hr
    simp only [List.flatMap_cons, List.flatMap_append, List.mem_cons, List.mem_append] at hr
    rcases hr with rfl | hr | hr | hr
    · exact .inl (by decide)
    · exact resultType_inResolvers known r hr
    · exact parentAndContext_inResolvers r hr
    · exact args r hr

/-- A choice between object types refers to them as texts. -/
theorem resolveTypeSignature_inResolvers {possible : TypeExpr}
    (texts : ∀ r ∈ possible.references, ∃ name, r = .text name) :
    ∀ r ∈ (resolveTypeSignature possible).references, InResolvers g contractParams r := by
  intro r hr
  rw [resolveTypeSignature, TypeExpr.references_reference, List.flatMap_cons] at hr
  rcases List.mem_cons.mp hr with rfl | hr
  · exact .inl (by decide)
  · rcases List.mem_append.mp hr with hr | hr
    · obtain ⟨name, rfl⟩ := texts r hr
      trivial
    · exact parentAndContext_inResolvers r hr

/-! ## Contracts -/

/-- The contracts of a graph whose unions all have members. -/
abbrev contractsOf (g : TypeGraph) (c : Config) : List Contract :=
  Contract.ofGraph g c ((g.ofKind .union).map variantsOf)

theorem exists_node_of_contract {k : Contract} (hk : k ∈ contractsOf g c) :
    ∃ t ∈ g.types.values, k.typeName = t.name ∧ t.kind ∈ [.object, .interface, .union] ∧
      ∀ e ∈ k.fields.entries, ∃ f ∈ t.fields, e = (f.name, fieldSignature t f) := by
  obtain ⟨t, ht, h⟩ := List.mem_filterMap.mp hk
  refine ⟨t, ht, ?_⟩
  have fields : ∀ e ∈ (fieldSignatures t).entries,
      ∃ f ∈ t.fields, e = (f.name, fieldSignature t f) := by
    intro e he
    obtain ⟨f, hf, rfl⟩ := List.mem_map.mp (OrderedMap.mem_entries_ofList he)
    exact ⟨f, hf, rfl⟩
  unfold Contract.ofNode? at h
  cases kind : t.kind with
  | object =>
    rw [kind] at h
    obtain rfl := Option.some.inj h
    exact ⟨rfl, by decide, fields⟩
  | interface =>
    rw [kind] at h
    obtain rfl := Option.some.inj h
    exact ⟨rfl, by decide, fields⟩
  | union =>
    rw [kind] at h
    obtain rfl := Option.some.inj h
    exact ⟨rfl, by decide, nofun⟩
  | scalar | enum | inputObject =>
    rw [kind] at h
    cases h

/-- A contract that chooses between object types chooses between types of the graph, if any. -/
theorem resolveType_cases (sound : g.Sound) {k : Contract} (hk : k ∈ contractsOf g c)
    {signature : TypeExpr} (has : k.resolveType = some signature) :
    signature = resolveTypeSignature (.raw "null") ∨
      ∃ names : List String, (∀ name ∈ names, name ∈ g.types.keys) ∧
        signature = resolveTypeSignature (.union (names.map .literal)) := by
  obtain ⟨t, ht, h⟩ := List.mem_filterMap.mp hk
  unfold Contract.ofNode? at h
  cases kind : t.kind with
  | interface =>
    rw [kind] at h
    obtain rfl := Option.some.inj h
    obtain rfl := Option.some.inj has
    unfold possibleTypes
    split
    · exact .inl rfl
    · exact .inr ⟨_, sound.implementing t.name, rfl⟩
  | union =>
    rw [kind] at h
    obtain rfl := Option.some.inj h
    obtain rfl := Option.some.inj has
    split
    · next u found =>
      obtain ⟨w, hw, rfl⟩ := List.mem_map.mp (List.mem_of_find?_eq_some found)
      refine .inr ⟨_, ?_, rfl⟩
      intro name member
      obtain ⟨o, node, -⟩ := sound.members w hw name (List.mem_eraseDups.mp member)
      exact OrderedMap.mem_keys_of_get? node
    · exact .inl rfl
  | object =>
    rw [kind] at h
    obtain rfl := Option.some.inj h
    cases has
  | scalar | enum | inputObject =>
    rw [kind] at h
    cases h

/-- The object types that a value of an abstract type may have are types of the graph. -/
theorem possible_of_resolveType (sound : g.Sound) {k : Contract} (hk : k ∈ contractsOf g c)
    {signature : TypeExpr} (has : k.resolveType = some signature) :
    ∃ possible, signature = resolveTypeSignature possible ∧
      ∀ r ∈ possible.references, ∃ name ∈ g.types.keys, r = .text name := by
  rcases resolveType_cases sound hk has with rfl | ⟨names, known, rfl⟩
  · refine ⟨_, rfl, ?_⟩
    rw [TypeExpr.references_raw]
    nofun
  · refine ⟨_, rfl, ?_⟩
    intro r hr
    obtain ⟨name, member, same⟩ := TypeExpr.mem_references_literals.mp hr
    exact ⟨name, known name member, same⟩

theorem contract_inResolvers (sound : g.Sound) {k : Contract} (hk : k ∈ contractsOf g c) :
    ∀ r ∈ (k.declaration c).references, InResolvers g contractParams r := by
  obtain ⟨t, ht, named, -, fields⟩ := exists_node_of_contract hk
  have parent : InResolvers g contractParams (.entry Names.resolversParentTypes k.typeName) :=
    ⟨by decide, named ▸ name_mem_keys sound ht⟩
  intro r hr
  simp only [Declaration.references, Contract.declaration, Declaration.headTypes,
    Declaration.bodyReferences, Declaration.bodyTypes, TypeParam.types, Contract.contextParam,
    List.flatMap_cons, List.flatMap_nil, Option.toList_none, Option.toList_some, List.nil_append,
    List.append_nil, List.flatMap_append, TypeExpr.references_raw, TypeExpr.references_index_name,
    TypeExpr.references_object, List.flatMap_map, List.mem_append, List.mem_singleton] at hr
  -- the parent type is both bound and default of its parameter
  rcases hr with (rfl | rfl) | hr
  · exact parent
  · exact parent
  · obtain ⟨e, he, hr⟩ := List.mem_flatMap.mp hr
    rcases List.mem_append.mp he with he | he
    · rcases List.mem_append.mp he with he | he
      · obtain ⟨signature, has, rfl⟩ := List.mem_map.mp he
        obtain ⟨possible, rfl, texts⟩ :=
          possible_of_resolveType sound hk (Option.mem_toList.mp has)
        refine resolveTypeSignature_inResolvers ?_ r hr
        intro r hr
        obtain ⟨name, -, rfl⟩ := texts r hr
        exact ⟨name, rfl⟩
      · obtain ⟨field, member, rfl⟩ := List.mem_map.mp he
        obtain ⟨f, hf, rfl⟩ := fields field member
        exact fieldSignature_inResolvers ht hf
          (mem_keys_of_field sound ht hf List.mem_cons_self) r hr
    · split at he
      · rw [List.mem_singleton.mp he] at hr
        rcases List.mem_cons.mp hr with rfl | hr
        · exact .inl (by decide)
        · exact parentAndContext_inResolvers r hr
      · cases he

/-! ## Custom scalars, and all contracts together -/

theorem customScalar_mem_keys (sound : g.Sound) {scalar : String} (h : scalar ∈ g.customScalars) :
    scalar ∈ g.types.keys := by
  obtain ⟨t, ht, rfl⟩ := List.mem_map.mp h
  exact name_mem_keys sound (List.mem_filter.mp ht).1

theorem scalarConfig_inResolvers (sound : g.Sound) {scalar : String}
    (h : scalar ∈ g.customScalars) :
    ∀ r ∈ (scalarConfigDeclaration scalar).references, InResolvers g [] r := by
  have custom : g.customScalars ≠ [] := List.ne_nil_of_mem h
  intro r hr
  simp only [Declaration.references, scalarConfigDeclaration, Declaration.headTypes,
    Declaration.bodyReferences, Declaration.bodyTypes, List.flatMap_cons, List.flatMap_nil,
    Option.toList_some, List.nil_append, List.append_nil, TypeExpr.references_reference,
    TypeExpr.references_index_name, TypeExpr.references_name, List.map_cons, List.map_nil,
    TypeExpr.references_literal, List.cons_append, List.mem_cons, List.not_mem_nil,
    or_false] at hr
  rcases hr with rfl | rfl | rfl | rfl
  · exact .inr (.inr ⟨rfl, custom⟩)
  · exact ⟨by decide, customScalar_mem_keys sound h⟩
  · exact .inr (.inl rfl)
  · trivial

theorem resolvers_inResolvers :
    ∀ r ∈ (resolversDeclaration g c).references, InResolvers g [Names.contextType] r := by
  intro r hr
  simp only [Declaration.references, resolversDeclaration, Declaration.headTypes,
    Declaration.bodyReferences, Declaration.bodyTypes, TypeParam.types, Contract.contextParam,
    List.flatMap_cons, List.flatMap_nil, Option.toList_none, Option.toList_some, List.nil_append,
    List.append_nil, TypeExpr.references_raw, TypeExpr.references_object] at hr
  obtain ⟨p, hp, hr⟩ := List.mem_flatMap.mp hr
  obtain ⟨t, ht, h⟩ := List.mem_filterMap.mp hp
  have contract (kind : t.kind ∈ [.object, .interface, .union])
      (hr : r ∈ (TypeExpr.reference (Names.contract t.name)
        [.name Names.contextType]).references) : InResolvers g [Names.contextType] r := by
    rw [TypeExpr.references_reference, List.flatMap_singleton, TypeExpr.references_name] at hr
    rcases List.mem_cons.mp hr with rfl | hr
    · refine .inr (.inl (List.mem_map.mpr ⟨t, List.mem_filter.mpr ⟨ht, ?_⟩, rfl⟩))
      exact decide_eq_true kind
    · rw [List.mem_singleton.mp hr]
      exact .inl List.mem_cons_self
  unfold resolversProperty? at h
  cases kind : t.kind with
  | object | interface | union =>
    rw [kind] at h
    obtain rfl := Option.some.inj h
    exact contract (by rw [kind]; decide) hr
  | scalar =>
    rw [kind] at h
    dsimp only at h
    split at h
    · cases h
    · next declared =>
      obtain rfl := Option.some.inj h
      rw [TypeExpr.references_name, List.mem_singleton] at hr
      rw [hr]
      refine .inr (.inr (.inr ⟨rfl, List.ne_nil_of_mem (a := t.name) ?_⟩))
      refine List.mem_map_of_mem (List.mem_filter.mpr ⟨ht, ?_⟩)
      simp [TypeNode.isCustomScalar, kind, declared]
  | enum | inputObject =>
    rw [kind] at h
    cases h

end Output

end ResolverTypes
