import ResolverTypes.Proofs.Output.Document

/-!
# Which names a document declares and which it imports

The names that a document declares come from five places: helpers have fixed names, a type that is
no scalar has its own, and three more are made from the names of types for arguments, contracts and
configurations of scalars. `declaredNames_document` lists them section by section, and up to order
they are the names of the types and those that are taken otherwise (`declaredNames_perm`). What is
imported is imported by the first declaration.
-/

namespace ResolverTypes.Output

open TypeScript

variable {g : TypeGraph} {c : Config}

/-- The document for a graph in which every reference leads to a type and every union has
members. -/
abbrev documentFor (g : TypeGraph) (c : Config) : Document := (blueprintOf g c).document g c

/-! ## The five places -/

/-- The names of the helpers and tables. One of the tables is there only if there is a union. -/
def helperNames (g : TypeGraph) : List String :=
  [Names.maybe, Names.inputMaybe, "Exact", "RequireFields", Names.scalars,
    Names.resolverTypeWrapper, "ResolverFn", "Resolver", "SubscriptionSubscribeFn",
    "SubscriptionResolveFn", "SubscriptionSubscriberObject", "SubscriptionResolver",
    "TypeResolveFn", "IsTypeOfResolverFn"] ++
    (if g.hasUnions then [Names.resolversUnionTypes] else []) ++
      [Names.resolversTypes, Names.resolversParentTypes, Names.resolvers]

/-- The names of the configurations of custom scalars. -/
def scalarConfigNames (g : TypeGraph) : List String := g.customScalars.map Names.scalarConfig

/-- All names but those of the types themselves. -/
def takenNames (g : TypeGraph) : List String :=
  helperNames g ++ argsNames g ++ contractNames g ++ scalarConfigNames g

/-! ## Names section by section -/

/-- A definition adds its own name, unless it is a scalar, and the names for its arguments. -/
theorem names_of_definition (g : TypeGraph) (d : TypeDef) :
    ((enumDeclaration? d).bind (·.declares?)).toList ++
        (typeDeclarations g d).filterMap (·.declares?) =
      (if d.kind = .scalar then [] else [d.name]) ++
        (d.fields.filter fun f => !f.args.isEmpty).map fun f => Names.args d.name f.name := by
  have args (fields : List Field) :
      (argsDeclarations g d.name fields).filterMap (·.declares?) =
        (fields.filter fun f => !f.args.isEmpty).map fun f => Names.args d.name f.name := by
    rw [argsDeclarations, List.filterMap_map]
    exact congrFun List.filterMap_eq_map' _
  obtain ⟨name, description, body⟩ := d
  cases body with
  | object interfaces fields | interface interfaces fields =>
    exact congrArg (name :: ·) (args fields)
  | union | scalar | enum | inputObject => rfl

/-- Enums come before all other types, so both kinds of base types together are those of the graph
in another order. -/
theorem baseTypes_perm (g : TypeGraph) :
    ((enumDeclarations g).filterMap (·.declares?) ++
      (shapeDeclarations g).filterMap (·.declares?)).Perm (baseNames g ++ argsNames g) := by
  have enums : (enumDeclarations g).filterMap (·.declares?) =
      (g.types.values.filterMap (·.definition?)).flatMap fun d =>
        ((enumDeclaration? d).bind (·.declares?)).toList := by
    rw [enumDeclarations, List.filterMap_filterMap, List.filterMap_eq_flatMap_toList]
  rw [enums, shapeDeclarations, List.filterMap_flatMap, baseNames, argsNames, List.perm_iff_count]
  intro name
  induction g.types.values with
  | nil => rfl
  | cons t rest ih =>
    have own : (((t :: rest).filter fun t => t.kind ≠ .scalar).map (·.name)).count name =
        (if t.kind = .scalar then [] else [t.name]).count name +
          ((rest.filter fun t => t.kind ≠ .scalar).map (·.name)).count name := by
      by_cases scalar : t.kind = .scalar <;> simp [scalar, List.count_cons, Nat.add_comm]
    simp only [List.count_append] at ih
    simp only [List.count_append, own, List.flatMap_cons]
    cases definition : t.definition? with
    | none =>
      have scalar : t.kind = .scalar := by
        by_contra other
        obtain ⟨d, declared⟩ := TypeGraph.exists_definition other
        rw [definition] at declared
        cases declared
      have fields : t.fields = [] := by rw [TypeNode.fields, definition]
      rw [List.filterMap_cons_none definition]
      simpa [scalar, fields] using ih
    | some d =>
      obtain ⟨kind, named, fields, -⟩ := TypeGraph.of_definition? definition
      have added := congrArg (List.count name) (names_of_definition g d)
      rw [kind, named, fields] at added
      simp only [List.count_append] at added
      simp only [List.filterMap_cons, definition, List.flatMap_cons, List.count_append]
      omega

/-- The names of the contracts. -/
theorem map_name_contracts (unions : List UnionVariants) :
    (Contract.ofGraph g c unions).map Contract.name = contractNames g := by
  rw [Contract.ofGraph, contractNames, List.map_filterMap, ← List.filterMap_eq_map,
    ← List.filterMap_eq_filter, List.filterMap_filterMap]
  apply List.filterMap_congr
  intro t _
  unfold Contract.ofNode?
  cases kind : t.kind <;> simp [Option.guard, kind, Contract.name]

/-- What a document declares, section by section. -/
theorem declaredNames_document (g : TypeGraph) (c : Config) :
    (documentFor g c).declaredNames =
      [Names.maybe, Names.inputMaybe, "Exact", "RequireFields"] ++
        (Names.scalars :: (enumDeclarations g).filterMap (·.declares?) ++
          (shapeDeclarations g).filterMap (·.declares?)) ++
        [Names.resolverTypeWrapper, "ResolverFn", "Resolver", "SubscriptionSubscribeFn",
          "SubscriptionResolveFn", "SubscriptionSubscriberObject", "SubscriptionResolver",
          "TypeResolveFn", "IsTypeOfResolverFn"] ++
        ((if g.hasUnions then [Names.resolversUnionTypes] else []) ++
          [Names.resolversTypes, Names.resolversParentTypes]) ++
        (contractNames g ++ scalarConfigNames g ++ [Names.resolvers]) := by
  let b := blueprintOf g c
  have base : (scalarsDeclaration g c :: enumDeclarations g ++ shapeDeclarations g).filterMap
      (·.declares?) = Names.scalars :: (enumDeclarations g).filterMap (·.declares?) ++
        (shapeDeclarations g).filterMap (·.declares?) := List.filterMap_append
  have variants : (UnionVariants.declaration? b.unions).toList.filterMap (·.declares?) =
      if g.hasUnions then [Names.resolversUnionTypes] else [] := by
    show (UnionVariants.declaration? ((g.ofKind .union).map variantsOf)).toList.filterMap _ = _
    unfold UnionVariants.declaration? TypeGraph.hasUnions
    rw [List.isEmpty_map]
    cases (g.ofKind .union).isEmpty <;> rfl
  have contracts : (b.contracts.map (Contract.declaration c)).filterMap (·.declares?) =
      contractNames g := by
    rw [← map_name_contracts, List.filterMap_map]
    exact congrFun List.filterMap_eq_map' _
  have configs : (b.scalars.map scalarConfigDeclaration).filterMap (·.declares?) =
      scalarConfigNames g := by
    rw [List.filterMap_map]
    exact congrFun List.filterMap_eq_map' _
  have tables : ((UnionVariants.declaration? b.unions).toList ++
      [b.table.resolversTypes, b.table.resolversParentTypes]).filterMap (·.declares?) =
        (if g.hasUnions then [Names.resolversUnionTypes] else []) ++
          [Names.resolversTypes, Names.resolversParentTypes] := by
    rw [List.filterMap_append, variants]
    rfl
  have resolvers : (b.contracts.map (Contract.declaration c) ++
      b.scalars.map scalarConfigDeclaration ++ [resolversDeclaration g c]).filterMap
        (·.declares?) = contractNames g ++ scalarConfigNames g ++ [Names.resolvers] := by
    rw [List.filterMap_append, List.filterMap_append, contracts, configs]
    rfl
  rw [Document.declaredNames, documentFor, Blueprint.document, Document.declarations_ofSections,
    List.filterMap_flatMap]
  simp only [List.flatMap_cons, List.flatMap_nil]
  rw [base, tables, resolvers, List.append_nil]
  simp only [← List.append_assoc]
  rfl

/-- The names that a document declares are those of the types and those that are taken. -/
theorem declaredNames_perm (g : TypeGraph) (c : Config) :
    (documentFor g c).declaredNames.Perm (baseNames g ++ takenNames g) := by
  rw [declaredNames_document, List.perm_iff_count]
  intro name
  have base := (baseTypes_perm g).count_eq name
  unfold takenNames helperNames
  simp only [List.count_append, List.count_cons, List.cons_append, List.count_nil] at base ⊢
  omega

/-! ## What is among the declared names -/

theorem takenNames_declared {name : String} (taken : name ∈ takenNames g) :
    name ∈ (documentFor g c).declaredNames :=
  (declaredNames_perm g c).mem_iff.mpr (List.mem_append_right _ taken)

theorem baseNames_declared {name : String} (base : name ∈ baseNames g) :
    name ∈ (documentFor g c).declaredNames :=
  (declaredNames_perm g c).mem_iff.mpr (List.mem_append_left _ base)

theorem helperNames_declared {name : String} (helper : name ∈ helperNames g) :
    name ∈ (documentFor g c).declaredNames :=
  takenNames_declared (List.mem_append_left _ (List.mem_append_left _
    (List.mem_append_left _ helper)))

theorem argsNames_declared {name : String} (args : name ∈ argsNames g) :
    name ∈ (documentFor g c).declaredNames :=
  takenNames_declared (List.mem_append_left _ (List.mem_append_left _
    (List.mem_append_right _ args)))

theorem contractNames_declared {name : String} (contract : name ∈ contractNames g) :
    name ∈ (documentFor g c).declaredNames :=
  takenNames_declared (List.mem_append_left _ (List.mem_append_right _ contract))

/-- The names that every document declares and that references come back to. -/
def fixedNames : List String :=
  [Names.maybe, Names.inputMaybe, Names.resolverTypeWrapper, Names.scalars, Names.resolversTypes,
    Names.resolversParentTypes, "RequireFields", "Resolver", "SubscriptionResolver",
    "TypeResolveFn", "IsTypeOfResolverFn"]

theorem fixedNames_declared : ∀ name ∈ fixedNames, name ∈ (documentFor g c).declaredNames := by
  have helpers : ∀ name ∈ fixedNames, name ∈ helperNames g := by
    unfold helperNames
    cases g.hasUnions <;> decide
  exact fun name fixed => helperNames_declared (helpers name fixed)

theorem variants_declared {key : String} (union : key ∈ unionNames g) :
    Names.resolversUnionTypes ∈ (documentFor g c).declaredNames := by
  obtain ⟨u, there⟩ := exists_variants union
  have unions : g.hasUnions = true := by rw [← variants_isSome, there, Option.isSome_some]
  apply helperNames_declared
  rw [helperNames, unions]
  decide

/-! ## Declarations by their form -/

/-- A shape is an alias without parameters. -/
theorem form_of_shapeDeclarations {e : Declaration} (he : e ∈ shapeDeclarations g) :
    ∃ name type, e.form = .typeAlias name [] type := by
  obtain ⟨d, -, he⟩ := List.mem_flatMap.mp he
  have args {fields : List Field} (he : e ∈ argsDeclarations g d.name fields) :
      ∃ name type, e.form = .typeAlias name [] type := by
    obtain ⟨f, -, rfl⟩ := List.mem_map.mp he
    exact ⟨_, _, rfl⟩
  obtain ⟨typeName, description, body⟩ := d
  cases body with
  | object | interface =>
    rcases List.mem_cons.mp he with rfl | he
    · exact ⟨_, _, rfl⟩
    · exact args he
  | union | inputObject =>
    rw [List.mem_singleton.mp he]
    exact ⟨_, _, rfl⟩
  | scalar | enum => cases he

/-- What cannot be found under a name is the import, or a helper that is taken over as it is
given. -/
theorem cases_of_mem_document {d : Declaration} (hd : d ∈ (documentFor g c).declarations) :
    d = Preamble.imports (!g.customScalars.isEmpty) ∨
      d ∈ Preamble.propertyHelpers ++ Preamble.resolverFunctions ∨ ∃ name, d.name? = some name := by
  rcases mem_document.mp hd with rfl | hd | (rfl | hd | hd) | hd | (hd | hd) | hd
  · exact .inl rfl
  · rcases List.mem_cons.mp hd with rfl | hd
    · exact .inr (.inr ⟨_, rfl⟩)
    · rcases List.mem_cons.mp hd with rfl | hd
      · exact .inr (.inr ⟨_, rfl⟩)
      · exact .inr (.inl (List.mem_append_left _ hd))
  · exact .inr (.inr ⟨_, rfl⟩)
  · obtain ⟨name, members, form⟩ := form_of_enumDeclarations hd
    exact .inr (.inr ⟨name, by rw [Declaration.name?, form]⟩)
  · obtain ⟨name, type, form⟩ := form_of_shapeDeclarations hd
    exact .inr (.inr ⟨name, by rw [Declaration.name?, form]⟩)
  · rcases List.mem_cons.mp hd with rfl | hd
    · exact .inr (.inr ⟨_, rfl⟩)
    · exact .inr (.inl (List.mem_append_right _ hd))
  · unfold UnionVariants.declaration? at hd
    split at hd
    · cases hd
    · obtain rfl := Option.some.inj hd
      exact .inr (.inr ⟨_, rfl⟩)
  · rcases List.mem_cons.mp hd with rfl | hd
    · exact .inr (.inr ⟨_, rfl⟩)
    · rw [List.mem_singleton.mp hd]
      exact .inr (.inr ⟨_, rfl⟩)
  · rcases List.mem_append.mp hd with hd | hd
    · rcases List.mem_append.mp hd with hd | hd
      · obtain ⟨k, -, rfl⟩ := List.mem_map.mp hd
        exact .inr (.inr ⟨_, rfl⟩)
      · obtain ⟨scalar, -, rfl⟩ := List.mem_map.mp hd
        exact .inr (.inr ⟨_, rfl⟩)
    · rw [List.mem_singleton.mp hd]
      exact .inr (.inr ⟨_, rfl⟩)

/-! ## What is imported -/

theorem importedNames_of_name? {d : Declaration} {name : String} (named : d.name? = some name) :
    d.importedNames = [] := by
  obtain ⟨form, description⟩ := d
  cases form with
  | imports => cases named
  | typeAlias | enum | interface | verbatim => rfl

/-- Only the first declaration imports anything. -/
theorem mem_importedNames {name : String} : name ∈ (documentFor g c).importedNames ↔
    name ∈ (Preamble.imports (!g.customScalars.isEmpty)).importedNames := by
  constructor
  · intro h
    obtain ⟨d, hd, h⟩ := List.mem_flatMap.mp h
    rcases cases_of_mem_document hd with rfl | helper | ⟨own, named⟩
    · exact h
    · have nothing : (Preamble.propertyHelpers ++ Preamble.resolverFunctions).flatMap
          (·.importedNames) = [] := rfl
      rw [List.flatMap_eq_nil_iff.mp nothing d helper] at h
      cases h
    · rw [importedNames_of_name? named] at h
      cases h
  · intro h
    exact List.mem_flatMap.mpr ⟨_, mem_document.mpr (.inl rfl), h⟩

theorem imported_iff {name : String} (library : name ∈ scalarLibraryNames) :
    name ∈ (documentFor g c).importedNames ↔ g.customScalars ≠ [] := by
  rw [mem_importedNames]
  cases g.customScalars with
  | nil =>
    refine iff_of_false ?_ (by simp)
    show name ∉ ["GraphQLResolveInfo"]
    revert name
    decide
  | cons first rest =>
    refine iff_of_true ?_ (by simp)
    show name ∈ ["GraphQLResolveInfo", "GraphQLScalarType", "GraphQLScalarTypeConfig"]
    revert name
    decide

end ResolverTypes.Output
