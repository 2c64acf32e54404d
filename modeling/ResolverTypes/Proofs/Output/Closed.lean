import ResolverTypes.Proofs.Output.DocumentNames

/-!
# Documents are closed under reference

Whatever a document refers to is there. The references are made in five places and their targets in
others, each of which decides on its own whether a name is that of a scalar, of a root or of a
union. `Closed` lists what their agreement amounts to, and the document of every schema that is
accepted has it (`closed_of_sound`).
-/

namespace ResolverTypes.Output

open TypeScript

/-- The names of types that no module needs to declare. -/
def standardNames : List String := ["any", "string", "unknown", "Array", "Record", "Partial"]

/-- Every reference of the document of a blueprint leads somewhere. The texts that a configuration
gives for types are its author's own: they stand in the document as they are given and are not read
(`TypeExpr.raw` refers to nothing), so what they name counts neither as mentioned nor as looked
up. -/
structure Closed (g : TypeGraph) (c : Config) (b : Blueprint) : Prop where
  /-- What a resolver answers with is a key of the table of answers. -/
  answers : ∀ d ∈ (b.document g c).declarations, ∀ key,
    .entry Names.resolversTypes key ∈ d.references → b.table.resolversTypes.HasKey key
  /-- What a resolver is given is a key of the table of parent values. -/
  parents : ∀ d ∈ (b.document g c).declarations, ∀ key,
    .entry Names.resolversParentTypes key ∈ d.references → b.table.resolversParentTypes.HasKey key
  /-- The variants of a union that are looked up are declared. -/
  variants : ∀ d ∈ (b.document g c).declarations, ∀ key,
    .entry Names.resolversUnionTypes key ∈ d.references →
      ∃ u ∈ (b.document g c).declarations,
        UnionVariants.declaration? b.unions = some u ∧ u.HasKey key
  /-- Variants are declared exactly if there is a union. -/
  variantsDeclared : (∃ u ∈ (b.document g c).declarations,
    UnionVariants.declaration? b.unions = some u) ↔ g.hasUnions = true
  /-- A representation that is looked up is one of a scalar in `Scalars`. -/
  scalars : ∀ d ∈ (b.document g c).declarations, ∀ key,
    .entry Names.scalars key ∈ d.references → (scalarsDeclaration g c).HasKey key
  /-- Nothing else is looked up. -/
  lookups : ∀ d ∈ (b.document g c).declarations, ∀ table key, .entry table key ∈ d.references →
    table ∈ [Names.scalars, Names.resolversUnionTypes, Names.resolversTypes,
      Names.resolversParentTypes]
  /-- `Scalars` and both tables are part of the document. -/
  tables : ∀ t ∈ [scalarsDeclaration g c, b.table.resolversTypes, b.table.resolversParentTypes],
    t ∈ (b.document g c).declarations
  /-- A plain name in a base type, in the variants of a union or in a table is that of an enum or
  an alias for a type's own values. -/
  baseTypes : ∀ d, d ∈ shapeDeclarations g ∨ UnionVariants.declaration? b.unions = some d ∨
      d ∈ [b.table.resolversTypes, b.table.resolversParentTypes] →
    ∀ name, .plain name ∈ d.bodyReferences →
      ∃ e ∈ (b.document g c).declarations, e ∈ baseDeclarations g ∧ e.name? = some name
  /-- A function that decides which object type a value has decides between keys of both tables. -/
  possibleTypes : ∀ k ∈ b.contracts, ∀ signature, k.resolveType = some signature →
    ∀ name, .text name ∈ signature.references →
      b.table.resolversTypes.HasKey name ∧ b.table.resolversParentTypes.HasKey name
  /-- The types of arguments that are mentioned are declared. -/
  args : ∀ d ∈ (b.document g c).declarations, ∀ typeName fieldName,
    d.Mentions (Names.args typeName fieldName) →
      Names.args typeName fieldName ∈ (b.document g c).declaredNames
  /-- The contracts that are mentioned are declared. -/
  contracts : ∀ d ∈ (b.document g c).declarations, ∀ typeName,
    d.Mentions (Names.contract typeName) →
      Names.contract typeName ∈ (b.document g c).declaredNames
  /-- Every name that is mentioned is declared or imported, unless it is a parameter of the
  declaration or needs no declaration. -/
  names : ∀ d ∈ (b.document g c).declarations, ∀ name, d.Mentions name →
    name ∈ (b.document g c).declaredNames ∨ name ∈ (b.document g c).importedNames ∨
      name ∈ d.params.map (·.name) ∨ name ∈ standardNames
  /-- The runtime library's types for scalars are imported exactly if the resolvers mention them.
  Resolvers reach the types of a schema through the tables, so such a name always means the
  library's type there, whatever the types of the schema are called. -/
  imports : ∀ name ∈ scalarLibraryNames,
    name ∈ (b.document g c).importedNames ↔ ∃ d ∈ resolverDeclarations g c b, d.Mentions name
  /-- Unless a type of the schema has such a name, nothing else in the document mentions it. If one
  has that is no scalar, the document has a declaration of its own under that name. Base types that
  mention the name mean this declaration and not the library's type, and nothing is imported for
  them. -/
  importsOnly : ∀ name ∈ scalarLibraryNames, name ∉ g.types.keys →
    (name ∈ (b.document g c).importedNames ↔
      ∃ d ∈ (b.document g c).declarations, d.Mentions name)

variable {g : TypeGraph} {c : Config}

/-! ## What mentions the library's types for scalars -/

/-- Made names end like no fixed one does. -/
theorem getLast?_args (typeName fieldName : String) :
    (Names.args typeName fieldName).toList.getLast? = some 's' := by
  simp [Names.args]

theorem getLast?_contract (typeName : String) :
    (Names.contract typeName).toList.getLast? = some 's' := by
  simp [Names.contract]

theorem getLast?_of_argsNames {name : String} (args : name ∈ argsNames g) :
    name.toList.getLast? = some 's' := by
  obtain ⟨t, -, args⟩ := List.mem_flatMap.mp args
  obtain ⟨f, -, rfl⟩ := List.mem_map.mp args
  exact getLast?_args t.name f.name

theorem getLast?_of_contractNames {name : String} (contract : name ∈ contractNames g) :
    name.toList.getLast? = some 's' := by
  obtain ⟨t, -, rfl⟩ := List.mem_map.mp contract
  exact getLast?_contract t.name

theorem customScalars_of_inResolvers {params : List String}
    (own : ∀ p ∈ params, p ∈ contractParams) {r : Reference} (h : InResolvers g params r)
    {name : String} (library : name ∈ scalarLibraryNames) (mentioned : r.name? = some name) :
    g.customScalars ≠ [] := by
  have apart (l : List String) (distinct : ∀ n ∈ scalarLibraryNames, n ∉ l) (h : name ∈ l) :
      g.customScalars ≠ [] := absurd h (distinct name library)
  -- the library's names end otherwise than those made of a type and a field
  have made (ending : name.toList.getLast? = some 's') : g.customScalars ≠ [] := by
    have other : ∀ n ∈ scalarLibraryNames, n.toList.getLast? ≠ some 's' := by decide
    exact absurd ending (other name library)
  cases r with
  | plain n =>
    obtain rfl := Option.some.inj mentioned
    rcases h with param | any | args | ⟨-, custom⟩
    · exact apart contractParams (by decide) (own n param)
    · exact apart ["any"] (by decide) (any ▸ List.mem_cons_self)
    · exact made (getLast?_of_argsNames args)
    · exact custom
  | applied n =>
    obtain rfl := Option.some.inj mentioned
    rcases h with function | contract | ⟨-, custom⟩
    · exact apart functionNames (by decide) function
    · exact made (getLast?_of_contractNames contract)
    · exact custom
  | entry table key =>
    obtain rfl := Option.some.inj mentioned
    exact apart [Names.resolversTypes, Names.resolversParentTypes] (by decide) h.1
  | handed n => exact h.elim
  | text value => cases mentioned

/-- A custom scalar has an interface for its configuration and a property in `Resolvers`. -/
theorem mentioned_of_customScalars (custom : g.customScalars ≠ []) :
    ∀ name ∈ scalarLibraryNames,
      ∃ d ∈ resolverDeclarations g c (blueprintOf g c), d.Mentions name := by
  obtain ⟨scalar, hs⟩ := List.exists_mem_of_ne_nil _ custom
  intro name library
  rcases List.mem_cons.mp library with rfl | library
  · refine ⟨resolversDeclaration g c, List.mem_append_right _ List.mem_cons_self, ?_⟩
    refine ⟨.plain "GraphQLScalarType", List.mem_append_right _ ?_, rfl⟩
    obtain ⟨t, ht, -⟩ := List.mem_map.mp hs
    obtain ⟨ht, declared⟩ := List.mem_filter.mp ht
    have property : resolversProperty? t =
        some { key := t.name, value := .name "GraphQLScalarType", isOptional := true } := by
      rw [TypeNode.isCustomScalar, Bool.and_eq_true] at declared
      have kind : t.kind = .scalar := of_decide_eq_true declared.1
      have other : t.isBuiltin = false := by simpa using declared.2
      rw [resolversProperty?, kind]
      simp [other]
    rw [Declaration.bodyReferences, Declaration.bodyTypes, resolversDeclaration,
      List.flatMap_singleton, TypeExpr.references_object]
    exact List.mem_flatMap.mpr ⟨_, List.mem_filterMap.mpr ⟨t, ht, property⟩, List.mem_cons_self⟩
  · rw [List.mem_singleton.mp library]
    refine ⟨scalarConfigDeclaration scalar, ?_, .applied "GraphQLScalarTypeConfig",
      List.mem_cons_self, rfl⟩
    exact List.mem_append_left _ (List.mem_append_right _ (List.mem_map_of_mem hs))

theorem not_mentioned_inPreamble {params : List String} {r : Reference} (h : InPreamble params r)
    {name : String} (library : name ∈ scalarLibraryNames) : r.name? ≠ some name := by
  intro mentioned
  have apart : ∀ n ∈ scalarLibraryNames, n ∉ ["T", "string", "unknown", Names.maybe, "Record"] := by
    decide
  apply apart name library
  cases r with
  | plain n =>
    obtain rfl := Option.some.inj mentioned
    rcases h with ⟨rfl, -⟩ | standard
    · decide
    · exact List.mem_cons_of_mem _ (List.mem_append_left [Names.maybe, "Record"] standard)
  | applied n =>
    obtain rfl := Option.some.inj mentioned
    exact List.mem_append_right ["T", "string", "unknown"] h
  | entry | handed => exact h.elim
  | text value => cases mentioned

theorem mem_keys_of_inBase (sound : g.Sound) {r : Reference} (h : InBase g r) {name : String}
    (library : name ∈ scalarLibraryNames) (mentioned : r.name? = some name) :
    name ∈ g.types.keys := by
  have apart (l : List String) (distinct : ∀ n ∈ scalarLibraryNames, n ∉ l) (h : name ∈ l) :
      name ∈ g.types.keys := absurd h (distinct name library)
  cases r with
  | plain n =>
    obtain rfl := Option.some.inj mentioned
    obtain ⟨t, ht, rfl⟩ := List.mem_map.mp h
    exact name_mem_keys sound (List.mem_filter.mp ht).1
  | applied n =>
    obtain rfl := Option.some.inj mentioned
    exact apart _ (by decide) h
  | entry table key =>
    obtain rfl := Option.some.inj mentioned
    refine apart [Names.scalars, Names.resolversUnionTypes] (by decide) ?_
    rcases h with ⟨rfl, -⟩ | ⟨rfl, -⟩
    · decide
    · decide
  | handed n =>
    obtain rfl := Option.some.inj mentioned
    exact apart _ (by decide) h
  | text value => cases mentioned

/-! ## Every mention is known -/

/-- Whether the name is declared or imported, a parameter, or one that needs no declaration. -/
def Known (g : TypeGraph) (c : Config) (params : List String) (name : String) : Prop :=
  name ∈ (documentFor g c).declaredNames ∨ name ∈ (documentFor g c).importedNames ∨
    name ∈ params ∨ name ∈ standardNames

theorem known_of_listed {params l : List String}
    (listed : ∀ name ∈ l, name ∈ fixedNames ++ standardNames) {name : String} (h : name ∈ l) :
    Known g c params name := by
  rcases List.mem_append.mp (listed name h) with fixed | standard
  · exact .inl (fixedNames_declared name fixed)
  · exact .inr (.inr (.inr standard))

theorem known_of_inPreamble {params : List String} {r : Reference} (h : InPreamble params r)
    {name : String} (mentioned : r.name? = some name) : Known g c params name := by
  cases r with
  | plain n =>
    obtain rfl := Option.some.inj mentioned
    rcases h with ⟨-, param⟩ | standard
    · exact .inr (.inr (.inl param))
    · exact known_of_listed (by decide) standard
  | applied n =>
    obtain rfl := Option.some.inj mentioned
    exact known_of_listed (by decide) h
  | entry | handed => exact h.elim
  | text value => cases mentioned

theorem known_of_inBase {params : List String} {r : Reference} (h : InBase g r) {name : String}
    (mentioned : r.name? = some name) : Known g c params name := by
  cases r with
  | plain n =>
    obtain rfl := Option.some.inj mentioned
    exact .inl (baseNames_declared h)
  | applied n =>
    obtain rfl := Option.some.inj mentioned
    exact known_of_listed (by decide) h
  | entry table key =>
    obtain rfl := Option.some.inj mentioned
    rcases h with ⟨rfl, -⟩ | ⟨rfl, union⟩
    · exact known_of_listed (l := [Names.scalars]) (by decide) List.mem_cons_self
    · exact .inl (variants_declared union)
  | handed n =>
    obtain rfl := Option.some.inj mentioned
    exact known_of_listed (by decide) h
  | text value => cases mentioned

theorem known_of_inResolvers {params : List String} {r : Reference} (h : InResolvers g params r)
    {name : String} (mentioned : r.name? = some name) : Known g c params name := by
  -- the library's types are mentioned only where a custom scalar has them imported
  have imported {n : String} (library : n ∈ scalarLibraryNames) (custom : g.customScalars ≠ []) :
      Known g c params n := .inr (.inl ((imported_iff library).mpr custom))
  cases r with
  | plain n =>
    obtain rfl := Option.some.inj mentioned
    rcases h with param | any | args | ⟨rfl, custom⟩
    · exact .inr (.inr (.inl param))
    · exact known_of_listed (l := ["any"]) (by decide) (any ▸ List.mem_cons_self)
    · exact .inl (argsNames_declared args)
    · exact imported (by decide) custom
  | applied n =>
    obtain rfl := Option.some.inj mentioned
    rcases h with function | contract | ⟨rfl, custom⟩
    · exact known_of_listed (l := functionNames) (by decide) function
    · exact .inl (contractNames_declared contract)
    · exact imported (by decide) custom
  | entry table key =>
    obtain rfl := Option.some.inj mentioned
    exact known_of_listed (by decide) h.1
  | handed n => exact h.elim
  | text value => cases mentioned

/-- Every name that a declaration mentions is known to it. -/
theorem known_of_mentions (sound : g.Sound) {d : Declaration}
    (hd : d ∈ (documentFor g c).declarations) {name : String} (h : d.Mentions name) :
    Known g c (d.params.map (·.name)) name := by
  obtain ⟨r, hr, mentioned⟩ := h
  rcases reference_cases sound hd hr with h | h | ⟨-, h⟩
  · exact known_of_inPreamble h mentioned
  · exact known_of_inBase h mentioned
  · exact known_of_inResolvers h mentioned

theorem params_document (sound : g.Sound) {d : Declaration}
    (hd : d ∈ (documentFor g c).declarations) :
    ∀ p ∈ d.params.map (·.name),
      p ∈ ["T", Names.refType, Names.contextType, Names.parentType] := by
  have among {l : List Declaration} {m : List String}
      (all : l.flatMap (fun d => d.params.map (·.name)) = m)
      (inside : ∀ p ∈ m, p ∈ ["T", Names.refType, Names.contextType, Names.parentType])
      (hd : d ∈ l) : ∀ p ∈ d.params.map (·.name),
        p ∈ ["T", Names.refType, Names.contextType, Names.parentType] := by
    intro p hp
    exact inside p (all ▸ List.mem_flatMap.mpr ⟨d, hd, hp⟩)
  rcases mem_document.mp hd with rfl | hd | (rfl | hd | hd) | hd | (hd | hd) | hd
  · nofun
  · exact among (l := (Preamble.typeHelpers c).declarations) (m := ["T", "T"]) rfl (by decide) hd
  · nofun
  · obtain ⟨name, members, form⟩ := form_of_enumDeclarations hd
    simp [Declaration.params, form]
  · obtain ⟨name, type, form⟩ := form_of_shapeDeclarations hd
    simp [Declaration.params, form]
  · exact among (l := (Preamble.resolverHelpers c).declarations) (m := ["T"]) rfl (by decide) hd
  · unfold UnionVariants.declaration? at hd
    split at hd
    · cases hd
    · obtain rfl := Option.some.inj hd
      exact fun p hp => List.mem_cons_of_mem _ (List.mem_append_left _ hp)
  · exact among (m := []) rfl nofun hd
  · intro p hp
    have own := (resolverDeclarations_inResolvers sound hd).1 p hp
    exact List.mem_append_right ["T", Names.refType] own

/-- A name that ends like a made one can only be declared. -/
theorem declared_of_getLast? (sound : g.Sound) {d : Declaration}
    (hd : d ∈ (documentFor g c).declarations) {name : String} (h : d.Mentions name)
    (ending : name.toList.getLast? = some 's') : name ∈ (documentFor g c).declaredNames := by
  have apart (l : List String) (other : ∀ n ∈ l, n.toList.getLast? ≠ some 's') (h : name ∈ l) :
      name ∈ (documentFor g c).declaredNames := absurd ending (other name h)
  rcases known_of_mentions sound hd h with declared | imported | param | standard
  · exact declared
  · rw [mem_importedNames] at imported
    refine apart ("GraphQLResolveInfo" :: scalarLibraryNames) (by decide) ?_
    rcases List.mem_append.mp imported with fixed | library
    · exact List.mem_append_left scalarLibraryNames fixed
    · split at library
      · exact List.mem_cons_of_mem _ library
      · cases library
  · exact apart _ (by decide) (params_document sound hd name param)
  · exact apart standardNames (by decide) standard

/-! ## Closed documents -/

/-- A look-up goes to `Scalars`, to the variants of unions, or to one of both tables. -/
theorem entry_cases (sound : g.Sound) {d : Declaration}
    (hd : d ∈ (documentFor g c).declarations) {table key : String}
    (h : .entry table key ∈ d.references) :
    (table = Names.scalars ∧ g.isScalar key = true ∨
      table = Names.resolversUnionTypes ∧ key ∈ unionNames g) ∨
    table ∈ [Names.resolversTypes, Names.resolversParentTypes] ∧ key ∈ g.types.keys := by
  rcases reference_cases sound hd h with h | h | ⟨-, h⟩
  · exact h.elim
  · exact .inl h
  · exact .inr h

theorem known_of_entry (sound : g.Sound) {d : Declaration}
    (hd : d ∈ (documentFor g c).declarations) {table key : String}
    (isTable : table ∈ [Names.resolversTypes, Names.resolversParentTypes])
    (h : .entry table key ∈ d.references) : key ∈ g.types.keys := by
  rcases entry_cases sound hd h with (⟨rfl, -⟩ | ⟨rfl, -⟩) | ⟨-, known⟩
  · exact absurd isTable (by decide)
  · exact absurd isTable (by decide)
  · exact known

/-- Bodies keep to `InBase`, where a plain name is that of a type with a base type. -/
theorem baseNames_of_plain (sound : g.Sound) {d : Declaration}
    (hd : d ∈ shapeDeclarations g ∨
      UnionVariants.declaration? (blueprintOf g c).unions = some d ∨
      d ∈ [(blueprintOf g c).table.resolversTypes, (blueprintOf g c).table.resolversParentTypes])
    {name : String} (h : .plain name ∈ d.bodyReferences) : name ∈ baseNames g := by
  rcases hd with hd | hd | hd
  · exact shapeDeclarations_inBase sound d hd _ (List.mem_append_right _ h)
  · exact variants_inBase sound hd _ h
  · exact tables_inBase sound d hd _ (List.mem_append_right _ h)

/-- The document for a sound graph is closed under reference. -/
theorem closed_of_sound (sound : g.Sound) (c : Config) : Closed g c (blueprintOf g c) where
  answers := fun d hd key h =>
    (hasKey_tables sound (known_of_entry sound hd List.mem_cons_self h)).1
  parents := fun d hd key h =>
    (hasKey_tables sound (known_of_entry sound hd (List.mem_cons_of_mem _ List.mem_cons_self) h)).2
  variants := by
    intro d hd key h
    rcases entry_cases sound hd h with (⟨table, -⟩ | ⟨-, union⟩) | ⟨table, -⟩
    · exact absurd table (by decide)
    · obtain ⟨u, found⟩ := exists_variants union
      exact ⟨u, variants_mem_document found, found, hasKey_variants union found⟩
    · exact absurd table (by decide)
  variantsDeclared := by
    rw [← variants_isSome, Option.isSome_iff_exists]
    constructor
    · rintro ⟨u, -, found⟩
      exact ⟨u, found⟩
    · rintro ⟨u, found⟩
      exact ⟨u, variants_mem_document found, found⟩
  scalars := by
    intro d hd key h
    rcases entry_cases sound hd h with (⟨-, scalar⟩ | ⟨table, -⟩) | ⟨table, -⟩
    · exact hasKey_scalars sound scalar
    · exact absurd table (by decide)
    · exact absurd table (by decide)
  lookups := by
    intro d hd table key h
    rcases entry_cases sound hd h with (⟨rfl, -⟩ | ⟨rfl, -⟩) | ⟨table, -⟩
    · exact List.mem_cons_self
    · exact List.mem_cons_of_mem _ List.mem_cons_self
    · exact List.mem_append_right [Names.scalars, Names.resolversUnionTypes] table
  tables := fun t => table_mem_document
  baseTypes := by
    intro d hd name h
    obtain ⟨e, he, named, there⟩ := exists_baseDeclaration (baseNames_of_plain sound hd h)
    refine ⟨e, ?_, he, named⟩
    rcases there with there | there
    · exact enum_mem_document there
    · exact shape_mem_document there
  possibleTypes := by
    intro k hk signature has name h
    obtain ⟨possible, rfl, texts⟩ := possible_of_resolveType sound hk has
    rw [resolveTypeSignature, TypeExpr.references_reference, List.flatMap_cons] at h
    have inside : .text name ∈ possible.references := by
      simpa [parentAndContext] using h
    obtain ⟨n, known, same⟩ := texts _ inside
    obtain rfl := Reference.text.inj same
    exact hasKey_tables sound known
  args := fun d hd t f h => declared_of_getLast? sound hd h (getLast?_args t f)
  contracts := fun d hd t h => declared_of_getLast? sound hd h (getLast?_contract t)
  names := fun d hd name h => known_of_mentions sound hd h
  imports := by
    intro name library
    rw [imported_iff library]
    constructor
    · exact fun custom => mentioned_of_customScalars custom name library
    · rintro ⟨d, hd, r, hr, mentioned⟩
      obtain ⟨own, allowed⟩ := resolverDeclarations_inResolvers sound hd
      exact customScalars_of_inResolvers own (allowed r hr) library mentioned
  importsOnly := by
    intro name library free
    rw [imported_iff library]
    constructor
    · intro custom
      obtain ⟨d, hd, mention⟩ := mentioned_of_customScalars custom name library
      exact ⟨d, resolver_mem_document hd, mention⟩
    · rintro ⟨d, hd, r, hr, mentioned⟩
      rcases reference_cases sound hd hr with h | h | ⟨hd, h⟩
      · exact absurd mentioned (not_mentioned_inPreamble h library)
      · -- a base type would have to be called like the library's
        exact absurd (mem_keys_of_inBase sound h library mentioned) free
      · have own := (resolverDeclarations_inResolvers sound hd).1
        exact customScalars_of_inResolvers own h library mentioned

/-- Of every schema and configuration that are accepted there is a document, and it is closed under
reference. -/
theorem document_closed {s : Schema} (built : s.Built) (valid : s.validate = .ok ()) {c : Config}
    (usable : c.validate = .ok ()) :
    ∃ b, Blueprint.ofGraph (.ofSchema s) c = .ok b ∧
      generateDocument s c = .ok (b.document (.ofSchema s) c) ∧ Closed (.ofSchema s) c b := by
  have sound := TypeGraph.sound_ofSchema built valid
  refine ⟨blueprintOf (.ofSchema s) c, ?_, ?_, closed_of_sound sound c⟩
  · rw [Blueprint.ofGraph_eq sound, usable]
  · rw [generateDocument_eq built, valid, usable]

/-- A union that lists a member twice, and a custom scalar that only an argument mentions. -/
theorem document_closed_example :
    let find : Field := ⟨"find", .named "Hit", none, [⟨"since", .named "Date", none, false⟩]⟩
    let types : List TypeDef :=
      [⟨"Query", none, .object [] [find]⟩, ⟨"Hit", none, .union ["Query", "Query"]⟩,
        ⟨"Date", none, .scalar⟩]
    let g := TypeGraph.ofSchema (.ofTypes types {})
    ∃ b : Blueprint, generateDocument (.ofTypes types {}) {} = .ok (b.document g {}) ∧
      (∃ u ∈ (b.document g {}).declarations, UnionVariants.declaration? b.unions = some u) ∧
      "HitResolvers" ∈ (b.document g {}).declaredNames ∧
      "GraphQLScalarType" ∈ (b.document g {}).importedNames := by
  intro find types g
  obtain ⟨b, -, generated, closed⟩ :=
    document_closed (Schema.built_ofTypes types {}) rfl (c := {}) rfl
  have last : resolversDeclaration g {} ∈ resolverDeclarations g {} b :=
    List.mem_append_right _ List.mem_cons_self
  have there : resolversDeclaration g {} ∈ (b.document g {}).declarations :=
    resolver_mem_document last
  have contract : (resolversDeclaration g {}).Mentions (Names.contract "Hit") :=
    ⟨.applied "HitResolvers", by decide, rfl⟩
  have scalar : (resolversDeclaration g {}).Mentions "GraphQLScalarType" :=
    ⟨.plain "GraphQLScalarType", by decide, rfl⟩
  refine ⟨b, generated, closed.variantsDeclared.mpr (by decide), ?_, ?_⟩
  · exact closed.contracts _ there "Hit" contract
  · exact (closed.imports _ (by decide)).mpr ⟨_, last, scalar⟩

end ResolverTypes.Output
