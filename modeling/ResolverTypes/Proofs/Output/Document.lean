import ResolverTypes.Proofs.Output.ResolverReferences

/-!
# The declarations of a document

What a document declares, section by section (`mem_document`), and what these declarations can refer
to at all (`reference_cases`): the preamble to itself, base types and tables as `InBase` says,
resolvers as `InResolvers` says. For each look-up in a table and for each base type the target is
found among the declarations of the same document.
-/

namespace ResolverTypes.Output

open TypeScript

/-- The declaration of the values of a type: an enum, or the alias of the type's own name. -/
def baseDeclaration? (g : TypeGraph) (d : TypeDef) : Option Declaration :=
  (enumDeclaration? d).or (typeDeclarations g d).head?

/-- The declarations of the values of all types but the scalars. -/
def baseDeclarations (g : TypeGraph) : List Declaration :=
  (g.types.values.filterMap (·.definition?)).filterMap (baseDeclaration? g)

/-- The declarations of the last section of a document: contracts, configurations of scalars, and
`Resolvers`. -/
def resolverDeclarations (g : TypeGraph) (c : Config) (b : Blueprint) : List Declaration :=
  b.contracts.map (Contract.declaration c) ++ b.scalars.map scalarConfigDeclaration ++
    [resolversDeclaration g c]

/-- The names that the runtime library has for scalars. -/
def scalarLibraryNames : List String := ["GraphQLScalarType", "GraphQLScalarTypeConfig"]

variable {g : TypeGraph} {c : Config}

/-! ## The declarations of a document -/

theorem mem_document {b : Blueprint} {d : Declaration} :
    d ∈ (b.document g c).declarations ↔
      d = Preamble.imports (!b.scalars.isEmpty) ∨ d ∈ (Preamble.typeHelpers c).declarations ∨
        (d = scalarsDeclaration g c ∨ d ∈ enumDeclarations g ∨ d ∈ shapeDeclarations g) ∨
        d ∈ (Preamble.resolverHelpers c).declarations ∨
        (UnionVariants.declaration? b.unions = some d ∨
          d ∈ [b.table.resolversTypes, b.table.resolversParentTypes]) ∨
        d ∈ resolverDeclarations g c b := by
  rw [Blueprint.document, Document.declarations_ofSections]
  simp only [List.flatMap_cons, List.flatMap_nil, List.append_nil, List.mem_append, List.mem_cons,
    List.not_mem_nil, or_false, Option.mem_toList, resolverDeclarations, or_assoc]

theorem shape_mem_document {b : Blueprint} {d : Declaration} (h : d ∈ shapeDeclarations g) :
    d ∈ (b.document g c).declarations := mem_document.mpr (.inr (.inr (.inl (.inr (.inr h)))))

theorem enum_mem_document {b : Blueprint} {d : Declaration} (h : d ∈ enumDeclarations g) :
    d ∈ (b.document g c).declarations := mem_document.mpr (.inr (.inr (.inl (.inr (.inl h)))))

theorem variants_mem_document {b : Blueprint} {d : Declaration}
    (h : UnionVariants.declaration? b.unions = some d) : d ∈ (b.document g c).declarations :=
  mem_document.mpr (.inr (.inr (.inr (.inr (.inl (.inl h))))))

theorem table_mem_document {b : Blueprint} {t : Declaration}
    (h : t ∈ [scalarsDeclaration g c, b.table.resolversTypes, b.table.resolversParentTypes]) :
    t ∈ (b.document g c).declarations := by
  rcases List.mem_cons.mp h with rfl | h
  · exact mem_document.mpr (.inr (.inr (.inl (.inl rfl))))
  · exact mem_document.mpr (.inr (.inr (.inr (.inr (.inl (.inr h))))))

theorem resolver_mem_document {b : Blueprint} {d : Declaration}
    (h : d ∈ resolverDeclarations g c b) : d ∈ (b.document g c).declarations :=
  mem_document.mpr (.inr (.inr (.inr (.inr (.inr h)))))

/-! ## What references there are -/

/-- Whether the declarations that are neither base types nor tables nor about resolvers may refer
so: the wrapper of nullable input, and the bound of the table of variants. -/
def InPreamble (params : List String) : Reference → Prop
  | .plain name => name = "T" ∧ name ∈ params ∨ name ∈ ["string", "unknown"]
  | .applied name => name ∈ [Names.maybe, "Record"]
  | _ => False

theorem typeHelpers_inPreamble {d : Declaration} (hd : d ∈ (Preamble.typeHelpers c).declarations) :
    ∀ r ∈ d.references, InPreamble (d.params.map (·.name)) r := by
  intro r hr
  have inputMaybe :
      (Preamble.wrapper Names.inputMaybe (.reference Names.maybe [.name "T"])).references =
        [.applied Names.maybe, .plain "T"] := rfl
  rcases List.mem_cons.mp hd with rfl | hd
  · cases hr
  · rcases List.mem_cons.mp hd with rfl | hd
    · rw [inputMaybe] at hr
      rcases List.mem_cons.mp hr with rfl | hr
      · show Names.maybe ∈ _
        decide
      · rw [List.mem_singleton.mp hr]
        exact .inl ⟨rfl, List.mem_cons_self⟩
    · have none : Preamble.propertyHelpers.flatMap (·.references) = [] := rfl
      rw [List.flatMap_eq_nil_iff] at none
      rw [none d hd] at hr
      cases hr

theorem references_resolverHelpers {d : Declaration}
    (hd : d ∈ (Preamble.resolverHelpers c).declarations) : d.references = [] := by
  have none : (Preamble.resolverHelpers c).declarations.flatMap (·.references) = [] := rfl
  exact List.flatMap_eq_nil_iff.mp none d hd

theorem references_scalarsDeclaration (g : TypeGraph) (c : Config) :
    (scalarsDeclaration g c).references = [] := by
  have property (name : String) : (scalarProperty c name).value.references = [] := rfl
  rw [scalarsDeclaration, Declaration.references_typeAlias, TypeExpr.references_object,
    List.flatMap_map, List.flatMap_eq_nil_iff]
  exact fun name _ => property name

theorem form_of_enumDeclarations {e : Declaration} (he : e ∈ enumDeclarations g) :
    ∃ name members, e.form = .enum name members := by
  obtain ⟨d, -, h⟩ := List.mem_filterMap.mp he
  unfold enumDeclaration? at h
  split at h
  · next values body =>
    obtain rfl := Option.some.inj h
    exact ⟨d.name, values.map enumMember, rfl⟩
  · cases h

/-- The bound of the parameter of the table of variants. -/
theorem variants_references {unions : List UnionVariants} {d : Declaration}
    (h : UnionVariants.declaration? unions = some d) :
    d.references = [.applied "Record", .plain "string", .plain "unknown"] ++ d.bodyReferences := by
  unfold UnionVariants.declaration? at h
  split at h
  · cases h
  · obtain rfl := Option.some.inj h
    rfl

theorem resolverDeclarations_inResolvers (sound : g.Sound) {d : Declaration}
    (hd : d ∈ resolverDeclarations g c (blueprintOf g c)) :
    (∀ p ∈ d.params.map (·.name), p ∈ contractParams) ∧
      ∀ r ∈ d.references, InResolvers g (d.params.map (·.name)) r := by
  rcases List.mem_append.mp hd with hd | hd
  · rcases List.mem_append.mp hd with hd | hd
    · obtain ⟨k, hk, rfl⟩ := List.mem_map.mp hd
      exact ⟨fun _ h => h, contract_inResolvers sound hk⟩
    · obtain ⟨scalar, h, rfl⟩ := List.mem_map.mp hd
      exact ⟨nofun, scalarConfig_inResolvers sound h⟩
  · rw [List.mem_singleton.mp hd]
    exact ⟨fun _ h => List.mem_of_mem_take (i := 1) h, resolvers_inResolvers⟩

/-- What a reference in a document can be. -/
theorem reference_cases (sound : g.Sound) {d : Declaration}
    (hd : d ∈ ((blueprintOf g c).document g c).declarations) {r : Reference}
    (hr : r ∈ d.references) :
    InPreamble (d.params.map (·.name)) r ∨ InBase g r ∨
      d ∈ resolverDeclarations g c (blueprintOf g c) ∧
        InResolvers g (d.params.map (·.name)) r := by
  -- one case per section, in the order of the document
  rcases mem_document.mp hd with rfl | hd | (rfl | hd | hd) | hd | (h | hd) | hd
  · cases hr
  · exact .inl (typeHelpers_inPreamble hd r hr)
  · rw [references_scalarsDeclaration] at hr
    cases hr
  · obtain ⟨name, members, form⟩ := form_of_enumDeclarations hd
    simp [Declaration.references, Declaration.headTypes, Declaration.bodyReferences,
      Declaration.bodyTypes, form] at hr
  · exact .inr (.inl (shapeDeclarations_inBase sound d hd r hr))
  · rw [references_resolverHelpers hd] at hr
    cases hr
  · rw [variants_references h] at hr
    rcases List.mem_append.mp hr with hr | hr
    · left
      simp only [List.mem_cons, List.not_mem_nil, or_false] at hr
      rcases hr with rfl | rfl | rfl
      · show "Record" ∈ _
        decide
      · exact .inr (by decide)
      · exact .inr (by decide)
    · exact .inr (.inl (variants_inBase sound h r hr))
  · exact .inr (.inl (tables_inBase sound d hd r hr))
  · exact .inr (.inr ⟨hd, (resolverDeclarations_inResolvers sound hd).2 r hr⟩)

/-! ## Where they lead -/

theorem hasKey_tables (sound : g.Sound) {key : String} (known : key ∈ g.types.keys) :
    (TypeTable.ofGraph g c).resolversTypes.HasKey key ∧
      (TypeTable.ofGraph g c).resolversParentTypes.HasKey key := by
  obtain ⟨t, ht, rfl⟩ := exists_node sound known
  have there (type : TableEntry → TypeExpr) :
      t.name ∈ ((TypeTable.ofGraph g c).properties type).map (·.key) := by
    rw [TypeTable.properties, TypeTable.ofGraph, List.map_map, List.map_map]
    exact List.mem_map.mpr ⟨t, ht, rfl⟩
  exact ⟨⟨_, rfl, there _⟩, ⟨_, rfl, there _⟩⟩

theorem hasKey_scalars (sound : g.Sound) {key : String} (scalar : g.isScalar key = true) :
    (scalarsDeclaration g c).HasKey key := by
  refine ⟨_, rfl, ?_⟩
  have names : ((scalarNames g).map (scalarProperty c)).map (·.key) = scalarNames g := by
    rw [List.map_map]
    exact List.map_id _
  rw [names]
  obtain ⟨t, node, kind⟩ := (Option.any_eq_true _ _).mp scalar
  have kind : t.kind = .scalar := of_decide_eq_true kind
  have ht : t ∈ g.types.values := OrderedMap.mem_values_iff.mpr ⟨key, node⟩
  obtain rfl := sound.named key t node
  obtain ⟨origin, root⟩ := t
  -- a built-in scalar has a representation even if nothing refers to it
  cases origin with
  | builtin b => exact List.mem_append_left _ (List.mem_map_of_mem b.mem_all)
  | declared d =>
    apply List.mem_append_right
    exact List.mem_map_of_mem (List.mem_filter.mpr
      ⟨ht, by simpa [TypeNode.isCustomScalar, TypeNode.isBuiltin, TypeNode.definition?] using kind⟩)

theorem variants_isSome (g : TypeGraph) :
    (UnionVariants.declaration? ((g.ofKind .union).map variantsOf)).isSome = g.hasUnions := by
  unfold UnionVariants.declaration? TypeGraph.hasUnions
  rw [List.isEmpty_map]
  cases (g.ofKind .union).isEmpty <;> rfl

theorem hasKey_variants {key : String} (union : key ∈ unionNames g) {u : Declaration}
    (h : UnionVariants.declaration? ((g.ofKind .union).map variantsOf) = some u) :
    u.HasKey key := by
  unfold UnionVariants.declaration? at h
  split at h
  · cases h
  · obtain rfl := Option.some.inj h
    refine ⟨_, rfl, ?_⟩
    rw [List.map_map, List.map_map]
    exact union

theorem exists_variants {key : String} (union : key ∈ unionNames g) :
    ∃ u, UnionVariants.declaration? ((g.ofKind .union).map variantsOf) = some u := by
  rw [← Option.isSome_iff_exists, variants_isSome, TypeGraph.hasUnions]
  obtain ⟨t, ht, -⟩ := List.mem_map.mp union
  cases h : g.ofKind .union with
  | nil =>
    rw [h] at ht
    cases ht
  | cons => rfl

/-- A type other than a scalar has an enum or an alias of its own name. -/
theorem exists_baseDeclaration {name : String} (base : name ∈ baseNames g) :
    ∃ e ∈ baseDeclarations g, e.name? = some name ∧
      (e ∈ enumDeclarations g ∨ e ∈ shapeDeclarations g) := by
  obtain ⟨t, ht, rfl⟩ := List.mem_map.mp base
  obtain ⟨ht, other⟩ := List.mem_filter.mp ht
  obtain ⟨d, definition⟩ := TypeGraph.exists_definition (of_decide_eq_true other)
  obtain ⟨kind, named, -, -⟩ := TypeGraph.of_definition? definition
  have hd : d ∈ g.types.values.filterMap (·.definition?) :=
    List.mem_filterMap.mpr ⟨t, ht, definition⟩
  have found {e : Declaration} (h : baseDeclaration? g d = some e) : e ∈ baseDeclarations g :=
    List.mem_filterMap.mpr ⟨d, hd, h⟩
  have shape {e : Declaration} (h : e ∈ typeDeclarations g d) : e ∈ shapeDeclarations g :=
    List.mem_flatMap.mpr ⟨d, hd, h⟩
  rw [← named]
  obtain ⟨typeName, description, body⟩ := d
  cases body with
  | object | interface | union | inputObject =>
    exact ⟨_, found rfl, rfl, .inr (shape List.mem_cons_self)⟩
  | enum values => exact ⟨_, found rfl, rfl, .inl (List.mem_filterMap.mpr ⟨_, hd, rfl⟩)⟩
  | scalar =>
    rw [← kind] at other
    cases other

end ResolverTypes.Output
