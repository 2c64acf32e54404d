import ResolverTypes.Proofs.Output.Descriptions
import ResolverTypes.Proofs.Output.DocumentNames
import ResolverTypes.Proofs.Sdl.Names
import ResolverTypes.Proofs.Text.PascalCase
import ResolverTypes.Proofs.TypeScript.Texts

/-!
# Comments of generated documents

The texts that a document is written from are names of the schema, names made from them, fixed texts
and the texts of the configuration. Names in the sense of the grammar have no slash in them, and
neither have the fixed texts. So if no text of the configuration opens a comment, the only comments
of a document are those of its descriptions (`quiet_document`), and what a description says does not
get out of its comment (`descriptions_inert`).
-/

namespace ResolverTypes

open TypeScript

/-! ## Names without slashes -/

/-- Whether no character of the text is a slash. -/
def Slashless (t : String) : Prop := '/' ∉ t.toList

instance (t : String) : Decidable (Slashless t) :=
  inferInstanceAs (Decidable ('/' ∉ t.toList))

namespace Slashless

theorem unmarked {t : String} (h : Slashless t) : Unmarked t :=
  unmarked_of_forall fun _ hc same => h (same ▸ hc)

/-- A text that is written out is its list of characters, which takes less to look through. -/
theorem ofList {l : List Char} (h : '/' ∉ l) : Slashless (String.ofList l) := by
  rwa [Slashless, String.toList_ofList]

theorem append {t u : String} (ht : Slashless t) (hu : Slashless u) : Slashless (t ++ u) := by
  unfold Slashless
  rw [String.toList_append, List.mem_append]
  exact fun slash => slash.elim ht hu

theorem pascalCase {t : String} (h : Slashless t) : Slashless (Text.pascalCase t) :=
  fun slash => h (Text.slash_of_pascalCase slash)

theorem of_isName {name : String} (h : Sdl.IsName name) : Slashless name :=
  fun slash => absurd (h.isNameRest _ slash) (by decide)

end Slashless

/-- The names that a definition declares: its own, and those of its fields, arguments, input fields
and values. -/
def TypeDef.names (d : TypeDef) : List String :=
  d.name :: d.fields.flatMap (fun f => f.name :: f.args.map (·.name)) ++
    d.body.inputFields.map (·.name) ++ d.body.values.map (·.name)

/-- Whether no text of the configuration that gets into a document opens a comment. -/
structure Config.Quiet (c : Config) : Prop where
  options : ∀ o ∈ c.textOptions, Unmarked o.2
  scalars : ∀ e ∈ c.scalars.entries,
    Unmarked e.2.representation.input ∧ Unmarked e.2.representation.output

namespace Output

/-- Whether no name in the graph has a slash in it. -/
structure SlashlessNames (g : TypeGraph) : Prop where
  types : ∀ t ∈ g.types.values, Slashless t.name
  names : ∀ t ∈ g.types.values, ∀ d, t.definition? = some d → ∀ name ∈ d.names, Slashless name

variable {g : TypeGraph} {c : Config}

theorem slashlessNames_ofSchema {s : Schema}
    (names : ∀ d ∈ s.types, ∀ name ∈ d.names, Sdl.IsName name) :
    SlashlessNames (.ofSchema s) where
  types := by
    intro t ht
    cases definition : t.definition? with
    | some d =>
      obtain ⟨hd, rfl⟩ := TypeGraph.mem_types_of_definition? ht definition
      exact .of_isName (names d hd d.name List.mem_cons_self)
    | none =>
      obtain ⟨origin, root⟩ := t
      cases origin with
      | declared d => cases definition
      | builtin scalar =>
        show Slashless scalar.name
        cases scalar <;> decide
  names := by
    intro t ht d definition name member
    exact .of_isName (names d (TypeGraph.mem_types_of_definition? ht definition).1 name member)

/-! ## Configurations -/

theorem quiet_representation (quiet : c.Quiet) (name : String) :
    Unmarked (c.representation name).input ∧ Unmarked (c.representation name).output := by
  unfold Config.representation
  cases override : c.scalars.get? name with
  | some value => exact quiet.scalars _ (OrderedMap.get?_eq_some_iff_mem.mp override)
  | none =>
    cases BuiltinScalar.ofName? name with
    | some scalar =>
      have fixed : Slashless scalar.valueType := by cases scalar <;> decide
      exact ⟨fixed.unmarked, fixed.unmarked⟩
    | none =>
      have default := quiet.options ("defaultScalarType", c.defaultScalarType)
        (by simp [Config.textOptions])
      exact ⟨default, default⟩

/-! ## Shapes and signatures -/

theorem quiet_wrap {nullable : String} (hn : Unmarked nullable) (layers : List Layer)
    {inner : TypeExpr} (hi : inner.Quiet) : (wrap nullable layers inner).Quiet := by
  induction layers with
  | nil => exact hi
  | cons layer rest ih =>
    have array : Slashless "Array" := by decide
    cases layer with
    | nullable => simpa [wrap, wrapLayer] using ⟨hn, ih⟩
    | list => simpa [wrap, wrapLayer] using ⟨array.unmarked, ih⟩

theorem slashless_of_mem_keys (sound : g.Sound) (plain : SlashlessNames g) {name : String}
    (known : name ∈ g.types.keys) : Slashless name := by
  obtain ⟨t, ht, rfl⟩ := exists_node sound known
  exact plain.types t ht

theorem quiet_shape (sound : g.Sound) (plain : SlashlessNames g) {direction : Direction}
    {t : TypeRef} (known : t.innermost ∈ g.types.keys) : (shape g direction t).Quiet := by
  have name := (slashless_of_mem_keys sound plain known).unmarked
  have table : Slashless Names.scalars := by decide
  have key : Slashless direction.key := by cases direction <;> decide
  have nullable : Slashless direction.nullable := by cases direction <;> decide
  refine quiet_wrap nullable.unmarked _ ?_
  unfold namedShape
  split
  · simpa [scalarType] using ⟨key.unmarked, name, table.unmarked⟩
  · simpa using name

/-! ## Base types -/

theorem quiet_fieldProperty (sound : g.Sound) (plain : SlashlessNames g) {f : Field}
    (name : Slashless f.name) (known : f.type.innermost ∈ g.types.keys) :
    (fieldProperty g f).Quiet := ⟨name.unmarked, quiet_shape sound plain known⟩

theorem quiet_inputProperty (sound : g.Sound) (plain : SlashlessNames g) {v : InputValue}
    (name : Slashless v.name) (known : v.type.innermost ∈ g.types.keys) :
    (inputProperty g v).Quiet := ⟨name.unmarked, quiet_shape sound plain known⟩

theorem quiet_scalarsDeclaration (quiet : c.Quiet) (plain : SlashlessNames g) :
    (scalarsDeclaration g c).Quiet := by
  have table : Slashless Names.scalars := by decide
  refine Declaration.quiet_object table.unmarked nofun ?_
  intro p hp
  obtain ⟨name, member, rfl⟩ := List.mem_map.mp hp
  have named : Slashless name := by
    rcases List.mem_append.mp member with builtin | custom
    · obtain ⟨scalar, -, rfl⟩ := List.mem_map.mp builtin
      cases scalar <;> decide
    · obtain ⟨t, ht, rfl⟩ := List.mem_map.mp custom
      exact plain.types t (List.mem_filter.mp ht).1
  refine ⟨named.unmarked, ?_⟩
  obtain ⟨input, output⟩ := quiet_representation quiet name
  have keys : Slashless "input" ∧ Slashless "output" := by decide
  intro x hx
  change x ∈
    ["input", (c.representation name).input, "output", (c.representation name).output] at hx
  simp only [List.mem_cons, List.not_mem_nil, or_false] at hx
  rcases hx with rfl | rfl | rfl | rfl
  · exact keys.1.unmarked
  · exact input
  · exact keys.2.unmarked
  · exact output

theorem quiet_enumDeclarations (plain : SlashlessNames g) : ∀ e ∈ enumDeclarations g, e.Quiet := by
  intro e he
  obtain ⟨d, hd, made⟩ := List.mem_filterMap.mp he
  obtain ⟨t, ht, definition⟩ := List.mem_filterMap.mp hd
  have names := plain.names t ht d definition
  obtain ⟨name, description, body⟩ := d
  cases body with
  | enum values =>
    obtain rfl := Option.some.inj made
    intro x hx
    change x ∈ name :: (values.map enumMember).flatMap fun m => [m.name, m.value] at hx
    rcases List.mem_cons.mp hx with rfl | hx
    · exact (names _ List.mem_cons_self).unmarked
    · obtain ⟨m, hm, hx⟩ := List.mem_flatMap.mp hx
      obtain ⟨v, hv, rfl⟩ := List.mem_map.mp hm
      have value : Slashless v.name := names _ (List.mem_append_right _ (List.mem_map_of_mem hv))
      rcases List.mem_cons.mp hx with rfl | hx
      · exact value.pascalCase.unmarked
      · rw [List.mem_singleton.mp hx]
        exact value.unmarked
  | object | interface | union | scalar | inputObject => cases made

/-- The names of the fields of a definition, and what they refer to. -/
structure QuietFields (g : TypeGraph) (fields : List Field) : Prop where
  names : ∀ f ∈ fields, Slashless f.name
  args : ∀ f ∈ fields, ∀ a ∈ f.args, Slashless a.name
  known : ∀ f ∈ fields, ∀ name ∈ TypeDef.fieldReferences f, name ∈ g.types.keys

theorem quiet_argsDeclarations (sound : g.Sound) (plain : SlashlessNames g) {typeName : String}
    (named : Slashless typeName) {fields : List Field} (quiet : QuietFields g fields) :
    ∀ e ∈ argsDeclarations g typeName fields, e.Quiet := by
  intro e he
  obtain ⟨f, hf, rfl⟩ := List.mem_map.mp he
  have hf := (List.mem_filter.mp hf).1
  have ending : Slashless "Args" := by decide
  have name := (named.append (quiet.names f hf).pascalCase).append ending
  refine Declaration.quiet_object name.unmarked nofun ?_
  intro p hp
  obtain ⟨a, ha, rfl⟩ := List.mem_map.mp hp
  exact quiet_inputProperty sound plain (quiet.args f hf a ha)
    (quiet.known f hf _ (List.mem_cons_of_mem _ (List.mem_map_of_mem ha)))

theorem quiet_fieldProperties (sound : g.Sound) (plain : SlashlessNames g) {fields : List Field}
    (quiet : QuietFields g fields) : ∀ p ∈ fields.map (fieldProperty g), p.Quiet := by
  intro p hp
  obtain ⟨f, hf, rfl⟩ := List.mem_map.mp hp
  exact quiet_fieldProperty sound plain (quiet.names f hf) (quiet.known f hf _ List.mem_cons_self)

theorem quietFields_of_node (sound : g.Sound) (plain : SlashlessNames g) {t : TypeNode}
    (ht : t ∈ g.types.values) : QuietFields g t.fields := by
  cases definition : t.definition? with
  | none =>
    rw [TypeNode.fields, definition]
    constructor <;> exact fun f hf => absurd hf List.not_mem_nil
  | some d =>
    obtain ⟨-, -, own, -⟩ := TypeGraph.of_definition? definition
    rw [← own]
    have here {f : Field} (hf : f ∈ d.fields) {name : String}
        (h : name ∈ f.name :: f.args.map (·.name)) : Slashless name :=
      plain.names t ht d definition name (List.mem_append_left _ (List.mem_append_left _
        (List.mem_cons_of_mem _ (List.mem_flatMap.mpr ⟨f, hf, h⟩))))
    exact ⟨fun f hf => here hf List.mem_cons_self,
      fun f hf a ha => here hf (List.mem_cons_of_mem _ (List.mem_map_of_mem ha)),
      fun f hf name referred => mem_keys_of_field sound ht (own ▸ hf) referred⟩

theorem quiet_shapeDeclarations (sound : g.Sound) (plain : SlashlessNames g) :
    ∀ e ∈ shapeDeclarations g, e.Quiet := by
  intro e he
  obtain ⟨d, hd, he⟩ := List.mem_flatMap.mp he
  obtain ⟨t, ht, definition⟩ := List.mem_filterMap.mp hd
  have names := plain.names t ht d definition
  obtain ⟨-, -, own, -⟩ := TypeGraph.of_definition? definition
  have fields : QuietFields g d.fields := own ▸ quietFields_of_node sound plain ht
  have resolved := sound.resolved t ht d definition
  have named : Slashless d.name := names _ List.mem_cons_self
  obtain ⟨name, description, body⟩ := d
  cases body with
  | object interfaces l =>
    rcases List.mem_cons.mp he with rfl | he
    · have key : Slashless Names.typename := by decide
      have own : (typenameProperty name).Quiet :=
        ⟨key.unmarked, TypeExpr.quiet_literal.mpr named.unmarked⟩
      exact Declaration.quiet_object named.unmarked nofun
        (List.forall_mem_cons.mpr ⟨own, quiet_fieldProperties sound plain fields⟩)
    · exact quiet_argsDeclarations sound plain named fields e he
  | interface interfaces l =>
    rcases List.mem_cons.mp he with rfl | he
    · exact Declaration.quiet_object named.unmarked nofun (quiet_fieldProperties sound plain fields)
    · exact quiet_argsDeclarations sound plain named fields e he
  | union members =>
    rw [List.mem_singleton.mp he]
    refine Declaration.quiet_typeAlias named.unmarked nofun (TypeExpr.quiet_union.mpr ?_)
    intro m hm
    obtain ⟨member, listed, rfl⟩ := List.mem_map.mp hm
    have known : member ∈ g.types.keys := resolved member (List.mem_append_left _
      (List.mem_append_right _ (List.mem_eraseDups.mp listed)))
    exact TypeExpr.quiet_name.mpr (slashless_of_mem_keys sound plain known).unmarked
  | inputObject l =>
    rw [List.mem_singleton.mp he]
    refine Declaration.quiet_object named.unmarked nofun ?_
    intro p hp
    obtain ⟨v, hv, rfl⟩ := List.mem_map.mp hp
    refine quiet_inputProperty sound plain ?_
      (resolved _ (List.mem_append_right _ (List.mem_map_of_mem hv)))
    exact names _ (List.mem_append_left _ (List.mem_append_right _ (List.mem_map_of_mem hv)))
  | scalar | enum => cases he

/-! ## The preamble -/

theorem quiet_fixed {declares text : String} (h : Slashless text) :
    (Preamble.fixed declares text).Quiet := List.forall_mem_singleton.mpr h.unmarked

/-- No fixed text of the preamble has a slash in it. -/
theorem quiet_helpers {e : Declaration}
    (he : e ∈ Preamble.propertyHelpers ++ Preamble.resolverFunctions) : e.Quiet := by
  simp only [Preamble.propertyHelpers, Preamble.resolverFunctions, List.cons_append,
    List.nil_append, List.mem_cons, List.not_mem_nil, or_false] at he
  rcases he with rfl | rfl | rfl | rfl | rfl | rfl | rfl | rfl | rfl | rfl
  all_goals
    apply quiet_fixed
    -- the texts are written in pieces, each short enough to be looked through
    simp only [Slashless, String.toList_append, List.mem_append, not_or]
    and_intros
    all_goals exact Slashless.ofList (by decide +kernel)

theorem quiet_wrapper {name : String} {type : TypeExpr} (named : Slashless name)
    (body : type.withoutDescriptions.Quiet) : (Preamble.wrapper name type).Quiet := by
  have param : Slashless "T" := by decide
  refine Declaration.quiet_typeAlias named.unmarked ?_ body
  intro p hp
  rw [List.mem_singleton.mp hp]
  exact List.forall_mem_singleton.mpr param.unmarked

theorem quiet_imports (withScalars : Bool) : (Preamble.imports withScalars).Quiet := by
  have names : ∀ x ∈ "graphql" :: (["GraphQLResolveInfo"] ++
      if withScalars then ["GraphQLScalarType", "GraphQLScalarTypeConfig"] else []),
      Slashless x := by
    cases withScalars <;> decide
  exact fun x hx => (names x hx).unmarked

theorem quiet_typeHelpers (quiet : c.Quiet) :
    ∀ e ∈ (Preamble.typeHelpers c).declarations, e.Quiet := by
  have value := quiet.options ("maybeValue", c.maybeValue) (by simp [Config.textOptions])
  have names : Slashless Names.maybe ∧ Slashless Names.inputMaybe ∧ Slashless "T" := by decide
  refine List.forall_mem_cons.mpr ⟨quiet_wrapper names.1 (TypeExpr.quiet_raw.mpr value), ?_⟩
  refine List.forall_mem_cons.mpr ⟨quiet_wrapper names.2.1 ?_, ?_⟩
  · simpa [TypeExpr.withoutDescriptions] using ⟨names.1.unmarked, names.2.2.unmarked⟩
  · exact fun e he => quiet_helpers (List.mem_append_left _ he)

theorem quiet_resolverHelpers (quiet : c.Quiet) :
    ∀ e ∈ (Preamble.resolverHelpers c).declarations, e.Quiet := by
  have signature := quiet.options ("resolverTypeWrapperSignature", c.resolverTypeWrapperSignature)
    (by simp [Config.textOptions])
  have name : Slashless Names.resolverTypeWrapper := by decide
  refine List.forall_mem_cons.mpr ⟨quiet_wrapper name (TypeExpr.quiet_raw.mpr signature), ?_⟩
  exact fun e he => quiet_helpers (List.mem_append_right _ he)

/-! ## Union variants and tables -/

theorem quiet_variants (sound : g.Sound) (plain : SlashlessNames g) {d : Declaration}
    (h : UnionVariants.declaration? ((g.ofKind .union).map variantsOf) = some d) : d.Quiet := by
  unfold UnionVariants.declaration? at h
  split at h
  · cases h
  · obtain rfl := Option.some.inj h
    have table : Slashless Names.resolversUnionTypes := by decide
    have bound : ∀ x ∈ [Names.refType, "Record", "string", "unknown"], Slashless x := by decide
    refine Declaration.quiet_object table.unmarked ?_ ?_
    · exact List.forall_mem_singleton.mpr fun x hx => (bound x hx).unmarked
    · intro p hp
      obtain ⟨u, hu, rfl⟩ := List.mem_map.mp hp
      obtain ⟨t, ht, rfl⟩ := List.mem_map.mp hu
      refine ⟨(plain.types t (List.mem_filter.mp ht).1).unmarked, TypeExpr.quiet_union.mpr ?_⟩
      intro m hm
      obtain ⟨member, listed, rfl⟩ := List.mem_map.mp hm
      obtain ⟨o, node, -⟩ := sound.members t ht member (List.mem_eraseDups.mp listed)
      have known := OrderedMap.mem_keys_of_get? node
      simpa using (slashless_of_mem_keys sound plain known).unmarked

theorem quiet_typeIn (plain : SlashlessNames g) (quiet : c.Quiet) {t : TypeNode}
    (ht : t ∈ g.types.values) {table : String} (isTable : Slashless table) :
    ((TableEntry.ofNode c t).typeIn table).Quiet := by
  have name := (plain.types t ht).unmarked
  unfold TableEntry.ofNode TableEntry.typeIn
  cases root : t.root with
  | some op =>
    have value := quiet.options ("rootValueType", c.rootValueType) (by simp [Config.textOptions])
    exact TypeExpr.quiet_raw.mpr value
  | none =>
    cases kind : t.kind with
    | scalar =>
      have fixed : Slashless Direction.output.key ∧ Slashless Names.scalars := by decide
      simpa [scalarType] using ⟨fixed.1.unmarked, name, fixed.2.unmarked⟩
    | union =>
      have union : Slashless Names.resolversUnionTypes := by decide
      simpa [UnionVariants.reference] using ⟨name, union.unmarked, isTable.unmarked⟩
    | object | interface | enum | inputObject => simpa using name

theorem quiet_tables (plain : SlashlessNames g) (quiet : c.Quiet) :
    ∀ e ∈ [(TypeTable.ofGraph g c).resolversTypes, (TypeTable.ofGraph g c).resolversParentTypes],
      e.Quiet := by
  have fixed : Slashless Names.resolversTypes ∧ Slashless Names.resolversParentTypes ∧
      Slashless Names.resolverTypeWrapper := by decide
  obtain ⟨types, parents, wrapper⟩ := fixed
  have properties (type : TableEntry → TypeExpr)
      (entry : ∀ t ∈ g.types.values, (type (.ofNode c t)).Quiet) :
      ∀ p ∈ (TypeTable.ofGraph g c).properties type, p.Quiet := by
    intro p hp
    obtain ⟨e, he, rfl⟩ := List.mem_map.mp hp
    obtain ⟨t, ht, rfl⟩ := List.mem_map.mp he
    exact ⟨(plain.types t ht).unmarked, entry t ht⟩
  refine List.forall_mem_cons.mpr ⟨?_, List.forall_mem_singleton.mpr ?_⟩
  · refine Declaration.quiet_object types.unmarked nofun (properties _ fun t ht => ?_)
    simpa [TableEntry.resolverType] using ⟨wrapper.unmarked, quiet_typeIn plain quiet ht types⟩
  · exact Declaration.quiet_object parents.unmarked nofun
      (properties _ fun t ht => quiet_typeIn plain quiet ht parents)

/-! ## Contracts -/

theorem quiet_parentAndContext : ∀ t ∈ parentAndContext, t.Quiet := by
  have names : Slashless Names.parentType ∧ Slashless Names.contextType := by decide
  simpa [parentAndContext] using ⟨names.1.unmarked, names.2.unmarked⟩

theorem quiet_literals {names : List String} (slashless : ∀ name ∈ names, Slashless name) :
    (TypeExpr.union (names.map .literal)).Quiet := by
  simpa using fun name member => (slashless name member).unmarked

theorem quiet_resolveTypeSignature {possible : TypeExpr} (h : possible.Quiet) :
    (resolveTypeSignature possible).Quiet := by
  have function : Slashless "TypeResolveFn" := by decide
  rw [resolveTypeSignature, TypeExpr.quiet_reference]
  exact ⟨function.unmarked, List.forall_mem_cons.mpr ⟨h, quiet_parentAndContext⟩⟩

theorem quiet_resultType (sound : g.Sound) (plain : SlashlessNames g) {t : TypeRef}
    (known : t.innermost ∈ g.types.keys) : (resultType t).Quiet := by
  have names : Slashless Names.maybe ∧ Slashless Names.resolversTypes := by decide
  have name := (slashless_of_mem_keys sound plain known).unmarked
  exact quiet_wrap names.1.unmarked _ (by simpa using ⟨name, names.2.unmarked⟩)

theorem quiet_argsType {typeName : String} (named : Slashless typeName) {f : Field}
    (name : Slashless f.name) (args : ∀ a ∈ f.args, Slashless a.name) :
    (argsType typeName f).Quiet := by
  have fixed : Slashless "Args" ∧ Slashless "Partial" ∧ Slashless "RequireFields" := by decide
  obtain ⟨ending, optional, mandatory⟩ := fixed
  have all : (TypeExpr.name (Names.args typeName f.name)).Quiet :=
    TypeExpr.quiet_name.mpr ((named.append name.pascalCase).append ending).unmarked
  have required : ∀ a ∈ f.requiredArgs, Slashless a := by
    intro a ha
    obtain ⟨v, hv, rfl⟩ := List.mem_map.mp ha
    exact args v (List.mem_filter.mp hv).1
  unfold argsType
  split
  · simpa using ⟨optional.unmarked, TypeExpr.quiet_name.mp all⟩
  · rw [TypeExpr.quiet_reference]
    refine ⟨mandatory.unmarked, List.forall_mem_cons.mpr ⟨all, ?_⟩⟩
    exact List.forall_mem_singleton.mpr (quiet_literals required)

theorem quiet_fieldSignature (sound : g.Sound) (plain : SlashlessNames g) {t : TypeNode}
    (ht : t ∈ g.types.values) {f : Field} (hf : f ∈ t.fields) :
    (fieldSignature t f).Quiet := by
  have fields := quietFields_of_node sound plain ht
  have functions : Slashless "SubscriptionResolver" ∧ Slashless "Resolver" := by decide
  have name := fields.names f hf
  have result := quiet_resultType sound plain (fields.known f hf _ List.mem_cons_self)
  have args : ∀ a ∈ (if f.args.isEmpty then [] else [argsType t.name f]), a.Quiet := by
    split
    · nofun
    · exact List.forall_mem_singleton.mpr
        (quiet_argsType (plain.types t ht) name (fields.args f hf))
  -- both kinds of function end with the same arguments
  have given := List.forall_mem_append.mpr ⟨quiet_parentAndContext, args⟩
  unfold fieldSignature
  dsimp only
  split
  · rw [TypeExpr.quiet_reference]
    exact ⟨functions.1.unmarked, List.forall_mem_cons.mpr ⟨result, List.forall_mem_cons.mpr
      ⟨TypeExpr.quiet_quoted.mpr name.unmarked, given⟩⟩⟩
  · rw [TypeExpr.quiet_reference]
    exact ⟨functions.2.unmarked, List.forall_mem_cons.mpr ⟨result, given⟩⟩

theorem quiet_contextParam (quiet : c.Quiet) : (Contract.contextParam c).Quiet := by
  have name : Slashless Names.contextType := by decide
  have type := quiet.options ("contextType", c.contextType) (by simp [Config.textOptions])
  exact List.forall_mem_cons.mpr ⟨name.unmarked, List.forall_mem_singleton.mpr type⟩

theorem quiet_entries (sound : g.Sound) (plain : SlashlessNames g) {k : Contract}
    (hk : k ∈ contractsOf g c) : ∀ e ∈ k.entries, Slashless e.name ∧ e.signature.Quiet := by
  obtain ⟨t, ht, named, -, fields⟩ := exists_node_of_contract hk
  have fixed : Slashless Names.resolveType ∧ Slashless Names.isTypeOf ∧ Slashless "null" ∧
      Slashless "IsTypeOfResolverFn" := by decide
  obtain ⟨resolveType, isTypeOf, null, predicate⟩ := fixed
  intro e he
  rcases List.mem_append.mp he with he | he
  · rcases List.mem_append.mp he with he | he
    · obtain ⟨signature, has, rfl⟩ := List.mem_map.mp he
      refine ⟨resolveType, ?_⟩
      rcases resolveType_cases sound hk (Option.mem_toList.mp has) with rfl | ⟨names, known, rfl⟩
      · exact quiet_resolveTypeSignature (TypeExpr.quiet_raw.mpr null.unmarked)
      · exact quiet_resolveTypeSignature (quiet_literals fun name member =>
          slashless_of_mem_keys sound plain (known name member))
    · obtain ⟨field, member, rfl⟩ := List.mem_map.mp he
      obtain ⟨f, hf, rfl⟩ := fields field member
      exact ⟨(quietFields_of_node sound plain ht).names f hf,
        quiet_fieldSignature sound plain ht hf⟩
  · split at he
    · rw [List.mem_singleton.mp he]
      exact ⟨isTypeOf, TypeExpr.quiet_reference.mpr
        ⟨predicate.unmarked, quiet_parentAndContext⟩⟩
    · cases he

theorem quiet_contract (sound : g.Sound) (plain : SlashlessNames g) (quiet : c.Quiet)
    {k : Contract} (hk : k ∈ contractsOf g c) : (k.declaration c).Quiet := by
  obtain ⟨t, ht, named, -, -⟩ := exists_node_of_contract hk
  have owner : Slashless k.typeName := named ▸ plain.types t ht
  have fixed : Slashless "Resolvers" ∧ Slashless Names.parentType ∧
      Slashless Names.resolversParentTypes := by decide
  obtain ⟨ending, parent, table⟩ := fixed
  have param : ∀ x ∈ [Names.parentType, k.typeName, Names.resolversParentTypes, k.typeName,
      Names.resolversParentTypes], Slashless x := by
    simpa using ⟨parent, owner, table, owner, table⟩
  refine Declaration.quiet_object (owner.append ending).unmarked ?_ ?_
  · exact List.forall_mem_cons.mpr ⟨quiet_contextParam quiet,
      List.forall_mem_singleton.mpr fun x hx => (param x hx).unmarked⟩
  · intro p hp
    obtain ⟨e, he, rfl⟩ := List.mem_map.mp hp
    obtain ⟨name, signature⟩ := quiet_entries sound plain hk e he
    exact ⟨name.unmarked, signature⟩

/-! ## Custom scalars, and all contracts together -/

theorem quiet_scalarConfig {scalar : String} (named : Slashless scalar) :
    (scalarConfigDeclaration scalar).Quiet := by
  have fixed : Slashless "ScalarConfig" ∧ Slashless "GraphQLScalarTypeConfig" ∧
      Slashless Names.resolversTypes ∧ Slashless "any" ∧ Slashless "name" := by decide
  obtain ⟨ending, base, table, rest, key⟩ := fixed
  have texts : ∀ x ∈ [Names.scalarConfig scalar, "GraphQLScalarTypeConfig", scalar,
      Names.resolversTypes, "any", "name", scalar], Slashless x := by
    simpa using ⟨named.append ending, base, named, table, rest, key, named⟩
  exact fun x hx => (texts x hx).unmarked

theorem quiet_resolvers (plain : SlashlessNames g) (quiet : c.Quiet) :
    (resolversDeclaration g c).Quiet := by
  have fixed : Slashless Names.resolvers ∧ Slashless "Resolvers" ∧ Slashless Names.contextType ∧
      Slashless "GraphQLScalarType" := by decide
  obtain ⟨name, ending, context, scalar⟩ := fixed
  refine Declaration.quiet_object name.unmarked
    (List.forall_mem_singleton.mpr (quiet_contextParam quiet)) ?_
  intro p hp
  obtain ⟨t, ht, h⟩ := List.mem_filterMap.mp hp
  have owner := plain.types t ht
  have contract : (TypeExpr.reference (Names.contract t.name) [.name Names.contextType]).Quiet := by
    simpa using ⟨(owner.append ending).unmarked, context.unmarked⟩
  unfold resolversProperty? at h
  cases kind : t.kind with
  | object | interface | union =>
    rw [kind] at h
    obtain rfl := Option.some.inj h
    exact ⟨owner.unmarked, contract⟩
  | scalar =>
    rw [kind] at h
    dsimp only at h
    split at h
    · cases h
    · obtain rfl := Option.some.inj h
      exact ⟨owner.unmarked, TypeExpr.quiet_name.mpr scalar.unmarked⟩
  | enum | inputObject =>
    rw [kind] at h
    cases h

/-! ## Documents -/

/-- No declaration of a document has a text that opens a comment, descriptions apart. -/
theorem quiet_document (sound : g.Sound) (plain : SlashlessNames g) (quiet : c.Quiet) :
    ∀ e ∈ ((blueprintOf g c).document g c).declarations, e.Quiet := by
  intro e he
  -- one case per section, in the order of the document
  rcases mem_document.mp he with rfl | he | (rfl | he | he) | he | (h | he) | he
  · exact quiet_imports _
  · exact quiet_typeHelpers quiet e he
  · exact quiet_scalarsDeclaration quiet plain
  · exact quiet_enumDeclarations plain e he
  · exact quiet_shapeDeclarations sound plain e he
  · exact quiet_resolverHelpers quiet e he
  · exact quiet_variants sound plain h
  · exact quiet_tables plain quiet e he
  · rcases List.mem_append.mp he with he | he
    · rcases List.mem_append.mp he with he | he
      · obtain ⟨k, hk, rfl⟩ := List.mem_map.mp he
        exact quiet_contract sound plain quiet hk
      · obtain ⟨scalar, h, rfl⟩ := List.mem_map.mp he
        exact quiet_scalarConfig (slashless_of_mem_keys sound plain (customScalar_mem_keys sound h))
    · rw [List.mem_singleton.mp he]
      exact quiet_resolvers plain quiet

/-- Descriptions are comments and nothing else. For a schema whose names are names in the sense of
the grammar and a configuration none of whose texts opens a comment, there is a text with and
without the descriptions of the schema, and without comments and blanks both are the same. In the
comment of a description, whatever it says, the mark that closes the comment stands at the end and
nowhere else. -/
theorem descriptions_inert {s : Schema} (built : s.Built) (valid : s.validate = .ok ())
    {c : Config} (usable : c.validate = .ok ())
    (names : ∀ d ∈ s.types, ∀ name ∈ d.names, Sdl.IsName name) (quiet : c.Quiet) :
    (∃ text bare code, generate s c = .ok text ∧ generate s.withoutDescriptions c = .ok bare ∧
      code? text = some code ∧ code? bare = some code) ∧
    ∀ d : String, (∃ front, (comment d).toList = front ++ ['*', '/']) ∧
      ∀ before after, (comment d).toList = before ++ '*' :: '/' :: after → after = [] := by
  refine ⟨?_, fun d => ?_⟩
  · have sound := TypeGraph.sound_ofSchema built valid
    have document := generateDocument_eq_ok built valid usable
    have bare := generateDocument_eq_ok built.withoutDescriptions
      (s.validate_withoutDescriptions.trans valid) usable
    rw [TypeGraph.ofSchema_withoutDescriptions, blueprintOf_withoutDescriptions] at bare
    have unmarked := Document.unmarked_withoutDescriptions
      (quiet_document sound (slashlessNames_ofSchema names) quiet)
    have same := document_withoutDescriptions (g := .ofSchema s) (c := c)
      (blueprintOf (.ofSchema s) c)
    unfold generate
    rw [document, bare]
    -- both texts have the code of the one document without descriptions
    refine ⟨_, _, _, rfl, rfl, Document.code?_render unmarked, ?_⟩
    rw [← same]
    exact Document.code?_render (same ▸ unmarked)
  · rw [comment, String.toList_ofList]
    obtain ⟨body, text, -⟩ := commentText_eq d.toList
    exact ⟨⟨'/' :: '*' :: body, by simpa using text⟩, fun _ _ => eq_nil_of_commentText⟩

/-- Descriptions that try to get out of their comments at the end, across a line break and with a
mark of their own, next to a type with a slash in it. -/
theorem descriptions_inert_example :
    let day : InputValue := ⟨"day", .named "Int", some "/* day", false⟩
    let menu : Field := ⟨"menu", .named "String", some "*\n/ menu", [day]⟩
    let s := Schema.ofTypes [⟨"Query", some "*/ evil(); /*", .object [] [menu]⟩] {}
    let c : Config := { contextType := "import('./kitchen').Kitchen" }
    (∃ text bare code, generate s c = .ok text ∧ generate s.withoutDescriptions c = .ok bare ∧
      code? text = some code ∧ code? bare = some code) ∧
    (comment "*/ evil(); /*").toList = "/** *\\/ evil(); /* */".toList ∧
    (comment "*\n/ menu").toList = "/**\n * *\n * / menu\n */".toList := by
  intro day menu s c
  have names : ∀ d ∈ s.types, ∀ name ∈ d.names, Sdl.IsName name := by
    intro d hd name member
    obtain rfl := List.mem_singleton.mp hd
    change name ∈ ["Query", "menu", "day"] at member
    simp only [List.mem_cons, List.not_mem_nil, or_false] at member
    rcases member with rfl | rfl | rfl <;> exact .ofList rfl
  have quiet : c.Quiet := ⟨by decide, nofun⟩
  have usable : c.validate = .ok () := by decide +kernel
  have inert := descriptions_inert (Schema.built_ofTypes _ _) (s := s) rfl usable names quiet
  exact ⟨inert.1, by decide +kernel, by decide +kernel⟩

end Output

end ResolverTypes
