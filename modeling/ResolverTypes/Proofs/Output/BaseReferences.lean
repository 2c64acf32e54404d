import ResolverTypes.Proofs.Output.Blueprint
import ResolverTypes.Proofs.TypeScript.References

/-!
# References of base types and tables

What the base types, the union variants and both tables of a sound graph may refer to is `InBase`:
plain names are those of types with a base type of their own, and look-ups go to `Scalars` for
scalars and to `ResolversUnionTypes` for unions. Every builder of these declarations keeps to it,
from single type references (`shape_inBase`) up to whole declarations.
-/

namespace ResolverTypes.Output

open TypeScript

variable {g : TypeGraph} {c : Config}

/-- The names of the types that have a base type of their own: all but the scalars. -/
def baseNames (g : TypeGraph) : List String :=
  (g.types.values.filter fun t => t.kind ≠ .scalar).map (·.name)

/-- The names of the unions. -/
def unionNames (g : TypeGraph) : List String := (g.ofKind .union).map (·.name)

/-- Whether base types, union variants and tables may refer so. -/
def InBase (g : TypeGraph) : Reference → Prop
  | .plain name => name ∈ baseNames g
  | .applied name => name ∈ [Names.maybe, Names.inputMaybe, "Array", Names.resolverTypeWrapper]
  | .entry table key =>
    table = Names.scalars ∧ g.isScalar key = true ∨
      table = Names.resolversUnionTypes ∧ key ∈ unionNames g
  | .handed name => name ∈ [Names.resolversTypes, Names.resolversParentTypes]
  | .text _ => True

/-! ## Nodes by name -/

theorem get?_name (sound : g.Sound) {t : TypeNode} (ht : t ∈ g.types.values) :
    g.types.get? t.name = some t := by
  obtain ⟨k, h⟩ := OrderedMap.mem_values_iff.mp ht
  rw [sound.named k t h]
  exact h

theorem name_mem_keys (sound : g.Sound) {t : TypeNode} (ht : t ∈ g.types.values) :
    t.name ∈ g.types.keys := OrderedMap.mem_keys_of_get? (get?_name sound ht)

theorem isScalar_name (sound : g.Sound) {t : TypeNode} (ht : t ∈ g.types.values) :
    g.isScalar t.name = true ↔ t.kind = .scalar := by
  rw [TypeGraph.isScalar, TypeGraph.find?, get?_name sound ht]
  simp

theorem exists_node (sound : g.Sound) {name : String} (known : name ∈ g.types.keys) :
    ∃ t ∈ g.types.values, t.name = name := by
  obtain ⟨t, h⟩ := OrderedMap.mem_keys_iff.mp known
  exact ⟨t, OrderedMap.mem_values_iff.mpr ⟨name, h⟩, sound.named name t h⟩

theorem mem_baseNames {t : TypeNode} (ht : t ∈ g.types.values) (base : t.kind ≠ .scalar) :
    t.name ∈ baseNames g :=
  List.mem_map_of_mem (List.mem_filter.mpr ⟨ht, decide_eq_true base⟩)

theorem mem_unionNames {t : TypeNode} (ht : t ∈ g.types.values) (union : t.kind = .union) :
    t.name ∈ unionNames g :=
  List.mem_map_of_mem (List.mem_filter.mpr ⟨ht, decide_eq_true union⟩)

theorem member_mem_baseNames (sound : g.Sound) {t : TypeNode} (ht : t ∈ g.types.values)
    (union : t.kind = .union) {name : String} (member : name ∈ t.members) :
    name ∈ baseNames g := by
  have ofKind : t ∈ g.ofKind .union := List.mem_filter.mpr ⟨ht, decide_eq_true union⟩
  obtain ⟨u, h, object⟩ := sound.members t ofKind name member
  rw [← sound.named name u h]
  apply mem_baseNames (OrderedMap.mem_values_iff.mpr ⟨name, h⟩)
  rw [object]
  nofun

/-- Whatever a field of a node refers to is in the graph. -/
theorem mem_keys_of_field (sound : g.Sound) {t : TypeNode} (ht : t ∈ g.types.values) {f : Field}
    (hf : f ∈ t.fields) {name : String} (referred : name ∈ TypeDef.fieldReferences f) :
    name ∈ g.types.keys := by
  cases definition : t.definition? with
  | none =>
    rw [TypeNode.fields, definition] at hf
    cases hf
  | some d =>
    obtain ⟨-, -, fields, -⟩ := TypeGraph.of_definition? definition
    rw [← fields] at hf
    apply sound.resolved t ht d definition
    apply List.mem_append_left
    apply List.mem_append_left
    exact List.mem_append_right _ (List.mem_flatMap.mpr ⟨f, hf, referred⟩)

/-! ## Shapes -/

/-- Wrappers put nothing but their own names around a type. -/
theorem forall_references_wrap {P : Reference → Prop} {nullable : String} {layers : List Layer}
    {inner : TypeExpr} (wrapper : P (.applied nullable)) (array : P (.applied "Array"))
    (inside : ∀ r ∈ inner.references, P r) :
    ∀ r ∈ (wrap nullable layers inner).references, P r := by
  -- both layers are one name around what is there already
  induction layers with
  | nil => exact inside
  | cons layer rest ih =>
    intro r hr
    have one (name : String) (h : P (.applied name))
        (hr : r ∈ (TypeExpr.reference name [wrap nullable rest inner]).references) : P r := by
      rw [TypeExpr.references_reference, List.flatMap_singleton] at hr
      rcases List.mem_cons.mp hr with rfl | hr
      · exact h
      · exact ih r hr
    cases layer with
    | nullable => exact one nullable wrapper hr
    | list => exact one "Array" array hr

@[simp] theorem references_scalarType (direction : Direction) (name : String) :
    (scalarType direction name).references = [.entry Names.scalars name] := rfl

theorem shape_inBase (sound : g.Sound) {direction : Direction} {t : TypeRef}
    (known : t.innermost ∈ g.types.keys) :
    ∀ r ∈ (shape g direction t).references, InBase g r := by
  apply forall_references_wrap
  · cases direction <;> simp [InBase, Direction.nullable]
  · simp [InBase]
  · intro r hr
    unfold namedShape at hr
    split at hr
    · next scalar =>
      rw [references_scalarType, List.mem_singleton] at hr
      rw [hr]
      exact .inl ⟨rfl, scalar⟩
    · next other =>
      rw [TypeExpr.references_name, List.mem_singleton] at hr
      rw [hr]
      obtain ⟨u, hu, named⟩ := exists_node sound known
      rw [← named, isScalar_name sound hu] at other
      show t.innermost ∈ baseNames g
      rw [← named]
      exact mem_baseNames hu other

/-! ## Base types -/

theorem argsDeclarations_inBase (sound : g.Sound) {typeName : String} {fields : List Field}
    (known : ∀ f ∈ fields, ∀ name ∈ TypeDef.fieldReferences f, name ∈ g.types.keys) :
    ∀ d ∈ argsDeclarations g typeName fields, ∀ r ∈ d.references, InBase g r := by
  intro d hd r hr
  obtain ⟨f, hf, rfl⟩ := List.mem_map.mp hd
  have hf := (List.mem_filter.mp hf).1
  rw [Declaration.references_typeAlias, TypeExpr.references_object, List.flatMap_map] at hr
  obtain ⟨v, hv, hr⟩ := List.mem_flatMap.mp hr
  exact shape_inBase sound (known f hf _ (List.mem_cons_of_mem _ (List.mem_map_of_mem hv))) r hr

theorem fieldProperties_inBase (sound : g.Sound) {fields : List Field}
    (known : ∀ f ∈ fields, ∀ name ∈ TypeDef.fieldReferences f, name ∈ g.types.keys) :
    ∀ r ∈ (TypeExpr.object (fields.map (fieldProperty g))).references, InBase g r := by
  intro r hr
  rw [TypeExpr.references_object, List.flatMap_map] at hr
  obtain ⟨f, hf, hr⟩ := List.mem_flatMap.mp hr
  exact shape_inBase sound (known f hf _ List.mem_cons_self) r hr

/-- The declarations of a node keep to base types if all that it refers to is in the graph. -/
theorem typeDeclarations_inBase (sound : g.Sound) {t : TypeNode} (ht : t ∈ g.types.values)
    {d : TypeDef} (definition : t.definition? = some d) :
    ∀ e ∈ typeDeclarations g d, ∀ r ∈ e.references, InBase g r := by
  obtain ⟨kind, -, own, members⟩ := TypeGraph.of_definition? definition
  have known : ∀ f ∈ d.fields, ∀ name ∈ TypeDef.fieldReferences f, name ∈ g.types.keys :=
    fun f hf name referred => mem_keys_of_field sound ht (own ▸ hf) referred
  have resolved := sound.resolved t ht d definition
  obtain ⟨typeName, description, body⟩ := d
  intro e he r hr
  cases body with
  | object interfaces fields =>
    rcases List.mem_cons.mp he with rfl | he
    · rw [Declaration.references_typeAlias, TypeExpr.references_object, List.flatMap_cons,
        ← TypeExpr.references_object] at hr
      rcases List.mem_append.mp hr with hr | hr
      · rw [List.mem_singleton.mp hr]
        trivial
      · exact fieldProperties_inBase sound known r hr
    · exact argsDeclarations_inBase sound known e he r hr
  | interface interfaces fields =>
    rcases List.mem_cons.mp he with rfl | he
    · rw [Declaration.references_typeAlias] at hr
      exact fieldProperties_inBase sound known r hr
    · exact argsDeclarations_inBase sound known e he r hr
  | union names =>
    rw [List.mem_singleton.mp he, Declaration.references_typeAlias, TypeExpr.references_union,
      List.flatMap_map] at hr
    obtain ⟨name, member, hr⟩ := List.mem_flatMap.mp hr
    rw [TypeExpr.references_name, List.mem_singleton] at hr
    rw [hr]
    -- that members are objects is known of the node, not of its definition
    exact member_mem_baseNames sound ht kind.symm (members ▸ List.mem_eraseDups.mp member)
  | inputObject fields =>
    rw [List.mem_singleton.mp he, Declaration.references_typeAlias, TypeExpr.references_object,
      List.flatMap_map] at hr
    obtain ⟨v, hv, hr⟩ := List.mem_flatMap.mp hr
    exact shape_inBase sound (resolved _ (List.mem_append_right _ (List.mem_map_of_mem hv))) r hr
  | scalar => cases he
  | enum values => cases he

theorem shapeDeclarations_inBase (sound : g.Sound) :
    ∀ e ∈ shapeDeclarations g, ∀ r ∈ e.references, InBase g r := by
  intro e he
  obtain ⟨d, hd, he⟩ := List.mem_flatMap.mp he
  obtain ⟨t, ht, definition⟩ := List.mem_filterMap.mp hd
  exact typeDeclarations_inBase sound ht definition e he

/-! ## Union variants and tables -/

/-- The body of the declaration of all variants. Its head has a bound of its own. -/
theorem variants_inBase (sound : g.Sound) {d : Declaration}
    (h : UnionVariants.declaration? ((g.ofKind .union).map variantsOf) = some d) :
    ∀ r ∈ d.bodyReferences, InBase g r := by
  unfold UnionVariants.declaration? at h
  split at h
  · cases h
  · obtain rfl := Option.some.inj h
    intro r hr
    simp only [Declaration.bodyReferences, Declaration.bodyTypes, List.flatMap_singleton,
      TypeExpr.references_object, List.flatMap_map, UnionVariants.variants,
      TypeExpr.references_union, TypeExpr.references_group, TypeExpr.references_name] at hr
    obtain ⟨t, ht, hr⟩ := List.mem_flatMap.mp hr
    obtain ⟨name, member, hr⟩ := List.mem_flatMap.mp hr
    rw [List.mem_singleton.mp hr]
    obtain ⟨ht, union⟩ := List.mem_filter.mp ht
    exact member_mem_baseNames sound ht (of_decide_eq_true union) (List.mem_eraseDups.mp member)

theorem typeIn_inBase (sound : g.Sound) {t : TypeNode} (ht : t ∈ g.types.values) {table : String}
    (isTable : table ∈ [Names.resolversTypes, Names.resolversParentTypes]) :
    ∀ r ∈ ((TableEntry.ofNode c t).typeIn table).references, InBase g r := by
  intro r hr
  have base (h : t.kind ≠ .scalar) (hr : r ∈ (TypeExpr.name t.name).references) : InBase g r := by
    rw [TypeExpr.references_name, List.mem_singleton] at hr
    rw [hr]
    exact mem_baseNames ht h
  unfold TableEntry.ofNode TableEntry.typeIn at hr
  -- a root refers to nothing, whatever its kind
  cases root : t.root with
  | some op =>
    simp [root] at hr
  | none =>
    rw [root] at hr
    cases kind : t.kind with
    | scalar =>
      rw [kind] at hr
      rw [List.mem_singleton.mp hr]
      exact .inl ⟨rfl, (isScalar_name sound ht).mpr kind⟩
    | union =>
      rw [kind] at hr
      rcases List.mem_cons.mp hr with rfl | hr
      · exact .inr ⟨rfl, mem_unionNames ht kind⟩
      · rw [List.mem_singleton.mp hr]
        exact isTable
    | object | interface | enum | inputObject =>
      rw [kind] at hr
      exact base (by rw [kind]; nofun) hr

theorem tables_inBase (sound : g.Sound) :
    ∀ d ∈ [(TypeTable.ofGraph g c).resolversTypes, (TypeTable.ofGraph g c).resolversParentTypes],
      ∀ r ∈ d.references, InBase g r := by
  have table (type : TableEntry → TypeExpr)
      (entry : ∀ t ∈ g.types.values, ∀ r ∈ (type (.ofNode c t)).references, InBase g r) :
      ∀ r ∈ (TypeExpr.object ((TypeTable.ofGraph g c).properties type)).references,
        InBase g r := by
    intro r hr
    rw [TypeExpr.references_object] at hr
    obtain ⟨p, hp, hr⟩ := List.mem_flatMap.mp hr
    obtain ⟨e, he, rfl⟩ := List.mem_map.mp hp
    obtain ⟨t, ht, rfl⟩ := List.mem_map.mp he
    exact entry t ht r hr
  intro d hd r hr
  rcases List.mem_cons.mp hd with rfl | hd
  · refine table TableEntry.resolverType ?_ r (Declaration.references_typeAlias .. ▸ hr)
    intro t ht r hr
    rw [TableEntry.resolverType, TypeExpr.references_reference, List.flatMap_singleton] at hr
    rcases List.mem_cons.mp hr with rfl | hr
    · simp [InBase]
    · exact typeIn_inBase sound ht (by simp) r hr
  · rw [List.mem_singleton.mp hd] at hr
    refine table TableEntry.parentType ?_ r (Declaration.references_typeAlias .. ▸ hr)
    exact fun t ht => typeIn_inBase sound ht (by simp)

end ResolverTypes.Output
