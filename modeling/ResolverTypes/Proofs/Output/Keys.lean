import ResolverTypes.Proofs.Output.DeclaredNames
import ResolverTypes.Proofs.Output.TypeIdentity
import ResolverTypes.Proofs.Schema.WellFormed
import ResolverTypes.Proofs.TypeScript.Keys

/-!
# The keys of generated documents

The keys of an object type in a document come from one list of names each: of fields, of arguments,
of input fields, of types. Such names are pairwise distinct in a schema that is accepted, and names
of scalars are distinct from those of the built-in ones. Three bodies have a key besides, which is
the same for all types: the shape of an object, the contract of an interface, and the contract of an
object with a predicate (`GeneratedBeside`). Nothing keeps a field from being called like it, so a
document has a key twice exactly if some field is (`nodup_bodies_iff`), and then in the body of that
type and nowhere else.
-/

namespace ResolverTypes.Output

open TypeScript

variable {s : Schema} {g : TypeGraph} {c : Config}

/-! ## Keys that are generated -/

/-- Whether in the declaration of the name there is an entry with the key beside those for the
fields of the type. -/
inductive GeneratedBeside (s : Schema) (c : Config) (d : TypeDef) : String → String → Prop
  | typename (object : d.kind = .object) : GeneratedBeside s c d d.name Names.typename
  | resolveType (interface : d.kind = .interface) :
    GeneratedBeside s c d (Names.contract d.name) Names.resolveType
  | isTypeOf (object : d.kind = .object)
    (asked : c.isTypeOfOnlyIfNeeded = false ∨ ∃ u ∈ s.types, d.name ∈ u.members) :
    GeneratedBeside s c d (Names.contract d.name) Names.isTypeOf

/-- Whether no field is called like an entry that is generated beside it. -/
def KeysApart (s : Schema) (c : Config) : Prop :=
  ∀ d ∈ s.types, ∀ name key, GeneratedBeside s c d name key → key ∉ d.fields.map (·.name)

/-- Whether the one key is there twice and any other once. -/
structure RepeatsOnly (key : String) (keys : List String) : Prop where
  twice : keys.count key = 2
  once : ∀ other ∈ keys, other ≠ key → keys.count other = 1

/-- Whether the keys are the names of the fields, each once, and one key besides. -/
def FieldsAnd (fields : List Field) (key : String) (keys : List String) : Prop :=
  ∃ names : List String, keys.Perm (key :: names) ∧ names.Nodup ∧
    ∀ name, name ∈ names ↔ name ∈ fields.map (·.name)

section FieldsAnd

variable {fields : List Field} {key : String} {keys : List String}

theorem FieldsAnd.nodup_iff (h : FieldsAnd fields key keys) :
    keys.Nodup ↔ key ∉ fields.map (·.name) := by
  obtain ⟨names, perm, nodup, same⟩ := h
  rw [perm.nodup_iff, List.nodup_cons, same]
  exact and_iff_left nodup

theorem FieldsAnd.repeatsOnly (h : FieldsAnd fields key keys)
    (taken : key ∈ fields.map (·.name)) : RepeatsOnly key keys := by
  obtain ⟨names, perm, nodup, same⟩ := h
  refine ⟨?_, fun other there apart => ?_⟩
  · rw [perm.count_eq, List.count_cons_self,
      List.count_eq_one_of_mem nodup ((same key).mpr taken)]
  · have field : other ∈ names := (List.mem_cons.mp (perm.mem_iff.mp there)).resolve_left apart
    rw [perm.count_eq, List.count_cons_of_ne apart.symm, List.count_eq_one_of_mem nodup field]

theorem fieldsAnd_signatures {t : TypeNode} (perm : keys.Perm (key :: (fieldSignatures t).keys)) :
    FieldsAnd t.fields key keys := by
  refine ⟨_, perm, OrderedMap.nodup_keys _, fun name => ?_⟩
  rw [fieldSignatures, OrderedMap.mem_keys_ofList, List.map_map]
  rfl

end FieldsAnd

/-- Whether the keys of a body are pairwise distinct, or else those of the fields of a type and of
the entry that is generated beside them. -/
def Accounted (s : Schema) (c : Config) (e : Declaration) (keys : List String) : Prop :=
  keys.Nodup ∨ ∃ d ∈ s.types, ∃ name key, e.name? = some name ∧ GeneratedBeside s c d name key ∧
    FieldsAnd d.fields key keys

/-! ## Types without bodies -/

@[simp] theorem bodies_wrap (nullable : String) (layers : List Layer) (inner : TypeExpr) :
    (wrap nullable layers inner).bodies = inner.bodies := by
  induction layers with
  | nil => rfl
  | cons layer rest ih => cases layer <;> simpa [wrap, wrapLayer] using ih

@[simp] theorem bodies_shape (direction : Direction) (t : TypeRef) :
    (shape g direction t).bodies = [] := by
  unfold shape namedShape
  rw [bodies_wrap]
  split <;> simp [scalarType]

@[simp] theorem bodies_argsType (typeName : String) (f : Field) :
    (argsType typeName f).bodies = [] := by
  unfold argsType
  split <;> simp

theorem bodies_fieldSignature (t : TypeNode) (f : Field) :
    (fieldSignature t f).bodies = [] := by
  have result : (resultType f.type).bodies = [] := by simp [resultType]
  unfold fieldSignature
  dsimp only
  split <;> simp [parentAndContext, result]

theorem bodies_entries (sound : g.Sound) {k : Contract} (hk : k ∈ contractsOf g c) :
    ∀ e ∈ k.entries, e.signature.bodies = [] := by
  obtain ⟨t, -, -, -, fields⟩ := exists_node_of_contract hk
  intro e he
  rcases List.mem_append.mp he with he | he
  · rcases List.mem_append.mp he with he | he
    · obtain ⟨signature, has, rfl⟩ := List.mem_map.mp he
      rcases resolveType_cases sound hk (Option.mem_toList.mp has) with rfl | ⟨names, -, rfl⟩ <;>
        simp [resolveTypeSignature, parentAndContext]
    · obtain ⟨field, member, rfl⟩ := List.mem_map.mp he
      obtain ⟨f, -, rfl⟩ := fields field member
      exact bodies_fieldSignature t f
  · split at he
    · rw [List.mem_singleton.mp he]
      rfl
    · cases he

/-! ## Base types -/

theorem map_key_fieldProperty (fields : List Field) :
    (fields.map (fieldProperty g)).map (·.key) = fields.map (·.name) := by
  rw [List.map_map]
  rfl

theorem map_key_inputProperty (values : List InputValue) :
    (values.map (inputProperty g)).map (·.key) = values.map (·.name) := by
  rw [List.map_map]
  rfl

theorem bodies_fields (fields : List Field) :
    (TypeExpr.object (fields.map (fieldProperty g))).bodies = [fields.map (·.name)] := by
  rw [TypeExpr.bodies_flat (by simp [fieldProperty]), map_key_fieldProperty]

theorem bodies_inputs (values : List InputValue) :
    (TypeExpr.object (values.map (inputProperty g))).bodies = [values.map (·.name)] := by
  rw [TypeExpr.bodies_flat (by simp [inputProperty]), map_key_inputProperty]

theorem bodies_objectShape (typeName : String) (fields : List Field) :
    (TypeExpr.object (typenameProperty typeName :: fields.map (fieldProperty g))).bodies =
      [Names.typename :: fields.map (·.name)] := by
  rw [TypeExpr.bodies_flat (by simp [fieldProperty, typenameProperty]), List.map_cons,
    map_key_fieldProperty]
  rfl

theorem accounted_args (owner : String) {fields : List Field}
    (distinct : ∀ f ∈ fields, (f.args.map (·.name)).Nodup) :
    ∀ e ∈ argsDeclarations g owner fields, ∀ keys ∈ e.bodies, Accounted s c e keys := by
  intro e he keys hk
  obtain ⟨f, hf, rfl⟩ := List.mem_map.mp he
  rw [Declaration.bodies_typeAlias, bodies_inputs, List.mem_singleton] at hk
  exact .inl (hk ▸ distinct f (List.mem_filter.mp hf).1)

theorem accounted_typeDeclarations {d : TypeDef} (hd : d ∈ s.types) (sound : s.WellFormedType d) :
    ∀ e ∈ typeDeclarations g d, ∀ keys ∈ e.bodies, Accounted s c e keys := by
  intro e he keys hk
  have args := accounted_args (g := g) (s := s) (c := c) d.name sound.argNames
  obtain ⟨name, description, body⟩ := d
  cases body with
  | object interfaces fields =>
    rcases List.mem_cons.mp he with rfl | he
    · rw [Declaration.bodies_typeAlias, bodies_objectShape, List.mem_singleton] at hk
      refine .inr ⟨_, hd, _, _, rfl, .typename rfl, fields.map (·.name), ?_⟩
      exact ⟨hk ▸ .refl _, sound.fieldNames, fun _ => Iff.rfl⟩
    · exact args e he keys hk
  | interface interfaces fields =>
    rcases List.mem_cons.mp he with rfl | he
    · rw [Declaration.bodies_typeAlias, bodies_fields, List.mem_singleton] at hk
      exact .inl (hk ▸ sound.fieldNames)
    · exact args e he keys hk
  | union members =>
    rw [List.mem_singleton.mp he, Declaration.bodies_typeAlias, TypeExpr.bodies_union] at hk
    simp [List.flatMap_map] at hk
  | inputObject fields =>
    rw [List.mem_singleton.mp he, Declaration.bodies_typeAlias, bodies_inputs,
      List.mem_singleton] at hk
    exact .inl (hk ▸ sound.inputNames)
  | scalar | enum => cases he

theorem nodup_scalarNames (sound : s.WellFormed) :
    (scalarNames (.ofSchema s)).Nodup := by
  have custom : (TypeGraph.ofSchema s).customScalars.Nodup :=
    nodup_names (fun _ _ => TypeGraph.name_of_get?_typesOf) (·.isCustomScalar)
  refine List.nodup_append.mpr ⟨by decide, custom, ?_⟩
  rintro _ builtin _ declared rfl
  obtain ⟨scalar, -, named⟩ := List.mem_map.mp builtin
  obtain ⟨t, ht, rfl⟩ := List.mem_map.mp declared
  obtain ⟨ht, isCustom⟩ := List.mem_filter.mp ht
  rw [TypeNode.isCustomScalar, Bool.and_eq_true, decide_eq_true_iff] at isCustom
  -- a custom scalar has a definition, which does not take a name of a built-in one
  cases definition : t.definition? with
  | none => simp [TypeNode.isBuiltin, definition] at isCustom
  | some d =>
    obtain ⟨hd, rfl⟩ := TypeGraph.mem_types_of_definition? ht definition
    exact (sound.types d hd).scalar isCustom.1 scalar named

theorem bodies_scalarsDeclaration (g : TypeGraph) (c : Config) :
    ∀ keys ∈ (scalarsDeclaration g c).bodies,
      keys = scalarNames g ∨ keys = ["input", "output"] := by
  intro keys hk
  rw [scalarsDeclaration, Declaration.bodies_typeAlias, TypeExpr.bodies_object] at hk
  rcases List.mem_cons.mp hk with rfl | hk
  · left
    rw [List.map_map]
    exact List.map_id _
  · obtain ⟨p, hp, hk⟩ := List.mem_flatMap.mp hk
    obtain ⟨name, -, rfl⟩ := List.mem_map.mp hp
    exact .inr (List.mem_singleton.mp hk)

theorem bodies_of_enumDeclarations {e : Declaration} (he : e ∈ enumDeclarations g) :
    e.bodies = [] := by
  obtain ⟨d, -, made⟩ := List.mem_filterMap.mp he
  obtain ⟨name, description, body⟩ := d
  cases body with
  | enum values =>
    obtain rfl := Option.some.inj made
    rfl
  | object | interface | union | scalar | inputObject => cases made

/-! ## The preamble -/

theorem bodies_fixed (declares text : String) :
    (Preamble.fixed declares text).bodies = (KeyReader.run {} text).bodies := by
  show [] ++ bodiesInText text = _
  rw [List.nil_append, bodiesInText]

theorem nodup_bodies_fixed : ∀ e ∈ Preamble.propertyHelpers ++ Preamble.resolverFunctions,
    ∀ keys ∈ e.bodies, keys.Nodup := by
  unfold Preamble.propertyHelpers Preamble.resolverFunctions
  simp only [List.cons_append, List.nil_append, List.forall_mem_cons, bodies_fixed,
    KeyReader.run_append]
  -- to evaluate the reader on a literal would be to decode the literal, which takes much longer
  repeat rw [KeyReader.run_ofList]
  decide +kernel

/-- The wrappers have no bodies, and the other helpers are the same in all documents. -/
theorem nodup_bodies_helpers {e : Declaration}
    (he : e ∈ (Preamble.typeHelpers c).declarations ∨
      e ∈ (Preamble.resolverHelpers c).declarations) :
    ∀ keys ∈ e.bodies, keys.Nodup := by
  rcases he with he | he
  · rcases List.mem_cons.mp he with rfl | he
    · nofun
    · rcases List.mem_cons.mp he with rfl | he
      · nofun
      · exact nodup_bodies_fixed e (List.mem_append_left _ he)
  · rcases List.mem_cons.mp he with rfl | he
    · nofun
    · exact nodup_bodies_fixed e (List.mem_append_right _ he)

/-! ## Union variants and tables -/

theorem bodies_variants {unions : List UnionVariants} {e : Declaration}
    (declared : UnionVariants.declaration? unions = some e) : e.bodies = [unions.map (·.name)] := by
  unfold UnionVariants.declaration? at declared
  split at declared
  · cases declared
  · obtain rfl := Option.some.inj declared
    show (TypeExpr.object _).bodies = _
    rw [TypeExpr.bodies_flat (by simp [UnionVariants.variants]), List.map_map]
    rfl

theorem bodies_typeIn (e : TableEntry) (table : String) : (e.typeIn table).bodies = [] := by
  unfold TableEntry.typeIn
  cases e.shape <;> simp [scalarType, UnionVariants.reference]

theorem bodies_tables (t : TypeTable) :
    ∀ e ∈ [t.resolversTypes, t.resolversParentTypes], e.bodies = [t.map (·.name)] := by
  have keys (type : TableEntry → TypeExpr) (flat : ∀ e, (type e).bodies = []) :
      (TypeExpr.object (t.properties type)).bodies = [t.map (·.name)] := by
    rw [TypeExpr.bodies_flat (by simp [TypeTable.properties, flat]), TypeTable.properties,
      List.map_map]
    rfl
  refine List.forall_mem_cons.mpr ⟨?_, List.forall_mem_singleton.mpr ?_⟩
  · exact keys _ fun e => by simp [TableEntry.resolverType, bodies_typeIn]
  · exact keys _ fun e => bodies_typeIn e _

/-! ## Contracts -/

theorem bodies_contract (sound : g.Sound) {k : Contract} (hk : k ∈ contractsOf g c) :
    (k.declaration c).bodies = [k.entries.map (·.name)] := by
  show (TypeExpr.object _).bodies = _
  rw [TypeExpr.bodies_flat (by simpa using bodies_entries sound hk), List.map_map]
  rfl

theorem map_name_entries (k : Contract) :
    k.entries.map (·.name) =
      (k.resolveType.toList.map fun _ => Names.resolveType) ++ k.fields.keys ++
        if k.hasIsTypeOf then [Names.isTypeOf] else [] := by
  unfold Contract.entries OrderedMap.keys
  rw [List.map_append, List.map_append, List.map_map, List.map_map, apply_ite (List.map _)]
  rfl

section Entries

variable {t : TypeNode} {k : Contract} {unions : List UnionVariants}

theorem entries_of_interface (interface : t.kind = .interface)
    (made : Contract.ofNode? g c unions t = some k) :
    FieldsAnd t.fields Names.resolveType (k.entries.map (·.name)) := by
  unfold Contract.ofNode? at made
  rw [interface] at made
  obtain rfl := Option.some.inj made
  refine fieldsAnd_signatures ?_
  rw [map_name_entries]
  simp

theorem entries_of_union (union : t.kind = .union)
    (made : Contract.ofNode? g c unions t = some k) :
    k.entries.map (·.name) = [Names.resolveType] := by
  unfold Contract.ofNode? at made
  rw [union] at made
  obtain rfl := Option.some.inj made
  rw [map_name_entries]
  rfl

theorem entries_of_object (object : t.kind = .object)
    (made : Contract.ofNode? g c unions t = some k) :
    k.entries.map (·.name) = (fieldSignatures t).keys ++
      if requiresIsTypeOf c g.unionMembers t then [Names.isTypeOf] else [] := by
  unfold Contract.ofNode? at made
  rw [object] at made
  obtain rfl := Option.some.inj made
  rw [map_name_entries]
  rfl

/-- The predicate of an object stands behind the entries for its fields. -/
theorem entries_of_predicate (object : t.kind = .object)
    (made : Contract.ofNode? g c unions t = some k)
    (asked : requiresIsTypeOf c g.unionMembers t = true) :
    FieldsAnd t.fields Names.isTypeOf (k.entries.map (·.name)) := by
  refine fieldsAnd_signatures ?_
  rw [entries_of_object object made, if_pos asked]
  exact List.perm_append_comm

theorem requiresIsTypeOf_ofSchema_iff {t : TypeNode} :
    requiresIsTypeOf c (TypeGraph.ofSchema s).unionMembers t = true ↔ t.kind = .object ∧
      (c.isTypeOfOnlyIfNeeded = false ∨ ∃ u ∈ s.types, t.name ∈ u.members) := by
  rw [requiresIsTypeOf_iff, TypeGraph.mem_unionMembers]

end Entries

theorem accounted_contract (sound : (TypeGraph.ofSchema s).Sound) {k : Contract}
    (hk : k ∈ contractsOf (.ofSchema s) c) :
    ∀ keys ∈ (k.declaration c).bodies, Accounted s c (k.declaration c) keys := by
  intro keys keys_mem
  rw [bodies_contract sound hk, List.mem_singleton] at keys_mem
  subst keys_mem
  obtain ⟨t, ht, made⟩ := List.mem_filterMap.mp hk
  have contract : (k.declaration c).name? = some (Names.contract t.name) := by
    rw [← (of_ofNode? made).1]
    rfl
  have contracted : t.kind ∈ [.object, .interface, .union] :=
    ofNode?_isSome_iff.mp (Option.isSome_iff_exists.mpr ⟨k, made⟩)
  obtain ⟨d, definition⟩ :=
    TypeGraph.exists_definition (t := t) (by rintro scalar; simp [scalar] at contracted)
  obtain ⟨hd, rfl⟩ := TypeGraph.mem_types_of_definition? ht definition
  cases kind : (TypeGraph.declaredNode s d).kind with
  | object =>
    by_cases asked : requiresIsTypeOf c (TypeGraph.ofSchema s).unionMembers
        (TypeGraph.declaredNode s d) = true
    · exact .inr ⟨d, hd, _, _, contract,
        .isTypeOf kind (requiresIsTypeOf_ofSchema_iff.mp asked).2,
        entries_of_predicate kind made asked⟩
    · left
      rw [entries_of_object kind made, if_neg asked, List.append_nil]
      exact OrderedMap.nodup_keys _
  | interface =>
    exact .inr ⟨d, hd, _, _, contract, .resolveType kind, entries_of_interface kind made⟩
  | union =>
    left
    rw [entries_of_union kind made]
    exact List.nodup_singleton _
  | scalar | enum | inputObject => simp [kind] at contracted

theorem bodies_scalarConfig (scalar : String) :
    (scalarConfigDeclaration scalar).bodies = [["name"]] := rfl

/-- `Resolvers` has keys for some of the types, in their order. -/
theorem bodies_resolvers (g : TypeGraph) (c : Config) :
    ∃ keys, (resolversDeclaration g c).bodies = [keys] ∧
      keys.Sublist (g.types.values.map (·.name)) := by
  have own {t : TypeNode} {p : Property TypeExpr} (made : resolversProperty? t = some p) :
      p.key = t.name ∧ p.value.bodies = [] := by
    unfold resolversProperty? at made
    cases kind : t.kind with
    | object | interface | union =>
      rw [kind] at made
      obtain rfl := Option.some.inj made
      simp
    | scalar =>
      rw [kind] at made
      dsimp only at made
      split at made
      · cases made
      · obtain rfl := Option.some.inj made
        simp
    | enum | inputObject =>
      rw [kind] at made
      cases made
  refine ⟨(g.types.values.filterMap resolversProperty?).map (·.key), ?_, ?_⟩
  · show (TypeExpr.object _).bodies = _
    refine TypeExpr.bodies_flat fun p hp => ?_
    obtain ⟨t, -, made⟩ := List.mem_filterMap.mp hp
    exact (own made).2
  · induction g.types.values with
    | nil => exact .slnil
    | cons t rest ih =>
      cases made : resolversProperty? t with
      | none =>
        rw [List.filterMap_cons_none made]
        exact ih.cons _
      | some p =>
        rw [List.filterMap_cons_some made, List.map_cons, List.map_cons, (own made).1]
        exact ih.cons_cons _

/-! ## Documents -/

/-- Every body of a document has distinct keys, or those of the fields of a type and of the entry
that is generated beside them. -/
theorem accounted_document (graph : (TypeGraph.ofSchema s).Sound) (sound : s.WellFormed) :
    ∀ e ∈ (documentFor (.ofSchema s) c).declarations, ∀ keys ∈ e.bodies, Accounted s c e keys := by
  have names : ((TypeGraph.ofSchema s).types.values.map (·.name)).Nodup := by
    rw [OrderedMap.map_values_eq_keys graph.named]
    exact OrderedMap.nodup_keys _
  intro e he keys hk
  -- one case per section, in the order of the document
  rcases mem_document.mp he with rfl | he | (rfl | he | he) | he | (h | he) | he
  · cases hk
  · exact .inl (nodup_bodies_helpers (.inl he) keys hk)
  · rcases bodies_scalarsDeclaration _ c keys hk with rfl | rfl
    · exact .inl (nodup_scalarNames sound)
    · exact .inl (by decide)
  · rw [bodies_of_enumDeclarations he] at hk
    cases hk
  · obtain ⟨d, hd, he⟩ := List.mem_flatMap.mp he
    obtain ⟨t, ht, definition⟩ := List.mem_filterMap.mp hd
    have declared := (TypeGraph.mem_types_of_definition? ht definition).1
    exact accounted_typeDeclarations declared (sound.types d declared) e he keys hk
  · exact .inl (nodup_bodies_helpers (.inr he) keys hk)
  · rw [bodies_variants h, List.mem_singleton] at hk
    refine .inl (hk ▸ ?_)
    show (((TypeGraph.ofSchema s).ofKind .union).map variantsOf |>.map (·.name)).Nodup
    rw [List.map_map]
    exact nodup_names graph.named fun t => t.kind = .union
  · rw [bodies_tables _ e he, List.mem_singleton] at hk
    refine .inl (hk ▸ ?_)
    show ((TypeTable.ofGraph (.ofSchema s) c).map (·.name)).Nodup
    rw [TypeTable.ofGraph, List.map_map]
    exact names
  · rcases List.mem_append.mp he with he | he
    · rcases List.mem_append.mp he with he | he
      · obtain ⟨k, contract, rfl⟩ := List.mem_map.mp he
        exact accounted_contract graph contract keys hk
      · obtain ⟨scalar, -, rfl⟩ := List.mem_map.mp he
        rw [bodies_scalarConfig, List.mem_singleton] at hk
        exact .inl (hk ▸ List.nodup_singleton _)
    · rw [List.mem_singleton.mp he] at hk
      obtain ⟨resolvers, bodies, sublist⟩ := bodies_resolvers (.ofSchema s) c
      rw [bodies, List.mem_singleton] at hk
      exact .inl (hk ▸ names.sublist sublist)

/-- Where an entry is generated beside those for the fields of a type, there is a body of both. -/
theorem exists_body (built : s.Built) (nodup : (s.types.map (·.name)).Nodup)
    (graph : (TypeGraph.ofSchema s).Sound) (sound : s.WellFormed) {d : TypeDef} (hd : d ∈ s.types)
    {name key : String} (beside : GeneratedBeside s c d name key) :
    ∃ e ∈ (documentFor (.ofSchema s) c).declarations, e.name? = some name ∧
      ∃ keys ∈ e.bodies, FieldsAnd d.fields key keys := by
  have found : s.find? d.name = some d := (built.find?_eq_some_iff nodup).mpr ⟨hd, rfl⟩
  have node : (TypeGraph.ofSchema s).types.get? d.name = some (TypeGraph.declaredNode s d) :=
    TypeGraph.get?_typesOf_of_find? built found
  have member : TypeGraph.declaredNode s d ∈ (TypeGraph.ofSchema s).types.values :=
    OrderedMap.mem_values_iff.mpr ⟨d.name, node⟩
  -- for the two entries of contracts only the keys of the contract differ
  have contract (kind : (TypeGraph.declaredNode s d).kind ∈ [.object, .interface, .union])
      (entries : ∀ k, Contract.ofNode? (.ofSchema s) c
        (((TypeGraph.ofSchema s).ofKind .union).map variantsOf) (TypeGraph.declaredNode s d) =
          some k → FieldsAnd d.fields key (k.entries.map (·.name))) :
      ∃ e ∈ (documentFor (.ofSchema s) c).declarations, e.name? = some (Names.contract d.name) ∧
        ∃ keys ∈ e.bodies, FieldsAnd d.fields key keys := by
    obtain ⟨k, made⟩ := Option.isSome_iff_exists.mp (ofNode?_isSome_iff.mpr kind)
    have hk : k ∈ contractsOf (.ofSchema s) c := List.mem_filterMap.mpr ⟨_, member, made⟩
    refine ⟨k.declaration c, resolver_mem_document ?_, ?_, k.entries.map (·.name), ?_,
      entries k made⟩
    · exact List.mem_append_left _ (List.mem_append_left _ (List.mem_map_of_mem hk))
    · show some (Names.contract k.typeName) = _
      rw [(of_ofNode? made).1]
      rfl
    · rw [bodies_contract graph hk]
      exact List.mem_singleton_self _
  cases beside with
  | typename object =>
    have declaration {e : Declaration} (he : e ∈ typeDeclarations (.ofSchema s) d) :
        e ∈ (documentFor (.ofSchema s) c).declarations :=
      shape_mem_document (List.mem_flatMap.mpr ⟨d, List.mem_filterMap.mpr ⟨_, member, rfl⟩, he⟩)
    have distinct := (sound.types d hd).fieldNames
    obtain ⟨name, description, body⟩ := d
    cases body with
    | object interfaces fields =>
      refine ⟨_, declaration List.mem_cons_self, rfl, Names.typename :: fields.map (·.name), ?_,
        fields.map (·.name), .refl _, distinct, fun _ => Iff.rfl⟩
      rw [Declaration.bodies_typeAlias, bodies_objectShape]
      exact List.mem_singleton_self _
    | interface | union | scalar | enum | inputObject => cases object
  | resolveType interface =>
    have kind : (TypeGraph.declaredNode s d).kind = .interface := interface
    exact contract (by simp [kind]) fun k made => entries_of_interface kind made
  | isTypeOf object asked =>
    have kind : (TypeGraph.declaredNode s d).kind = .object := object
    exact contract (by simp [kind]) fun k made =>
      entries_of_predicate kind made (requiresIsTypeOf_ofSchema_iff.mpr ⟨kind, asked⟩)

/-- No key of a document is there twice in one body exactly if no field is called like the entry
that is generated beside it. -/
theorem nodup_bodies_iff (built : s.Built) (nodup : (s.types.map (·.name)).Nodup)
    (graph : (TypeGraph.ofSchema s).Sound) (sound : s.WellFormed) :
    (∀ e ∈ (documentFor (.ofSchema s) c).declarations, ∀ keys ∈ e.bodies, keys.Nodup) ↔
      KeysApart s c := by
  constructor
  · intro distinct d hd name key beside
    obtain ⟨e, he, -, keys, hk, own⟩ := exists_body built nodup graph sound hd beside
    exact own.nodup_iff.mp (distinct e he keys hk)
  · intro apart e he keys hk
    rcases accounted_document graph sound e he keys hk with
      distinct | ⟨d, hd, name, key, -, beside, own⟩
    · exact distinct
    · exact own.nodup_iff.mpr (apart d hd name key beside)

/-- The keys of every object type in a generated document are pairwise distinct exactly if no field
is called like the entry that is generated beside those for the fields of its type. Where one is,
that key is there twice in the shape or the contract of the type, and there alone. -/
theorem keys_distinct {text out : String} {c : Config}
    (generated : generateOfDocument text c = .ok out) :
    ∃ s doc, Schema.ofDocument text = .ok s ∧ generateDocument s c = .ok doc ∧ doc.render = out ∧
      ((∀ e ∈ doc.declarations, ∀ keys ∈ e.bodies, keys.Nodup) ↔ KeysApart s c) ∧
      (∀ d ∈ s.types, ∀ name key, GeneratedBeside s c d name key →
        ∃ e ∈ doc.declarations, e.name? = some name ∧
          ∃ keys ∈ e.bodies, FieldsAnd d.fields key keys) ∧
      ∀ e ∈ doc.declarations, ∀ keys ∈ e.bodies, keys.Nodup ∨
        ∃ d ∈ s.types, ∃ name key, e.name? = some name ∧ GeneratedBeside s c d name key ∧
          key ∈ d.fields.map (·.name) ∧ RepeatsOnly key keys := by
  obtain ⟨s, doc, described, made, rendered⟩ := of_generateOfDocument generated
  have built : s.Built := .of_ofDocument described
  obtain ⟨valid, -, rfl⟩ := of_generateDocument built made
  have graph := TypeGraph.sound_ofSchema built valid
  have sound : s.WellFormed := built.violations_eq_nil_iff.mp (Schema.validate_eq_ok_iff.mp valid)
  have nodup := Schema.nodup_of_ofDocument described
  refine ⟨s, _, described, made, rendered, nodup_bodies_iff built nodup graph sound,
    fun d hd _ _ beside => exists_body built nodup graph sound hd beside, ?_⟩
  intro e he keys hk
  rcases accounted_document graph sound e he keys hk with
    distinct | ⟨d, hd, name, key, named, beside, own⟩
  · exact .inl distinct
  · by_cases taken : key ∈ d.fields.map (·.name)
    · exact .inr ⟨d, hd, name, key, named, beside, taken, own.repeatsOnly taken⟩
    · exact .inl (own.nodup_iff.mpr taken)

/-- An object and an interface whose contracts have an entry each besides those for their fields. -/
theorem keys_distinct_example :
    let text := "type Query implements I { a: Int } interface I { a: Int }"
    let field : Field := ⟨"a", .named "Int", none, []⟩
    ∃ s doc, Schema.ofDocument text = .ok s ∧ generateDocument s {} = .ok doc ∧
      generateOfDocument text {} = .ok doc.render ∧
      (∀ e ∈ doc.declarations, ∀ keys ∈ e.bodies, keys.Nodup) ∧
      (∃ e ∈ doc.declarations, e.name? = some "QueryResolvers" ∧
        ∃ keys ∈ e.bodies, FieldsAnd [field] "__isTypeOf" keys) ∧
      ∃ e ∈ doc.declarations, e.name? = some "IResolvers" ∧
        ∃ keys ∈ e.bodies, FieldsAnd [field] "__resolveType" keys := by
  intro text field
  let query : TypeDef := ⟨"Query", none, .object ["I"] [field]⟩
  let interface : TypeDef := ⟨"I", none, .interface [] [field]⟩
  let definitions : List Sdl.Definition := [.type false query, .type false interface]
  let s := Schema.ofTypes (Sdl.describedTypes definitions) {}
  have described : Schema.ofDocument text = .ok s :=
    (Schema.ofDocument_eq (by decide +kernel)).trans (Schema.ofDefinitions_eq definitions)
  obtain ⟨s', doc, described', made, -, distinct, bodies, -⟩ :=
    keys_distinct (generateOfDocument_eq_ok (c := {}) described rfl (by decide))
  obtain rfl : s' = s := Except.ok.inj (described'.symm.trans described)
  have types : s.types = [query, interface] := rfl
  have apart : KeysApart s {} := by
    intro d hd name key beside
    rw [types] at hd
    have fields : d.fields = [field] := by
      rcases List.mem_pair.mp hd with rfl | rfl <;> rfl
    rw [fields]
    cases beside <;> decide
  obtain ⟨-, -, rfl⟩ := of_generateDocument (.of_ofDocument described) made
  refine ⟨s, _, described, made, generateOfDocument_eq_ok described rfl (by decide),
    distinct.mpr apart, ?_, ?_⟩
  · exact bodies query List.mem_cons_self _ _ (.isTypeOf rfl (.inl rfl))
  · exact bodies interface (List.mem_cons_of_mem _ List.mem_cons_self) _ _ (.resolveType rfl)

/-- Whether the document that is generated for the text by default has the key twice in one body of
the declaration. -/
def RepeatsKey (text name key : String) : Prop :=
  ∃ s doc, Schema.ofDocument text = .ok s ∧ generateDocument s {} = .ok doc ∧
    generateOfDocument text {} = .ok doc.render ∧ ∃ e ∈ doc.declarations, e.name? = some name ∧
      ∃ keys ∈ e.bodies, keys.count key = 2 ∧ ¬keys.Nodup

theorem repeatsKey_of_taken {text : String} (described : Schema.ofDocument text = .ok s)
    (valid : s.validate = .ok ()) {d : TypeDef} (hd : d ∈ s.types) {name key : String}
    (beside : GeneratedBeside s {} d name key) (taken : key ∈ d.fields.map (·.name)) :
    RepeatsKey text name key := by
  have built : s.Built := .of_ofDocument described
  have usable : ({} : Config).validate = .ok () := by decide
  obtain ⟨e, he, named, keys, hk, own⟩ := exists_body built (Schema.nodup_of_ofDocument described)
    (TypeGraph.sound_ofSchema built valid)
    (built.violations_eq_nil_iff.mp (Schema.validate_eq_ok_iff.mp valid)) hd beside
  exact ⟨s, _, described, generateDocument_eq_ok built valid usable,
    generateOfDocument_eq_ok described valid usable, e, he, named, keys, hk,
    (own.repeatsOnly taken).twice, fun distinct => own.nodup_iff.mp distinct taken⟩

/-- A field can be called like each of the entries. -/
theorem keys_repeated :
    RepeatsKey "type Query { __typename: Int }" "Query" "__typename" ∧
    RepeatsKey "type Query { __isTypeOf: Int }" "QueryResolvers" "__isTypeOf" ∧
    RepeatsKey "type Query { a: I } interface I { __resolveType: Int }" "IResolvers"
      "__resolveType" := by
  let query (field : String) (type : String) : TypeDef :=
    ⟨"Query", none, .object [] [⟨field, .named type, none, []⟩]⟩
  let interface : TypeDef := ⟨"I", none, .interface [] [⟨"__resolveType", .named "Int", none, []⟩]⟩
  refine ⟨?_, ?_, ?_⟩
  · let definitions : List Sdl.Definition := [.type false (query "__typename" "Int")]
    have read : Sdl.definitions "type Query { __typename: Int }" = .ok definitions := by
      decide +kernel
    exact repeatsKey_of_taken
      ((Schema.ofDocument_eq read).trans (Schema.ofDefinitions_eq definitions)) rfl
      List.mem_cons_self (.typename rfl) List.mem_cons_self
  · let definitions : List Sdl.Definition := [.type false (query "__isTypeOf" "Int")]
    have read : Sdl.definitions "type Query { __isTypeOf: Int }" = .ok definitions := by
      decide +kernel
    exact repeatsKey_of_taken
      ((Schema.ofDocument_eq read).trans (Schema.ofDefinitions_eq definitions)) rfl
      List.mem_cons_self (.isTypeOf rfl (.inl rfl)) List.mem_cons_self
  · let definitions : List Sdl.Definition := [.type false (query "a" "I"), .type false interface]
    have read : Sdl.definitions "type Query { a: I } interface I { __resolveType: Int }" =
        .ok definitions := by
      decide +kernel
    exact repeatsKey_of_taken
      ((Schema.ofDocument_eq read).trans (Schema.ofDefinitions_eq definitions)) rfl
      (List.mem_cons_of_mem _ List.mem_cons_self) (.resolveType rfl) List.mem_cons_self

end ResolverTypes.Output
