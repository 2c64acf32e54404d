import ResolverTypes.Proofs.Output.TypeIdentity

/-!
# Indexes and types

The types of a graph are the definitions that names stand for, but its indexes are collected from
all definitions of the schema: who belongs to a union (`TypeGraph.mem_unionMembers`) and who
implements an interface (`TypeGraph.mem_objectsImplementing`). A definition whose name was taken
over by a later one is no longer among the types and still in the indexes.

So the indexes say what the types say (`TypeGraph.Indexed`) exactly if the definitions that names
stand for repeat what the superseded ones say of unions and interfaces (`Schema.KeepsRelations`).
Schemas with pairwise distinct names do, and others need not (`indexes_disagree`).
-/

namespace ResolverTypes

/-! ## Definitions that names stand for -/

namespace Schema

/-- Whether the definition is the one that its name stands for. -/
def InForce (s : Schema) (d : TypeDef) : Prop := s.find? d.name = some d

instance (s : Schema) (d : TypeDef) : Decidable (s.InForce d) :=
  inferInstanceAs (Decidable (s.find? d.name = some d))

/-- Whether the definitions that names stand for repeat what all definitions say of unions and
interfaces. -/
structure KeepsRelations (s : Schema) : Prop where
  members : ∀ d ∈ s.types, ∀ name ∈ d.members, ∃ e, s.InForce e ∧ name ∈ e.members
  interfaces : ∀ d ∈ s.types, d.kind = .object → ∀ interface ∈ d.interfaces,
    ∃ e, s.InForce e ∧ e.name = d.name ∧ e.kind = .object ∧ interface ∈ e.interfaces

variable {s : Schema}

/-- With pairwise distinct names every definition is in force. -/
theorem Built.keepsRelations (built : s.Built) (nodup : (s.types.map (·.name)).Nodup) :
    s.KeepsRelations := by
  have inForce : ∀ d ∈ s.types, s.InForce d := fun d hd =>
    (built.find?_eq_some_iff nodup).mpr ⟨hd, rfl⟩
  exact ⟨fun d hd _ member => ⟨d, inForce d hd, member⟩,
    fun d hd object _ member => ⟨d, inForce d hd, rfl, object, member⟩⟩

/-- In a schema that is accepted an object implements nothing but interfaces. -/
theorem find?_of_mem_interfaces (valid : s.validate = .ok ()) {d : TypeDef} (hd : d ∈ s.types)
    (object : d.kind = .object) {interface : String} (member : interface ∈ d.interfaces) :
    ∃ e, s.find? interface = some e ∧ e.kind = .interface := by
  have sound := definitionViolations_of_validate valid d hd
  obtain ⟨name, description, body⟩ := d
  cases body with
  | object interfaces fields =>
    have none := (List.append_eq_nil_iff.mp sound).1
    exact interfaceViolations_eq_nil_iff.mp (List.flatMap_eq_nil_iff.mp none interface member)
  | interface | union | scalar | enum | inputObject => cases object

end Schema

/-! ## Indexes of a graph -/

namespace TypeGraph

/-- Whether the indexes of the graph say what its types say. -/
structure Indexed (g : TypeGraph) : Prop where
  /-- Who belongs to a union is listed by a union of the graph. -/
  members : ∀ name, name ∈ g.unionMembers ↔ ∃ t ∈ g.ofKind .union, name ∈ t.members
  /-- Whoever implements an interface of the graph is an object of the graph that says so. -/
  implementing : ∀ i ∈ g.ofKind .interface, ∀ name ∈ g.objectsImplementing i.name,
    ∃ t ∈ g.ofKind .object, t.name = name ∧ ∃ d, t.definition? = some d ∧ i.name ∈ d.interfaces

variable {s : Schema}

theorem mem_objectsImplementing {interface name : String} :
    name ∈ (ofSchema s).objectsImplementing interface ↔
      ∃ d ∈ s.types, d.kind = .object ∧ d.name = name ∧ interface ∈ d.interfaces := by
  rw [objectsImplementing_ofSchema, List.mem_flatMap]
  constructor
  · rintro ⟨d, hd, member⟩
    obtain ⟨hd, object⟩ := List.mem_filter.mp hd
    obtain ⟨i, listed, rfl⟩ := List.mem_map.mp member
    obtain ⟨listed, same⟩ := List.mem_filter.mp listed
    exact ⟨d, hd, of_decide_eq_true object, rfl, of_decide_eq_true same ▸ listed⟩
  · rintro ⟨d, hd, object, rfl, member⟩
    exact ⟨d, List.mem_filter.mpr ⟨hd, decide_eq_true object⟩,
      List.mem_map.mpr ⟨interface, List.mem_filter.mpr ⟨member, by simp⟩, rfl⟩⟩

/-- The definitions among the types of a graph are those in force. -/
theorem exists_definition_iff (built : s.Built) {d : TypeDef} :
    (∃ t ∈ (ofSchema s).types.values, t.definition? = some d) ↔ s.InForce d := by
  constructor
  · rintro ⟨t, ht, definition⟩
    obtain ⟨hd, rfl⟩ := mem_types_of_definition? ht definition
    obtain ⟨k, node⟩ := OrderedMap.mem_values_iff.mp ht
    obtain rfl : d.name = k := name_of_get?_typesOf node
    have known := (find?_isSome_iff built).mpr (built.contains_iff.mpr ⟨d, hd, rfl⟩)
    obtain ⟨e, found⟩ := Option.isSome_iff_exists.mp known
    -- the node of the definition in force stands under the name as well
    obtain same : declaredNode s d = declaredNode s e :=
      Option.some.inj (node.symm.trans (get?_typesOf_of_find? built found))
    obtain rfl : d = e := TypeOrigin.declared.inj (congrArg TypeNode.origin same)
    exact found
  · intro inForce
    exact ⟨declaredNode s d,
      OrderedMap.mem_values_iff.mpr ⟨d.name, get?_typesOf_of_find? built inForce⟩, rfl⟩

theorem mem_ofKind_iff (built : s.Built) (kind : TypeKind) (declared : kind ≠ .scalar)
    {t : TypeNode} : t ∈ (ofSchema s).ofKind kind ↔
      ∃ d, s.InForce d ∧ d.kind = kind ∧ t = declaredNode s d := by
  unfold ofKind
  rw [List.mem_filter, decide_eq_true_iff]
  constructor
  · rintro ⟨ht, rfl⟩
    obtain ⟨d, definition⟩ := exists_definition declared
    exact ⟨d, (exists_definition_iff built).mp ⟨t, ht, definition⟩,
      (of_definition? definition).1, (mem_types_of_definition? ht definition).2⟩
  · rintro ⟨d, inForce, rfl, rfl⟩
    exact ⟨OrderedMap.mem_values_iff.mpr ⟨d.name, get?_typesOf_of_find? built inForce⟩, rfl⟩

/-- Who is listed by a union of the graph. -/
theorem exists_union_iff (built : s.Built) {name : String} :
    (∃ t ∈ (ofSchema s).ofKind .union, name ∈ t.members) ↔
      ∃ d, s.InForce d ∧ name ∈ d.members := by
  simp only [mem_ofKind_iff built .union nofun]
  constructor
  · rintro ⟨t, ⟨d, inForce, -, rfl⟩, member⟩
    exact ⟨d, inForce, member⟩
  · rintro ⟨d, inForce, member⟩
    exact ⟨_, ⟨d, inForce, TypeDef.kind_of_mem_members member, rfl⟩, member⟩

/-- The indexes say what the types say exactly if nothing that a superseded definition says of
unions and interfaces is lost. -/
theorem indexed_iff (built : s.Built) (valid : s.validate = .ok ()) :
    (ofSchema s).Indexed ↔ s.KeepsRelations := by
  have objects := fun t => mem_ofKind_iff built .object nofun (t := t)
  have interfaces := fun t => mem_ofKind_iff built .interface nofun (t := t)
  constructor
  · rintro ⟨members, implementing⟩
    refine ⟨?_, ?_⟩
    · intro d hd name member
      exact (exists_union_iff built).mp ((members name).mp (mem_unionMembers.mpr ⟨d, hd, member⟩))
    · intro d hd object interface member
      obtain ⟨i, found, kind⟩ := Schema.find?_of_mem_interfaces valid hd object member
      obtain ⟨-, rfl⟩ := built.mem_of_find? found
      obtain ⟨t, ht, named, e, definition, listed⟩ := implementing (declaredNode s i)
        ((interfaces _).mpr ⟨i, found, kind, rfl⟩) d.name
        (mem_objectsImplementing.mpr ⟨d, hd, object, rfl, member⟩)
      obtain ⟨e', inForce, kind, rfl⟩ := (objects t).mp ht
      obtain rfl : e' = e := Option.some.inj definition
      exact ⟨e', inForce, named, kind, listed⟩
  · rintro ⟨members, implementing⟩
    refine ⟨?_, ?_⟩
    · intro name
      rw [mem_unionMembers, exists_union_iff built]
      constructor
      · rintro ⟨d, hd, member⟩
        exact members d hd name member
      · rintro ⟨d, inForce, member⟩
        exact ⟨d, (built.mem_of_find? inForce).1, member⟩
    · intro i _ name member
      obtain ⟨d, hd, object, rfl, listed⟩ := mem_objectsImplementing.mp member
      obtain ⟨e, inForce, named, kind, listed⟩ := implementing d hd object i.name listed
      exact ⟨declaredNode s e, (objects _).mpr ⟨e, inForce, kind, rfl⟩, named, e, rfl, listed⟩

end TypeGraph

/-! ## What the indexes say -/

namespace Output

variable {s : Schema} {c : Config}

/-- Who is a variant of a union is who some union of the graph lists. -/
theorem isVariant_iff_exists_union {g : TypeGraph} {name : String} :
    IsVariant (blueprintOf g c).unions name ↔ ∃ t ∈ g.ofKind .union, name ∈ t.members := by
  show IsVariant ((g.ofKind .union).map variantsOf) name ↔ _
  constructor
  · rintro ⟨u, hu, member⟩
    obtain ⟨t, ht, rfl⟩ := List.mem_map.mp hu
    exact ⟨t, ht, List.mem_eraseDups.mp member⟩
  · rintro ⟨t, ht, member⟩
    exact ⟨variantsOf t, List.mem_map_of_mem ht, List.mem_eraseDups.mpr member⟩

/-- The contract of an object in force has a predicate if some union lists the object. -/
theorem exists_isTypeOf (built : s.Built) {d : TypeDef} (inForce : s.InForce d)
    (object : d.kind = .object) (member : d.name ∈ (TypeGraph.ofSchema s).unionMembers) :
    ∃ k, (blueprintOf (.ofSchema s) c).contract? d.name = some k ∧ k.hasIsTypeOf = true := by
  obtain ⟨k, found, -, predicate⟩ := exists_contract_of_find? (c := c) built
    (((TypeGraph.ofSchema s).ofKind .union).map variantsOf) inForce object
  exact ⟨k, found, predicate.mpr (.inr member)⟩

/-- What the indexes of a graph say. They list what all definitions of the schema say of unions and
interfaces, and so at least what the types of the graph say. They say no more exactly if the
definitions that names stand for repeat what the superseded ones say, which is so with pairwise
distinct names. A predicate under a restricted policy goes to the objects that some definition of a
union lists, superseded or not; if nothing is lost, these are the variants of the unions in the
document. -/
theorem indexes_of_definitions (built : s.Built) (valid : s.validate = .ok ())
    (usable : c.validate = .ok ()) :
    let g := TypeGraph.ofSchema s
    (∀ name, name ∈ g.unionMembers ↔ ∃ d ∈ s.types, name ∈ d.members) ∧
    (∀ i name, name ∈ g.objectsImplementing i ↔
      ∃ d ∈ s.types, d.kind = .object ∧ d.name = name ∧ i ∈ d.interfaces) ∧
    (∀ t ∈ g.types.values, ∀ d, t.definition? = some d → d ∈ s.types) ∧
    (g.Indexed ↔ s.KeepsRelations) ∧
    ((s.types.map (·.name)).Nodup → g.Indexed) ∧
    ∃ b, Blueprint.ofGraph g c = .ok b ∧
      (∀ k ∈ b.contracts, k.hasIsTypeOf = true ↔ k.kind = .object ∧
        (c.isTypeOfOnlyIfNeeded = false ∨ ∃ d ∈ s.types, k.typeName ∈ d.members)) ∧
      (g.Indexed → ∀ name, (∃ d ∈ s.types, name ∈ d.members) ↔ IsVariant b.unions name) := by
  intro g
  have sound : g.Sound := TypeGraph.sound_ofSchema built valid
  have indexed := TypeGraph.indexed_iff built valid
  refine ⟨fun _ => TypeGraph.mem_unionMembers, fun _ _ => TypeGraph.mem_objectsImplementing,
    fun t ht d definition => (TypeGraph.mem_types_of_definition? ht definition).1, indexed,
    fun nodup => indexed.mpr (built.keepsRelations nodup), _,
    Blueprint.ofGraph_eq_ok sound usable, ?_, ?_⟩
  · intro k hk
    obtain ⟨t, -, made⟩ := List.mem_filterMap.mp hk
    obtain ⟨named, kind, predicate⟩ := of_ofNode? made
    rw [predicate, requiresIsTypeOf_iff, ← named, ← kind, TypeGraph.mem_unionMembers]
  · rintro ⟨members, -⟩ name
    rw [← TypeGraph.mem_unionMembers, members]
    exact isVariant_iff_exists_union.symm

/-- A union that is declared again with one more member: nothing is lost. -/
theorem indexes_of_definitions_example :
    let object (name : String) : TypeDef := ⟨name, none, .object [] []⟩
    let s := Schema.ofTypes
      [object "A", ⟨"U", none, .union ["A"]⟩, object "B", ⟨"U", none, .union ["B", "A"]⟩] {}
    let c : Config := { isTypeOfOnlyIfNeeded := true }
    (TypeGraph.ofSchema s).Indexed ∧ ∃ b, Blueprint.ofGraph (.ofSchema s) c = .ok b ∧
      IsVariant b.unions "A" := by
  intro object s c
  have inForce : s.InForce ⟨"U", none, .union ["B", "A"]⟩ := by decide
  have keeps : s.KeepsRelations := by
    refine ⟨fun d hd name member => ⟨_, inForce, ?_⟩, fun d hd _ interface listed => ?_⟩
    · have all : ∀ d ∈ s.types, ∀ name ∈ d.members, name ∈ ["B", "A"] := by decide
      exact all d hd name member
    · have none : ∀ d ∈ s.types, d.interfaces = [] := by decide
      rw [none d hd] at listed
      cases listed
  obtain ⟨-, -, -, indexed, -, b, made, -, variants⟩ :=
    indexes_of_definitions (s := s) (c := c) (Schema.built_ofTypes _ _) rfl (by decide)
  refine ⟨indexed.mpr keeps, b, made, (variants (indexed.mpr keeps) "A").mp ?_⟩
  exact ⟨⟨"U", none, .union ["A"]⟩, by decide, by decide⟩

/-- A union that is declared again with another member, and an object whose name is taken over by an
enum: both are accepted, a predicate goes to an object that is a variant of nothing, and an enum
counts among the objects that implement an interface. -/
theorem indexes_disagree :
    let object (name : String) (interfaces : List String) : TypeDef :=
      ⟨name, none, .object interfaces []⟩
    let unions := Schema.ofTypes
      [object "A" [], ⟨"U", none, .union ["A"]⟩, object "B" [], ⟨"U", none, .union ["B"]⟩] {}
    let interfaces := Schema.ofTypes
      [⟨"I", none, .interface [] []⟩, object "A" ["I"], ⟨"A", none, .enum []⟩] {}
    let c : Config := { isTypeOfOnlyIfNeeded := true }
    (unions.validate = .ok () ∧ ¬(TypeGraph.ofSchema unions).Indexed ∧
      ∃ b k, Blueprint.ofGraph (.ofSchema unions) c = .ok b ∧ b.contract? "A" = some k ∧
        k.hasIsTypeOf = true ∧ ¬IsVariant b.unions "A") ∧
    interfaces.validate = .ok () ∧ ¬(TypeGraph.ofSchema interfaces).Indexed ∧
      "A" ∈ (TypeGraph.ofSchema interfaces).objectsImplementing "I" ∧
      ((TypeGraph.ofSchema interfaces).find? "A").map (·.kind) = some .enum := by
  intro object unions interfaces c
  have unlisted : ∀ t ∈ (TypeGraph.ofSchema unions).ofKind .union, "A" ∉ t.members := by decide
  refine ⟨⟨rfl, ?_, ?_⟩, rfl, ?_, by decide, by decide⟩
  · rintro ⟨members, -⟩
    obtain ⟨t, ht, member⟩ := (members "A").mp (by decide)
    exact unlisted t ht member
  · have sound : (TypeGraph.ofSchema unions).Sound :=
      TypeGraph.sound_ofSchema (Schema.built_ofTypes _ _) rfl
    obtain ⟨k, found, has⟩ := exists_isTypeOf (c := c) (Schema.built_ofTypes _ _)
      (show unions.InForce (object "A" []) from rfl) rfl (by decide)
    refine ⟨_, k, Blueprint.ofGraph_eq_ok sound (by decide), found, has, ?_⟩
    intro variant
    obtain ⟨t, ht, member⟩ := isVariant_iff_exists_union.mp variant
    exact unlisted t ht member
  · rintro ⟨-, implementing⟩
    have objects : (TypeGraph.ofSchema interfaces).ofKind .object = [] := by decide
    have declared : ∃ i ∈ (TypeGraph.ofSchema interfaces).ofKind .interface, i.name = "I" := by
      decide
    obtain ⟨i, hi, named⟩ := declared
    obtain ⟨t, ht, -⟩ := implementing i hi "A" (by rw [named]; decide)
    rw [objects] at ht
    cases ht

end Output

end ResolverTypes
