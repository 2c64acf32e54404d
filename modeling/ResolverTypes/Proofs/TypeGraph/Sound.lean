import ResolverTypes.Proofs.Schema.Validation
import ResolverTypes.Proofs.TypeGraph.Nodes

/-!
# Graphs of accepted schemas

Validation looks names up in a schema; all that is derived afterwards looks them up in the graph.
`TypeGraph.Sound` is what the second half relies on, and the graph of a built schema that is
accepted has it (`sound_ofSchema`). Nothing behind the graph needs to know about the schema again.
-/

namespace ResolverTypes.TypeGraph

/-! ## Implementations -/

variable {s : Schema}

theorem getD_addImplementation (object : String) (m : OrderedMap (List String))
    (interface k : String) :
    ((addImplementation object m interface).get? k).getD [] =
      (m.get? k).getD [] ++ if interface = k then [object] else [] := by
  unfold addImplementation
  rw [OrderedMap.get?_insert]
  by_cases h : k = interface
  · subst h
    simp
  · rw [if_neg h, if_neg (fun same => h same.symm), List.append_nil]

theorem getD_foldl_addImplementation (object : String) (interfaces : List String)
    (m : OrderedMap (List String)) (k : String) :
    ((interfaces.foldl (addImplementation object) m).get? k).getD [] =
      (m.get? k).getD [] ++ (interfaces.filter (· = k)).map fun _ => object := by
  induction interfaces generalizing m with
  | nil => simp
  | cons i rest ih =>
    rw [List.foldl_cons, ih, getD_addImplementation, List.append_assoc]
    by_cases h : i = k <;> simp [h]

/-- The objects that implement an interface are those that list it, once for every time they do. -/
theorem objectsImplementing_ofSchema (s : Schema) (interface : String) :
    (ofSchema s).objectsImplementing interface =
      (s.types.filter fun d => d.kind = .object).flatMap fun d =>
        (d.interfaces.filter (· = interface)).map fun _ => d.name := by
  -- entries for declared interfaces start out empty, so they do not show
  have declared (names : List String) (m : OrderedMap (List String)) :
      ((names.foldl (fun m name => m.insertIfNew name []) m).get? interface).getD [] =
        (m.get? interface).getD [] := by
    induction names generalizing m with
    | nil => rfl
    | cons name rest ih =>
      rw [List.foldl_cons, ih, OrderedMap.insertIfNew]
      split
      · rfl
      · next absent =>
        rw [OrderedMap.contains_iff, ← OrderedMap.get?_eq_none_iff] at absent
        rw [OrderedMap.get?_insert]
        split
        · next same => rw [same, absent]; rfl
        · rfl
  have objects (types : List TypeDef) (m : OrderedMap (List String)) :
      ((types.foldl (fun m d => d.interfaces.foldl (addImplementation d.name) m) m).get?
        interface).getD [] = (m.get? interface).getD [] ++ types.flatMap fun d =>
          (d.interfaces.filter (· = interface)).map fun _ => d.name := by
    induction types generalizing m with
    | nil => simp
    | cons d rest ih =>
      rw [List.foldl_cons, ih, getD_foldl_addImplementation, List.flatMap_cons, List.append_assoc]
  show ((implementationsOf s).get? interface).getD [] = _
  rw [implementationsOf, objects, declared]
  rfl

/-! ## Unions -/

theorem mem_unionMembers {name : String} :
    name ∈ (ofSchema s).unionMembers ↔ ∃ d ∈ s.types, name ∈ d.members := by
  show name ∈ (s.types.flatMap (·.members)).eraseDups ↔ _
  rw [List.mem_eraseDups, List.mem_flatMap]

/-- A declared node has everything from its definition. -/
theorem of_definition? {t : TypeNode} {d : TypeDef} (definition : t.definition? = some d) :
    d.kind = t.kind ∧ d.name = t.name ∧ d.fields = t.fields ∧ d.members = t.members := by
  obtain ⟨origin, root⟩ := t
  cases origin with
  | declared e =>
    obtain rfl : e = d := Option.some.inj definition
    exact ⟨rfl, rfl, rfl, rfl⟩
  | builtin scalar => cases definition

/-- Only scalars may go without a definition. -/
theorem exists_definition {t : TypeNode} (declared : t.kind ≠ .scalar) :
    ∃ d, t.definition? = some d := by
  obtain ⟨origin, root⟩ := t
  cases origin with
  | declared d => exact ⟨d, rfl⟩
  | builtin scalar => exact absurd rfl declared

theorem body_of_kind_union {d : TypeDef} (union : d.kind = .union) : d.body = .union d.members := by
  obtain ⟨name, description, body⟩ := d
  cases body with
  | union members => rfl
  | object | interface | scalar | enum | inputObject => cases union

/-- In the graph of a schema that is accepted a union has members, and all of them stand for
objects. -/
theorem members_of_ofKind_union (built : s.Built) (valid : s.validate = .ok ()) {t : TypeNode}
    (member : t ∈ (ofSchema s).ofKind .union) :
    t.members ≠ [] ∧
      ∀ name ∈ t.members, ∃ u, (typesOf s).get? name = some u ∧ u.kind = .object := by
  obtain ⟨ht, union⟩ := List.mem_filter.mp member
  have union : t.kind = .union := of_decide_eq_true union
  obtain ⟨d, definition⟩ := exists_definition (t := t) (by rw [union]; nofun)
  obtain ⟨kind, -, -, members⟩ := of_definition? definition
  have declared := (mem_types_of_definition? ht definition).1
  have sound := Schema.definitionViolations_of_validate valid d declared
  obtain ⟨inhabited, objects⟩ :=
    Schema.members_of_union sound (body_of_kind_union (kind.trans union))
  rw [← members]
  refine ⟨inhabited, ?_⟩
  intro name hname
  obtain ⟨e, found, object⟩ := objects name hname
  exact ⟨declaredNode s e, get?_typesOf_of_find? built found, object⟩

/-! ## Sound graphs -/

/-- What the derivation of types relies on. -/
structure Sound (g : TypeGraph) : Prop where
  /-- Every type stands under its own name. -/
  named : ∀ k t, g.types.get? k = some t → t.name = k
  /-- Whatever a type refers to is a type of the graph. -/
  resolved : ∀ t ∈ g.types.values, ∀ d, t.definition? = some d →
    ∀ name ∈ d.references, name ∈ g.types.keys
  /-- A union has members. -/
  inhabited : ∀ t ∈ g.ofKind .union, t.members ≠ []
  /-- The members of a union are objects. -/
  members : ∀ t ∈ g.ofKind .union, ∀ name ∈ t.members,
    ∃ u, g.types.get? name = some u ∧ u.kind = .object
  /-- Whatever implements an interface is a type of the graph. -/
  implementing : ∀ interface, ∀ name ∈ g.objectsImplementing interface, name ∈ g.types.keys

theorem mem_keys_of_mem_types (built : s.Built) {d : TypeDef} (declared : d ∈ s.types) :
    d.name ∈ (typesOf s).keys := by
  have known := built.contains_iff.mpr ⟨d, declared, rfl⟩
  rw [← find?_isSome_iff built, Option.isSome_iff_exists] at known
  obtain ⟨e, found⟩ := known
  exact OrderedMap.mem_keys_of_get? (get?_typesOf_of_find? built found)

/-- The graph of a schema that is accepted is sound. -/
theorem sound_ofSchema (built : s.Built) (valid : s.validate = .ok ()) : (ofSchema s).Sound where
  named := fun _ _ => name_of_get?_typesOf
  resolved := by
    intro t ht d definition name referred
    have declared := (mem_types_of_definition? ht definition).1
    have sound := Schema.definitionViolations_of_validate valid d declared
    exact mem_keys_of_knows built declared referred
      (Schema.knows_of_mem_references sound name referred)
  inhabited := fun _ ht => (members_of_ofKind_union built valid ht).1
  members := fun _ ht => (members_of_ofKind_union built valid ht).2
  implementing := by
    intro interface name member
    rw [objectsImplementing_ofSchema] at member
    obtain ⟨d, hd, member⟩ := List.mem_flatMap.mp member
    obtain ⟨-, -, rfl⟩ := List.mem_map.mp member
    exact mem_keys_of_mem_types built (List.mem_filter.mp hd).1

end ResolverTypes.TypeGraph
