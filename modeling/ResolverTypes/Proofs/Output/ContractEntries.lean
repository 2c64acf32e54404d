import ResolverTypes.Proofs.Output.Lookup
import ResolverTypes.Proofs.Output.Wrapping
import ResolverTypes.Proofs.Schema.WellFormed

/-!
# What contracts list

Contracts are made type by type, in type order, and the entries for the fields of a type go through
a map by name. In a schema that is accepted no type has two fields of one name, so the map keeps all
of them in their order (`entries_fieldSignatures`), and the entries of a contract are those of the
fields of its type, behind the function that chooses a type and in front of the predicate, where the
type has these (`contracts_listed`).
-/

namespace ResolverTypes

namespace TypeGraph

variable {s : Schema}

/-- What a node has from its definition is well-formed, if the schema is accepted. -/
theorem wellFormed_of_definition? (built : s.Built) (valid : s.validate = .ok ()) {t : TypeNode}
    (ht : t ∈ (ofSchema s).types.values) {d : TypeDef} (definition : t.definition? = some d) :
    s.WellFormedType d := by
  have none := Schema.validate_eq_ok_iff.mp valid
  exact (built.violations_eq_nil_iff.mp none).types d (mem_types_of_definition? ht definition).1

theorem fields_of_definition?_eq_none {t : TypeNode} (builtin : t.definition? = none) :
    t.fields = [] := by
  unfold TypeNode.fields
  rw [builtin]

/-- No type of a schema that is accepted has two fields of one name. -/
theorem nodup_fields (built : s.Built) (valid : s.validate = .ok ()) {t : TypeNode}
    (ht : t ∈ (ofSchema s).types.values) : (t.fields.map (·.name)).Nodup := by
  cases definition : t.definition? with
  | none =>
    rw [fields_of_definition?_eq_none definition]
    exact List.nodup_nil
  | some d =>
    rw [← (of_definition? definition).2.2.1]
    exact (wellFormed_of_definition? built valid ht definition).fieldNames

theorem fields_of_kind_union {t : TypeNode} (union : t.kind = .union) : t.fields = [] := by
  obtain ⟨d, definition⟩ := exists_definition (t := t) (by rw [union]; nofun)
  obtain ⟨kind, -, fields, -⟩ := of_definition? definition
  rw [← fields, TypeDef.fields, body_of_kind_union (kind.trans union)]
  rfl

/-- In the graph of a schema that a document describes, an object or interface has the fields of its
base definition in front of those of its extensions. -/
theorem fields_of_ofDefinitions {definitions : List Sdl.Definition}
    (described : Schema.ofDefinitions definitions = .ok s) {t : TypeNode}
    (ht : t ∈ (ofSchema s).types.values) (fielded : t.kind ∈ [.object, .interface]) :
    ∃ base ∈ Sdl.bases definitions, base.name = t.name ∧ t.fields = base.fields ++
      ((Sdl.extensions definitions).filter fun e => e.name = t.name).flatMap (·.fields) := by
  obtain ⟨d, definition⟩ := exists_definition (t := t) (by rintro scalar; simp [scalar] at fielded)
  obtain ⟨kind, name, fields, -⟩ := of_definition? definition
  have declared := (mem_types_of_definition? ht definition).1
  obtain ⟨base, hb, rfl⟩ := (Schema.mem_types_of_ofDefinitions described).mp declared
  rw [TypeDef.name_extendedBy] at name
  rw [TypeDef.kind_extendedBy] at kind
  refine ⟨base, hb, name, ?_⟩
  rw [← fields, TypeDef.fields_extendedBy _ (kind ▸ fielded), name]

end TypeGraph

namespace Output

open TypeScript

variable {g : TypeGraph} {c : Config} {s : Schema}

/-! ## Entries -/

/-- With pairwise distinct names every field keeps its own signature, in the order of the fields. -/
theorem entries_fieldSignatures {t : TypeNode} (nodup : (t.fields.map (·.name)).Nodup) :
    (fieldSignatures t).entries = t.fields.map fun f => (f.name, fieldSignature t f) := by
  apply OrderedMap.entries_ofList
  rw [List.map_map]
  exact nodup

/-- Whether the entry is the one for a field: it may be left out, and what it answers with is
written as the type of the field. -/
structure EntryFor (f : Field) (e : ContractEntry) : Prop where
  name : e.name = f.name
  optional : e.isOptional = true
  answer : ∃ result, resultParameter? e.signature = some result ∧ result.render =
    f.type.wrappedText Names.maybe ("ResolversTypes['" ++ f.type.innermost ++ "']")

theorem entryFor_fieldSignature (t : TypeNode) (f : Field) :
    EntryFor f ⟨f.name, fieldSignature t f, true⟩ where
  name := rfl
  optional := rfl
  answer := by
    refine ⟨_, resultParameter?_fieldSignature t f, ?_⟩
    rw [resultType, (render_wrap _ _ _).1, render_lookup]

/-- The entry for the function that chooses between object types. -/
def chooserEntry (signature : TypeExpr) : ContractEntry := ⟨Names.resolveType, signature, false⟩

/-- The entry for the predicate of an object type. -/
def predicateEntry : ContractEntry := ⟨Names.isTypeOf, isTypeOfSignature, true⟩

/-- Whether the contract is that of the type and lists what belongs to it. -/
structure ContractFor (t : TypeNode) (k : Contract) : Prop where
  typeName : k.typeName = t.name
  kind : k.kind = t.kind
  chooses : k.resolveType.isSome = true ↔ t.kind ∈ [.interface, .union]
  entries : ∃ fields, List.Forall₂ EntryFor t.fields fields ∧
    k.entries = k.resolveType.toList.map chooserEntry ++ fields ++
      if k.hasIsTypeOf then [predicateEntry] else []

theorem forall₂_fieldSignature (t : TypeNode) :
    List.Forall₂ EntryFor t.fields
      (t.fields.map fun f => ⟨f.name, fieldSignature t f, true⟩) := by
  rw [List.forall₂_map_right_iff, List.forall₂_same]
  exact fun f _ => entryFor_fieldSignature t f

/-- What a contract is made with, for each kind of type that has one. -/
theorem parts_of_ofNode? {unions : List UnionVariants} {t : TypeNode} {k : Contract}
    (made : Contract.ofNode? g c unions t = some k) :
    (t.kind = .object ∧ k.resolveType.isSome = false ∧ k.fields = fieldSignatures t) ∨
    (t.kind = .interface ∧ k.resolveType.isSome = true ∧ k.fields = fieldSignatures t) ∨
    (t.kind = .union ∧ k.resolveType.isSome = true ∧ k.fields = ∅) := by
  unfold Contract.ofNode? at made
  cases kind : t.kind with
  | object | interface | union =>
    rw [kind] at made
    obtain rfl := Option.some.inj made
    simp
  | scalar | enum | inputObject =>
    rw [kind] at made
    cases made

/-- What the map of a contract holds, if no two fields of its type have the same name. -/
theorem fields_of_ofNode? {unions : List UnionVariants} {t : TypeNode}
    (nodup : (t.fields.map (·.name)).Nodup) {k : Contract}
    (made : Contract.ofNode? g c unions t = some k) :
    k.fields.entries = t.fields.map fun f => (f.name, fieldSignature t f) := by
  obtain ⟨-, -, fields⟩ | ⟨-, -, fields⟩ | ⟨union, -, fields⟩ := parts_of_ofNode? made
  · rw [fields, entries_fieldSignatures nodup]
  · rw [fields, entries_fieldSignatures nodup]
  · rw [fields, TypeGraph.fields_of_kind_union union]
    rfl

theorem isSome_resolveType_of_ofNode? {unions : List UnionVariants} {t : TypeNode} {k : Contract}
    (made : Contract.ofNode? g c unions t = some k) :
    k.resolveType.isSome = true ↔ t.kind ∈ [.interface, .union] := by
  obtain ⟨kind, chooses, -⟩ | ⟨kind, chooses, -⟩ | ⟨kind, chooses, -⟩ := parts_of_ofNode? made <;>
    simp [kind, chooses]

/-- A contract lists what belongs to its type, if the fields of the type have distinct names. -/
theorem contractFor_of_ofNode? {unions : List UnionVariants} {t : TypeNode}
    (nodup : (t.fields.map (·.name)).Nodup) {k : Contract}
    (made : Contract.ofNode? g c unions t = some k) : ContractFor t k where
  typeName := (of_ofNode? made).1
  kind := (of_ofNode? made).2.1
  chooses := isSome_resolveType_of_ofNode? made
  entries := by
    refine ⟨_, forall₂_fieldSignature t, ?_⟩
    rw [Contract.entries, fields_of_ofNode? nodup made, List.map_map]
    rfl

/-! ## All contracts -/

/-- What contracts there are and what they list. In a schema that is accepted every object,
interface and union has one contract, in type order. It lists the function that chooses a type, if
the type is an interface or a union, then an entry for every field of the type, in the order of the
fields, and then the predicate, if the contract has one. A type without fields has its contract as
well, and the fields of a type of a document are those of its definition, followed by those of its
extensions. -/
theorem contracts_listed (built : s.Built) (valid : s.validate = .ok ()) (c : Config)
    (unions : List UnionVariants) :
    let g := TypeGraph.ofSchema s
    List.Forall₂ ContractFor
      (g.types.values.filter fun t => t.kind ∈ [.object, .interface, .union])
      (Contract.ofGraph g c unions) ∧
    ∀ definitions, Schema.ofDefinitions definitions = .ok s →
      ∀ t ∈ g.types.values, t.kind ∈ [.object, .interface] →
        ∃ base ∈ Sdl.bases definitions, base.name = t.name ∧ t.fields = base.fields ++
          ((Sdl.extensions definitions).filter fun e => e.name = t.name).flatMap (·.fields) := by
  intro g
  refine ⟨forall₂_filter_filterMap (fun _ => ofNode?_isSome_iff) ?_,
    fun definitions described t ht => TypeGraph.fields_of_ofDefinitions described ht⟩
  intro t ht k made
  exact contractFor_of_ofNode? (TypeGraph.nodup_fields built valid ht) made

/-- The fields of an extension behind those of the definition, and an interface without fields. -/
theorem contracts_listed_example :
    let text := "type Query { node: Node! } interface Node extend type Query { all: [Node!] }"
    let node : Field := ⟨"node", .nonNull (.named "Node"), none, []⟩
    let all : Field := ⟨"all", .list (.nonNull (.named "Node")), none, []⟩
    ∃ definitions s base query interface, Sdl.definitions text = .ok definitions ∧
      Schema.ofDefinitions definitions = .ok s ∧ s.validate = .ok () ∧
      base ∈ Sdl.bases definitions ∧ base.name = "Query" ∧ [node, all] = base.fields ++
        ((Sdl.extensions definitions).filter fun e => e.name = "Query").flatMap (·.fields) ∧
      Contract.ofGraph (.ofSchema s) {} [] = [query, interface] ∧
      (∃ fields, List.Forall₂ EntryFor [node, all] fields ∧
        query.entries = fields ++ if query.hasIsTypeOf then [predicateEntry] else []) ∧
      ∃ signature, interface.entries =
        chooserEntry signature :: if interface.hasIsTypeOf then [predicateEntry] else [] := by
  intro text node all
  let definitions : List Sdl.Definition :=
    [.type false ⟨"Query", none, .object [] [node]⟩, .type false ⟨"Node", none, .interface [] []⟩,
      .type true ⟨"Query", none, .object [] [all]⟩]
  have read : Sdl.definitions text = .ok definitions := by decide +kernel
  let s := Schema.ofTypes (Sdl.describedTypes definitions) {}
  have described : Schema.ofDefinitions definitions = .ok s := Schema.ofDefinitions_eq definitions
  obtain ⟨listed, own⟩ := contracts_listed (Schema.Built.of_ofDefinitions described) rfl {} []
  obtain ⟨base, hb, named, fields⟩ := own definitions described
    { origin := .declared ⟨"Query", none, .object [] [node, all]⟩, root := some .query }
    (by decide) (by decide)
  have types : ((TypeGraph.ofSchema s).types.values.filter fun t =>
      t.kind ∈ [.object, .interface, .union]) =
        [{ origin := .declared ⟨"Query", none, .object [] [node, all]⟩, root := some .query },
          { origin := .declared ⟨"Node", none, .interface [] []⟩ }] := by decide
  rw [types] at listed
  obtain ⟨query, _, first, rest, made⟩ := List.forall₂_cons_left_iff.mp listed
  obtain ⟨interface, _, second, last, rfl⟩ := List.forall₂_cons_left_iff.mp rest
  obtain rfl := List.forall₂_nil_left_iff.mp last
  refine ⟨definitions, s, base, query, interface, read, described, rfl, hb, named, fields, made,
    ?_, ?_⟩
  · obtain ⟨fields, each, entries⟩ := first.entries
    have none : query.resolveType = none := by
      simpa using mt first.chooses.mp (by decide)
    rw [none] at entries
    exact ⟨fields, each, entries⟩
  · obtain ⟨fields, each, entries⟩ := second.entries
    obtain rfl := List.forall₂_nil_left_iff.mp each
    obtain ⟨signature, chosen⟩ := Option.isSome_iff_exists.mp (second.chooses.mpr (by decide))
    rw [chosen] at entries
    exact ⟨signature, entries⟩

end Output

end ResolverTypes
