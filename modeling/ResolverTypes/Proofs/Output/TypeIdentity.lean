import ResolverTypes.Proofs.Output.Lookup
import ResolverTypes.Proofs.Output.ResolverReferences
import ResolverTypes.Proofs.Sdl.Assembly
import ResolverTypes.Proofs.TypeGraph.Order

/-!
# Who gets a type-identity predicate

The policy asks for the members of unions as the graph collects them, while the variants of unions
are derived from the graph again. Both agree on who belongs to a union (`isVariant_iff`), so a
restricted policy leaves the predicate out for exactly those objects that are a variant of nothing.

Nothing else in a document depends on the policy (`document_eq_append`), and the contracts of two
runs differ place by place as `Restricted` says.
-/

namespace ResolverTypes

namespace TypeScript

/-- Whether `e` is the object type `d` without its last property. -/
def Declaration.DropsLast (last : Property TypeExpr) (d e : Declaration) : Prop :=
  ∃ name params properties,
    d = { e with form := .typeAlias name params (.object (properties ++ [last])) } ∧
    e.form = .typeAlias name params (.object properties)

end TypeScript

namespace Output

open TypeScript

variable {g : TypeGraph} {c : Config} {s : Schema}

/-- Whether the name is a variant of some union. -/
def IsVariant (unions : List UnionVariants) (name : String) : Prop :=
  ∃ u ∈ unions, name ∈ u.members

/-- The property for the predicate. -/
def isTypeOfProperty : Property TypeExpr :=
  { key := Names.isTypeOf, value := isTypeOfSignature, isOptional := true }

/-! ## Members and variants -/

theorem isVariant_map_variantsOf {name : String} :
    IsVariant ((g.ofKind .union).map variantsOf) name ↔
      ∃ t ∈ g.types.values, ∃ d, t.definition? = some d ∧ name ∈ d.members := by
  constructor
  · rintro ⟨u, hu, member⟩
    obtain ⟨t, ht, rfl⟩ := List.mem_map.mp hu
    obtain ⟨ht, union⟩ := List.mem_filter.mp ht
    have union : t.kind = .union := of_decide_eq_true union
    obtain ⟨d, definition⟩ := TypeGraph.exists_definition (t := t) (by rw [union]; nofun)
    obtain ⟨-, -, -, members⟩ := TypeGraph.of_definition? definition
    exact ⟨t, ht, d, definition, members ▸ List.mem_eraseDups.mp member⟩
  · rintro ⟨t, ht, d, definition, member⟩
    obtain ⟨kind, -, -, members⟩ := TypeGraph.of_definition? definition
    have union := kind.symm.trans (TypeDef.kind_of_mem_members member)
    refine ⟨variantsOf t, List.mem_map_of_mem (List.mem_filter.mpr ⟨ht, decide_eq_true union⟩), ?_⟩
    exact List.mem_eraseDups.mpr (members ▸ member)

/-- Who is a variant is who is listed in some definition. -/
theorem isVariant_iff (built : s.Built) (nodup : (s.types.map (·.name)).Nodup) {name : String} :
    IsVariant (((TypeGraph.ofSchema s).ofKind .union).map variantsOf) name ↔
      ∃ d ∈ s.types, name ∈ d.members := by
  rw [isVariant_map_variantsOf, ← TypeGraph.definitions_typesOf built nodup]
  constructor
  · rintro ⟨t, ht, d, definition, member⟩
    exact ⟨d, List.mem_filterMap.mpr ⟨t, ht, definition⟩, member⟩
  · rintro ⟨d, hd, member⟩
    obtain ⟨t, ht, definition⟩ := List.mem_filterMap.mp hd
    exact ⟨t, ht, d, definition, member⟩

/-! ## The contract of a type -/

theorem requiresIsTypeOf_iff {unionMembers : List String} {t : TypeNode} :
    requiresIsTypeOf c unionMembers t = true ↔
      t.kind = .object ∧ (c.isTypeOfOnlyIfNeeded = false ∨ t.name ∈ unionMembers) := by
  simp [requiresIsTypeOf]

/-- Under a name that stands for an object there is the contract of the object. -/
theorem exists_contract_of_find? (built : s.Built) (unions : List UnionVariants) {name : String}
    {d : TypeDef} (found : s.find? name = some d) (object : d.kind = .object) :
    ∃ k, (Contract.ofGraph (.ofSchema s) c unions).find? (fun k => k.typeName = name) = some k ∧
      k.kind = .object ∧
      (k.hasIsTypeOf = true ↔
        c.isTypeOfOnlyIfNeeded = false ∨ name ∈ (TypeGraph.ofSchema s).unionMembers) := by
  have node : (TypeGraph.ofSchema s).types.get? name = some (TypeGraph.declaredNode s d) :=
    TypeGraph.get?_typesOf_of_find? built found
  have named : (TypeGraph.declaredNode s d).name = name := TypeGraph.name_of_get?_typesOf node
  have kind : (TypeGraph.declaredNode s d).kind = .object := object
  have contracted : (Contract.ofNode? (.ofSchema s) c unions (TypeGraph.declaredNode s d)).isSome =
      true := ofNode?_isSome_iff.mpr (by rw [kind]; decide)
  obtain ⟨k, made⟩ := Option.isSome_iff_exists.mp contracted
  obtain ⟨-, sameKind, predicate⟩ := of_ofNode? made
  refine ⟨k, ?_, sameKind.trans kind, ?_⟩
  · rw [find?_contracts (fun _ _ => TypeGraph.name_of_get?_typesOf), node]
    exact made
  · rw [predicate, requiresIsTypeOf_iff, kind, named]
    exact and_iff_right rfl

/-- Under the name of an object definition there is its contract. -/
theorem exists_contract (built : s.Built) (nodup : (s.types.map (·.name)).Nodup)
    (unions : List UnionVariants) {d : TypeDef} (hd : d ∈ s.types) (object : d.kind = .object) :
    ∃ k, (Contract.ofGraph (.ofSchema s) c unions).find? (fun k => k.typeName = d.name) = some k ∧
      k.kind = .object ∧
      (k.hasIsTypeOf = true ↔
        c.isTypeOfOnlyIfNeeded = false ∨ d.name ∈ (TypeGraph.ofSchema s).unionMembers) :=
  exists_contract_of_find? built unions ((built.find?_eq_some_iff nodup).mpr ⟨hd, rfl⟩) object

/-! ## Two runs -/

/-- What becomes of the contract `k` if only variants get the predicate: that of an object which is
no variant loses it, and any other contract stays as it is. -/
def Restricted (c : Config) (unions : List UnionVariants) (k k' : Contract) : Prop :=
  k'.typeName = k.typeName ∧
    (k.kind = .object ∧ ¬IsVariant unions k.typeName →
      (k.declaration c).DropsLast isTypeOfProperty (k'.declaration c)) ∧
    (¬(k.kind = .object ∧ ¬IsVariant unions k.typeName) → k' = k)

/-- The contract without its predicate. -/
theorem dropsLast_declaration (k : Contract) (has : k.hasIsTypeOf = true) :
    (k.declaration c).DropsLast isTypeOfProperty
      ({ k with hasIsTypeOf := false }.declaration c) := by
  refine ⟨k.name, _, _, ?_, rfl⟩
  unfold Contract.declaration Contract.entries
  simp only [has, if_true, List.map_append, Bool.false_eq_true, if_false, List.append_nil]
  rfl

/-- The sections of a document in front of its contracts. -/
def frontSections (g : TypeGraph) (c : Config) (b : Blueprint) : List Section :=
  [{ declarations := [Preamble.imports !b.scalars.isEmpty] }, Preamble.typeHelpers c,
    { declarations := scalarsDeclaration g c :: enumDeclarations g ++ shapeDeclarations g },
    Preamble.resolverHelpers c,
    { declarations :=
        (UnionVariants.declaration? b.unions).toList ++
          [b.table.resolversTypes, b.table.resolversParentTypes] }]

theorem document_eq_append (b : Blueprint) :
    b.document g c =
      ⟨(frontSections g c b).filter (fun s => !s.declarations.isEmpty) ++
        [{ declarations := b.contracts.map (Contract.declaration c) ++
            (b.scalars.map scalarConfigDeclaration ++ [resolversDeclaration g c]) }]⟩ := by
  show Document.ofSections (frontSections g c b ++ [{ declarations := _ }]) = _
  rw [Document.ofSections, List.filter_append]
  simp

/-- The configuration with the choice who gets a predicate. -/
def withPolicy (c : Config) (onlyIfNeeded : Bool) : Config :=
  { c with isTypeOfOnlyIfNeeded := onlyIfNeeded }

/-- The contracts of a type in two runs. -/
theorem restricted_ofNode? {unions : List UnionVariants}
    (agree : ∀ name, name ∈ g.unionMembers ↔ IsVariant unions name) (t : TypeNode) :
    Option.Rel (Restricted c unions) (Contract.ofNode? g (withPolicy c false) unions t)
      (Contract.ofNode? g (withPolicy c true) unions t) := by
  unfold Contract.ofNode?
  cases kind : t.kind with
  | object =>
    have full : requiresIsTypeOf (withPolicy c false) g.unionMembers t = true :=
      requiresIsTypeOf_iff.mpr ⟨kind, .inl rfl⟩
    have restricted : requiresIsTypeOf (withPolicy c true) g.unionMembers t = true ↔
        IsVariant unions t.name := by
      rw [requiresIsTypeOf_iff, ← agree]
      simp [kind, withPolicy]
    refine .some ⟨rfl, ?_, ?_⟩
    · rintro ⟨-, apart⟩
      rw [← restricted, Bool.not_eq_true] at apart
      rw [full, apart]
      exact dropsLast_declaration _ rfl
    · intro belongs
      have member : IsVariant unions t.name := by
        by_contra apart
        exact belongs ⟨rfl, apart⟩
      rw [full, restricted.mpr member]
  | interface | union =>
    refine .some ⟨rfl, ?_, fun _ => rfl⟩
    rintro ⟨object, -⟩
    cases object
  | scalar | enum | inputObject => exact .none

theorem restricted_contracts {unions : List UnionVariants}
    (agree : ∀ name, name ∈ g.unionMembers ↔ IsVariant unions name) :
    List.Forall₂ (Restricted c unions) (Contract.ofGraph g (withPolicy c false) unions)
      (Contract.ofGraph g (withPolicy c true) unions) :=
  forall₂_filterMap (restricted_ofNode? agree) _

/-- Who gets a predicate. With pairwise distinct type names, the contract of an object has one
unless the configuration restricts predicates and the object is a variant of no union, and no other
contract ever has one; in a document a variant is what some union or extension of one lists. The
documents of two runs that differ in the restriction only are the same, section by section and
declaration by declaration, but for the contracts of objects that are variants of nothing: those end
with the predicate in one run and lack it in the other. -/
theorem isTypeOf_policy (built : s.Built) (nodup : (s.types.map (·.name)).Nodup)
    (valid : s.validate = .ok ()) (usable : c.validate = .ok ()) :
    let g := TypeGraph.ofSchema s
    (∃ b, Blueprint.ofGraph g c = .ok b ∧
      (∀ d ∈ s.types, d.kind = .object → ∃ k, b.contract? d.name = some k ∧ k.kind = .object ∧
        (k.hasIsTypeOf = true ↔
          c.isTypeOfOnlyIfNeeded = false ∨ IsVariant b.unions d.name)) ∧
      (∀ k ∈ b.contracts, k.kind ≠ .object → k.hasIsTypeOf = false) ∧
      ∀ definitions, Schema.ofDefinitions definitions = .ok s → ∀ name,
        IsVariant b.unions name ↔
          ∃ isExtension d, Sdl.Definition.type isExtension d ∈ definitions ∧ name ∈ d.members) ∧
    ∃ b b' front back,
      Blueprint.ofGraph g (withPolicy c false) = .ok b ∧
      Blueprint.ofGraph g (withPolicy c true) = .ok b' ∧
      generateDocument s (withPolicy c false) =
        .ok ⟨front ++ [{ declarations := b.contracts.map (Contract.declaration c) ++ back }]⟩ ∧
      generateDocument s (withPolicy c true) =
        .ok ⟨front ++ [{ declarations := b'.contracts.map (Contract.declaration c) ++ back }]⟩ ∧
      List.Forall₂ (Restricted c b.unions) b.contracts b'.contracts := by
  intro g
  have sound : g.Sound := TypeGraph.sound_ofSchema built valid
  have policies (onlyIfNeeded : Bool) : (withPolicy c onlyIfNeeded).validate = .ok () := usable
  have agree (name : String) :
      name ∈ g.unionMembers ↔ IsVariant ((g.ofKind .union).map variantsOf) name := by
    rw [TypeGraph.mem_unionMembers, isVariant_iff built nodup]
  constructor
  · refine ⟨_, Blueprint.ofGraph_eq_ok sound usable, ?_, ?_, ?_⟩
    · intro d hd object
      obtain ⟨k, found, kind, predicate⟩ := exists_contract (c := c) built nodup
        ((g.ofKind .union).map variantsOf) hd object
      exact ⟨k, found, kind, by rw [predicate, agree]; rfl⟩
    · intro k hk other
      obtain ⟨t, -, made⟩ := List.mem_filterMap.mp hk
      obtain ⟨-, kind, predicate⟩ := of_ofNode? made
      rw [← Bool.not_eq_true, predicate, requiresIsTypeOf_iff, ← kind]
      exact fun object => other object.1
    · intro definitions described name
      rw [← Schema.exists_member_iff described, ← isVariant_iff built nodup]
      rfl
  · let b := blueprintOf g c
    refine ⟨_, _, (frontSections g c b).filter fun s => !s.declarations.isEmpty,
      b.scalars.map scalarConfigDeclaration ++ [resolversDeclaration g c],
      Blueprint.ofGraph_eq_ok sound (policies false),
      Blueprint.ofGraph_eq_ok sound (policies true), ?_, ?_, restricted_contracts agree⟩
    · rw [generateDocument_eq_ok built valid (policies false), document_eq_append]
      rfl
    · rw [generateDocument_eq_ok built valid (policies true), document_eq_append]
      rfl

/-- Predicates for variants only, where one object is a variant through an extension and another is
none. -/
theorem isTypeOf_policy_example :
    let object (name : String) : TypeDef := ⟨name, none, .object [] []⟩
    let definitions : List Sdl.Definition :=
      [.type false (object "Query"), .type true ⟨"U", none, .union ["B"]⟩,
        .type false ⟨"U", none, .union ["A"]⟩, .type false (object "A"), .type false (object "B")]
    let c : Config := { isTypeOfOnlyIfNeeded := true }
    ∃ s b variant other, Schema.ofDefinitions definitions = .ok s ∧
      Blueprint.ofGraph (.ofSchema s) c = .ok b ∧
      b.contract? "B" = some variant ∧ variant.hasIsTypeOf = true ∧
      b.contract? "Query" = some other ∧ other.hasIsTypeOf = false := by
  intro object definitions c
  let s := Schema.ofTypes (Sdl.describedTypes definitions) {}
  have described : Schema.ofDefinitions definitions = .ok s := Schema.ofDefinitions_eq definitions
  have usable : c.validate = .ok () := by decide
  obtain ⟨⟨b, made, objects, -, listed⟩, -⟩ := isTypeOf_policy
    (Schema.Built.of_ofDefinitions described) (Schema.nodup_of_ofDefinitions described) rfl usable
  have there : ∀ d ∈ [object "B", object "Query"], d ∈ s.types := by decide
  obtain ⟨variant, foundB, -, hasB⟩ := objects (object "B") (there _ (by simp)) rfl
  obtain ⟨other, foundQ, -, hasQ⟩ := objects (object "Query") (there _ (by simp)) rfl
  refine ⟨s, b, variant, other, described, made, foundB, hasB.mpr (.inr ?_), foundQ, ?_⟩
  · exact (listed definitions described "B").mpr
      ⟨true, ⟨"U", none, .union ["B"]⟩, by simp [definitions], List.mem_singleton_self _⟩
  · rw [← Bool.not_eq_true, hasQ]
    rintro (unrestricted | isVariant)
    · cases unrestricted
    · obtain ⟨isExtension, d, hd, member⟩ := (listed definitions described _).mp isVariant
      have apart : ∀ d ∈ definitions, ∀ isExtension e, d = .type isExtension e →
          "Query" ∉ e.members := by
        simp [definitions, object, TypeDef.members, TypeBody.members]
      exact apart _ hd _ _ rfl member

end Output

end ResolverTypes
