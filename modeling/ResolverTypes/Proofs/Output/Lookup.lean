import Mathlib.Data.List.Forall2
import ResolverTypes.Proofs.Output.Blueprint

/-!
# What a blueprint has under a name

A blueprint is made type by type, so what it has under a name is made from the type of that name:
one entry of the tables, the variants if the type is a union, and a contract if it is an object, an
interface or a union. There is never a second one.
-/

namespace ResolverTypes.Output

variable {g : TypeGraph} {c : Config}

/-- A contract is that of the type it is made from. -/
theorem of_ofNode? {unions : List UnionVariants} {t : TypeNode} {k : Contract}
    (made : Contract.ofNode? g c unions t = some k) :
    k.typeName = t.name ∧ k.kind = t.kind ∧
      (k.hasIsTypeOf = true ↔ requiresIsTypeOf c g.unionMembers t = true) := by
  unfold Contract.ofNode? at made
  cases kind : t.kind with
  | object | interface | union =>
    rw [kind] at made
    obtain rfl := Option.some.inj made
    simp [requiresIsTypeOf, kind]
  | scalar | enum | inputObject =>
    rw [kind] at made
    cases made

/-- What two runs make of the same types is related place by place if it is type by type. -/
theorem forall₂_filterMap {α β : Type} {R : β → β → Prop} {f f' : α → Option β}
    (each : ∀ a, Option.Rel R (f a) (f' a)) (l : List α) :
    List.Forall₂ R (l.filterMap f) (l.filterMap f') := by
  have same : List.Forall₂ Eq l l := List.forall₂_refl _
  refine List.rel_filterMap ?_ same
  rintro a _ rfl
  exact each a

/-- What is made of the elements of a list stands in the order of those that it is made of. -/
theorem forall₂_filter_filterMap {α β : Type} {p : α → Prop} [DecidablePred p] {R : α → β → Prop}
    {f : α → Option β} (made : ∀ a, (f a).isSome = true ↔ p a) {l : List α}
    (each : ∀ a ∈ l, ∀ b, f a = some b → R a b) :
    List.Forall₂ R (l.filter fun a => p a) (l.filterMap f) := by
  induction l with
  | nil => exact .nil
  | cons a rest ih =>
    have later := ih fun b hb => each b (List.mem_cons_of_mem _ hb)
    cases here : f a with
    | none =>
      have skipped : ¬p a := by simp [← made a, here]
      simpa [here, skipped] using later
    | some b =>
      have taken : p a := by simp [← made a, here]
      simpa [here, taken] using ⟨each a List.mem_cons_self b here, later⟩

/-- Every object, interface and union has a contract. -/
theorem ofNode?_isSome_iff {unions : List UnionVariants} {t : TypeNode} :
    (Contract.ofNode? g c unions t).isSome = true ↔ t.kind ∈ [.object, .interface, .union] := by
  unfold Contract.ofNode?
  cases t.kind <;> simp

/-- Under a name there is the contract of the type of that name and no other. -/
theorem filter_contracts (named : ∀ k t, g.types.get? k = some t → t.name = k)
    (unions : List UnionVariants) (name : String) :
    ((Contract.ofGraph g c unions).filter fun k => k.typeName = name) =
      ((g.types.get? name).bind (Contract.ofNode? g c unions)).toList :=
  OrderedMap.filter_filterMap_values named (fun _ _ made => (of_ofNode? made).1) name

theorem find?_contracts (named : ∀ k t, g.types.get? k = some t → t.name = k)
    (unions : List UnionVariants) (name : String) :
    ((Contract.ofGraph g c unions).find? fun k => k.typeName = name) =
      (g.types.get? name).bind (Contract.ofNode? g c unions) :=
  OrderedMap.find?_filterMap_values named (fun _ _ made => (of_ofNode? made).1) name

/-- The variants of the type, if it is a union. -/
def variantsOf? (t : TypeNode) : Option UnionVariants :=
  if t.kind = .union then some (variantsOf t) else none

theorem name_of_variantsOf? {t : TypeNode} {u : UnionVariants} (made : variantsOf? t = some u) :
    u.name = t.name := by
  unfold variantsOf? at made
  split at made
  · rw [← Option.some.inj made]
    rfl
  · cases made

theorem map_variantsOf (g : TypeGraph) :
    (g.ofKind .union).map variantsOf = g.types.values.filterMap variantsOf? := by
  unfold TypeGraph.ofKind variantsOf?
  rw [← List.filterMap_eq_filter, List.map_filterMap]
  apply List.filterMap_congr
  intro t _
  by_cases union : t.kind = .union <;> simp [union]

/-- Under the name of a union there are its variants and no others. -/
theorem filter_variants (named : ∀ k t, g.types.get? k = some t → t.name = k) (name : String) :
    (((g.ofKind .union).map variantsOf).filter fun u => u.name = name) =
      ((g.types.get? name).bind variantsOf?).toList := by
  rw [map_variantsOf]
  exact OrderedMap.filter_filterMap_values named (fun _ _ => name_of_variantsOf?) name

theorem find?_variants (named : ∀ k t, g.types.get? k = some t → t.name = k) (name : String) :
    UnionVariants.find? ((g.ofKind .union).map variantsOf) name =
      (g.types.get? name).bind variantsOf? := by
  rw [map_variantsOf]
  exact OrderedMap.find?_filterMap_values named (fun _ _ => name_of_variantsOf?) name

/-- Under a name there is the entry of the type of that name. -/
theorem find?_table (named : ∀ k t, g.types.get? k = some t → t.name = k) (name : String) :
    (TypeTable.ofGraph g c).find? name = (g.types.get? name).map (TableEntry.ofNode c) := by
  unfold TypeTable.find? TypeTable.ofGraph
  rw [← List.filterMap_eq_map, Option.map_eq_bind]
  refine OrderedMap.find?_filterMap_values named ?_ name
  intro t e made
  rw [← Option.some.inj made]
  rfl

end ResolverTypes.Output
