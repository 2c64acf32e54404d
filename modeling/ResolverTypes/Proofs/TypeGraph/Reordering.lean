import Mathlib.Data.List.Perm.Basic
import ResolverTypes.Proofs.TypeGraph.Sound

/-!
# Definitions in another order

Definitions with pairwise distinct names can be put in any order. Their positions differ then, and
so do the index, the first violation that is reported and the places at which built-in scalars come
into the graph. What is looked up under a name does not (`Reordered.find?_eq`), and all the rest is
made from look-ups: the violations are the same ones (`Reordered.violations_perm`), and the graphs
have the same types under the same names (`TypeGraph.alike_of_reordered`).
-/

namespace ResolverTypes

namespace Schema

/-- The same explicit roots and the same definitions, with pairwise distinct names and maybe in
another order. -/
structure Reordered (s s' : Schema) : Prop where
  built : s.Built
  built' : s'.Built
  nodup : (s.types.map (·.name)).Nodup
  types : s.types.Perm s'.types
  roots : s.roots = s'.roots

namespace Reordered

variable {s s' : Schema} (same : s.Reordered s')

include same

/-! ## Look-ups -/

theorem nodup' : (s'.types.map (·.name)).Nodup := (same.types.map _).nodup_iff.mp same.nodup

theorem find?_eq (name : String) : s.find? name = s'.find? name := by
  apply Option.ext
  intro d
  rw [same.built.find?_eq_some_iff same.nodup, same.built'.find?_eq_some_iff same.nodup',
    same.types.mem_iff]

theorem contains_eq (name : String) : s.contains name = s'.contains name := by
  rw [Bool.eq_iff_iff, same.built.contains_iff, same.built'.contains_iff]
  simp only [same.types.mem_iff]

theorem isObject_eq (name : String) : s.isObject name = s'.isObject name := by
  rw [isObject, same.find?_eq, ← isObject]

theorem rootName?_eq (op : Operation) : s.rootName? op = s'.rootName? op := by
  rw [rootName?, same.roots, same.isObject_eq, ← rootName?]

theorem operationOf?_eq (name : String) : s.operationOf? name = s'.operationOf? name := by
  simp only [operationOf?, same.rootName?_eq]

/-! ## Violations -/

theorem referenceViolations_eq (name referencedBy : String) :
    s.referenceViolations name referencedBy = s'.referenceViolations name referencedBy := by
  rw [referenceViolations, same.contains_eq, ← referenceViolations]

theorem inputViolations_eq (owner kind : String) (taken : List String) (values : List InputValue) :
    s.inputViolations owner kind taken values = s'.inputViolations owner kind taken values := by
  induction values generalizing taken with
  | nil => rfl
  | cons v rest ih => rw [inputViolations, inputViolations, same.referenceViolations_eq, ih]

theorem fieldViolations_eq (owner : String) (taken : List String) (fields : List Field) :
    s.fieldViolations owner taken fields = s'.fieldViolations owner taken fields := by
  induction fields generalizing taken with
  | nil => rfl
  | cons f rest ih =>
    rw [fieldViolations, fieldViolations, same.referenceViolations_eq, same.inputViolations_eq, ih]

theorem interfaceViolations_eq (owner interface : String) :
    s.interfaceViolations owner interface = s'.interfaceViolations owner interface := by
  rw [interfaceViolations, same.find?_eq, ← interfaceViolations]

theorem memberViolations_eq (union member : String) :
    s.memberViolations union member = s'.memberViolations union member := by
  rw [memberViolations, same.find?_eq, ← memberViolations]

theorem definitionViolations_eq (d : TypeDef) :
    s.definitionViolations d = s'.definitionViolations d := by
  unfold definitionViolations
  cases d.body with
  | object interfaces fields | interface interfaces fields =>
    simp only [same.fieldViolations_eq, funext (same.interfaceViolations_eq d.name)]
  | union members => simp only [funext (same.memberViolations_eq d.name)]
  | scalar | enum values => rfl
  | inputObject fields => exact same.inputViolations_eq _ _ _ _

theorem rootViolations_eq (op : Operation) : s.rootViolations op = s'.rootViolations op := by
  simp only [rootViolations, same.roots, same.isObject_eq]

/-- The same is wrong with both, though what is reported first may differ. -/
theorem violations_perm : s.violations.Perm s'.violations := by
  rw [violations, violations, funext same.rootViolations_eq, funext same.definitionViolations_eq]
  exact (same.types.flatMap_right _).append_left _

theorem validate_eq_ok_iff : s.validate = .ok () ↔ s'.validate = .ok () := by
  rw [Schema.validate_eq_ok_iff, Schema.validate_eq_ok_iff]
  constructor
  · intro none
    exact (none ▸ same.violations_perm).nil_eq.symm
  · intro none
    exact (none ▸ same.violations_perm).eq_nil

end Reordered

end Schema

namespace TypeGraph

/-- The same types under the same names, the same union members and the same implementations, all
maybe in another order. -/
structure Alike (g g' : TypeGraph) : Prop where
  types : ∀ k, g.types.get? k = g'.types.get? k
  unionMembers : ∀ name, name ∈ g.unionMembers ↔ name ∈ g'.unionMembers
  implementing : ∀ interface,
    (g.objectsImplementing interface).Perm (g'.objectsImplementing interface)

variable {s s' : Schema}

theorem get?_typesOf_eq (same : s.Reordered s') (k : String) :
    (typesOf s).get? k = (typesOf s').get? k := by
  have declared (d : TypeDef) : declaredNode s d = declaredNode s' d := by
    rw [declaredNode, same.operationOf?_eq, ← declaredNode]
  have builtin : builtinNode? s k = builtinNode? s' k := by
    rw [builtinNode?, same.contains_eq, ← builtinNode?]
  have referred : k ∈ s.types.flatMap (·.references) ↔ k ∈ s'.types.flatMap (·.references) :=
    (same.types.flatMap_right _).mem_iff
  rw [get?_typesOf, get?_typesOf, ← same.built.find?_eq, ← same.built'.find?_eq, same.find?_eq,
    funext declared, builtin]
  simp only [referred]

/-- The graphs of a schema and of a reordering of it. -/
theorem alike_of_reordered (same : s.Reordered s') :
    (ofSchema s).Alike (ofSchema s') where
  types := get?_typesOf_eq same
  unionMembers name := by
    rw [mem_unionMembers, mem_unionMembers]
    simp only [same.types.mem_iff]
  implementing interface := by
    rw [objectsImplementing_ofSchema, objectsImplementing_ofSchema]
    exact (same.types.filter _).flatMap_right _

end TypeGraph

end ResolverTypes
