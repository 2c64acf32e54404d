import ResolverTypes.Proofs.Schema.Validation
import ResolverTypes.TypeGraph

/-!
# The nodes of a type graph

The types of a graph are collected in one pass over the definitions, and built-in scalars come in
between. What the pass leaves under a name does not depend on where it came in
(`get?_foldl_addDeclared`): the last definition of the name if there is one, and otherwise the
built-in scalar of the name if the schema leaves the name alone and something refers to it.

For a built schema this is the definition that the name stands for (`Built.get?_typesOf`), so what a
reference leads to in the schema it leads to in the graph (`mem_keys_of_knows`).
-/

namespace ResolverTypes.TypeGraph

/-- The node of a definition. -/
def declaredNode (s : Schema) (d : TypeDef) : TypeNode :=
  { origin := .declared d, root := s.operationOf? d.name }

/-- The node of the built-in scalar of that name, unless the schema takes the name. -/
def builtinNode? (s : Schema) (name : String) : Option TypeNode :=
  if s.contains name then none
  else (BuiltinScalar.ofName? name).map fun scalar => { origin := .builtin scalar }

variable {s : Schema}

theorem name_of_builtinNode? {name : String} {t : TypeNode}
    (h : builtinNode? s name = some t) : t.name = name := by
  unfold builtinNode? at h
  split at h
  · cases h
  · obtain ⟨scalar, found, rfl⟩ := Option.map_eq_some_iff.mp h
    exact BuiltinScalar.ofName?_eq_some_iff.mp found

theorem builtinNode?_eq_none_of_contains {name : String} (h : s.contains name = true) :
    builtinNode? s name = none := if_pos h

/-! ## What one step does -/

theorem get?_addBuiltin (m : OrderedMap TypeNode) (name k : String) :
    (addBuiltin s m name).get? k =
      (m.get? k).or (if k = name then builtinNode? s k else none) := by
  unfold addBuiltin
  by_cases hk : k = name
  · subst hk
    rw [if_pos rfl]
    by_cases taken : s.contains k = true
    · rw [builtinNode?_eq_none_of_contains taken]
      simp [taken]
    · cases there : m.get? k with
      | some t => simp [OrderedMap.contains, there]
      | none =>
        simp only [OrderedMap.contains, there, taken, Option.isSome_none, Bool.or_self,
          Bool.false_eq_true, if_false, Option.none_or]
        unfold builtinNode?
        rw [if_neg taken]
        cases BuiltinScalar.ofName? k <;> simp [there]
  · rw [if_neg hk, Option.or_none]
    split
    · rfl
    · split
      · rw [OrderedMap.get?_insert, if_neg hk]
      · rfl

theorem get?_foldl_addBuiltin (names : List String) (m : OrderedMap TypeNode) (k : String) :
    (names.foldl (addBuiltin s) m).get? k =
      (m.get? k).or (if k ∈ names then builtinNode? s k else none) := by
  induction names generalizing m with
  | nil => simp
  | cons name rest ih =>
    rw [List.foldl_cons, ih, get?_addBuiltin, Option.or_assoc]
    by_cases hk : k = name
    · subst hk
      rw [if_pos rfl, if_pos List.mem_cons_self]
      split <;> simp
    · simp [hk]

theorem get?_addDeclared (m : OrderedMap TypeNode) (d : TypeDef) (k : String) :
    (addDeclared s m d).get? k =
      if k = d.name then some (declaredNode s d)
      else (m.get? k).or (if k ∈ d.references then builtinNode? s k else none) := by
  unfold addDeclared
  rw [get?_foldl_addBuiltin, OrderedMap.get?_insert]
  split <;> rfl

/-! ## What the pass does -/

/-- The pass leaves the last definition of a name, else what was there, else the built-in scalar of
the name if some definition refers to it. -/
theorem get?_foldl_addDeclared (types : List TypeDef) (m : OrderedMap TypeNode) (k : String) :
    (types.foldl (addDeclared s) m).get? k =
      (((types.findRev? fun d => d.name = k).map (declaredNode s)).or (m.get? k)).or
        (if k ∈ types.flatMap (·.references) then builtinNode? s k else none) := by
  -- on the definitions left, whatever the map holds: later definitions win, built-ins never do
  induction types generalizing m with
  | nil => simp [List.findRev?]
  | cons d rest ih =>
    rw [List.foldl_cons, ih, get?_addDeclared, List.findRev?, List.flatMap_cons]
    cases rest.findRev? fun d => d.name = k with
    | some e => rfl
    | none =>
      by_cases hk : k = d.name
      · simp [hk]
      · have other : ¬d.name = k := fun h => hk h.symm
        simp only [if_neg hk, other, decide_false, Option.map_none, Option.none_or,
          List.mem_append, Option.or_assoc, Bool.false_eq_true, if_false]
        congr 1
        by_cases here : k ∈ d.references
        · simp only [here, if_true, true_or]
          split <;> simp
        · simp [here]

theorem get?_typesOf (s : Schema) (k : String) :
    (typesOf s).get? k =
      ((s.types.findRev? fun d => d.name = k).map (declaredNode s)).or
        (if k ∈ s.types.flatMap (·.references) ∨ k ∈ alwaysPresent then builtinNode? s k
          else none) := by
  unfold typesOf
  rw [get?_foldl_addBuiltin, get?_foldl_addDeclared, OrderedMap.get?_empty, Option.or_none,
    Option.or_assoc]
  congr 1
  by_cases referred : k ∈ s.types.flatMap (·.references)
  · simp only [referred, if_true, true_or]
    split <;> simp
  · simp [referred]

/-! ## What stands under a name -/

/-- Every node stands under its own name. -/
theorem name_of_get?_typesOf {k : String} {t : TypeNode} (h : (typesOf s).get? k = some t) :
    t.name = k := by
  rw [get?_typesOf, Option.or_eq_some_iff] at h
  rcases h with declared | ⟨-, builtin⟩
  · obtain ⟨d, found, rfl⟩ := Option.map_eq_some_iff.mp declared
    exact of_decide_eq_true (Schema.mem_of_findRev? found).2
  · split at builtin
    · exact name_of_builtinNode? builtin
    · cases builtin

theorem name_values_typesOf (s : Schema) :
    (typesOf s).values.map (·.name) = (typesOf s).keys :=
  OrderedMap.map_values_eq_keys fun _ _ => name_of_get?_typesOf

/-- The definition of a node is one of the schema. -/
theorem mem_types_of_definition? {t : TypeNode} {d : TypeDef} (member : t ∈ (typesOf s).values)
    (definition : t.definition? = some d) : d ∈ s.types ∧ t = declaredNode s d := by
  obtain ⟨k, h⟩ := OrderedMap.mem_values_iff.mp member
  rw [get?_typesOf, Option.or_eq_some_iff] at h
  rcases h with declared | ⟨-, builtin⟩
  · obtain ⟨e, found, rfl⟩ := Option.map_eq_some_iff.mp declared
    obtain rfl : e = d := Option.some.inj definition
    exact ⟨(Schema.mem_of_findRev? found).1, rfl⟩
  · split at builtin
    · unfold builtinNode? at builtin
      split at builtin
      · cases builtin
      · obtain ⟨scalar, -, rfl⟩ := Option.map_eq_some_iff.mp builtin
        cases definition
    · cases builtin

/-- Under a name that the schema declares stands the definition that the name stands for. -/
theorem get?_typesOf_of_find? (built : s.Built) {k : String} {d : TypeDef}
    (found : s.find? k = some d) : (typesOf s).get? k = some (declaredNode s d) := by
  rw [built.find?_eq] at found
  rw [get?_typesOf, found]
  rfl

theorem find?_isSome_iff (built : s.Built) {k : String} :
    (s.find? k).isSome = true ↔ s.contains k = true := by
  rw [built.find?_eq, built.contains_iff, List.findRev?_eq_findRev?TR, List.findRev?TR]
  simp

/-- Whatever a definition refers to has a node, if the schema knows it. -/
theorem mem_keys_of_knows (built : s.Built) {d : TypeDef} (member : d ∈ s.types) {name : String}
    (referred : name ∈ d.references) (known : s.Knows name) : name ∈ (typesOf s).keys := by
  by_cases declared : s.contains name = true
  · obtain ⟨e, found⟩ := Option.isSome_iff_exists.mp ((find?_isSome_iff built).mpr declared)
    exact OrderedMap.mem_keys_of_get? (get?_typesOf_of_find? built found)
  · have mentioned : name ∈ s.types.flatMap (·.references) :=
      List.mem_flatMap.mpr ⟨d, member, referred⟩
    obtain ⟨scalar, builtin⟩ := Option.isSome_iff_exists.mp (known.resolve_left declared)
    have node : builtinNode? s name = some { origin := .builtin scalar } := by
      rw [builtinNode?, if_neg declared, builtin]
      rfl
    rw [OrderedMap.mem_keys_iff]
    cases h : (s.types.findRev? fun d => d.name = name).map (declaredNode s) with
    | some t => exact ⟨t, by rw [get?_typesOf, h]; rfl⟩
    | none => exact ⟨_, by rw [get?_typesOf, h, if_pos (.inl mentioned), node]; rfl⟩

end ResolverTypes.TypeGraph
