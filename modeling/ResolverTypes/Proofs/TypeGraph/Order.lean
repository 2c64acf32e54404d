import Mathlib.Data.List.Nodup
import ResolverTypes.Proofs.TypeGraph.Nodes

/-!
# Table order

The order of the types of a graph, read off the definitions alone. Every definition is followed by
the built-in scalars that it is the first to mention (`tableOrderFrom`), and those that every schema
carries come last (`tableOrder`). With pairwise distinct names this is the order of the keys of the
graph (`keys_typesOf`).

The pass over the definitions carries this invariant: the keys so far are the names of the
definitions passed and the built-in scalars that they mention (`mem_keys_pass`).
-/

namespace ResolverTypes.TypeGraph

/-! ## The order of the definitions -/

/-- The built-in scalars that the definition mentions and neither a definition declares nor an
earlier one mentions, in the order of their first mention. -/
def newBuiltins (types earlier : List TypeDef) (d : TypeDef) : List String :=
  (d.mentions.filter fun name =>
    (BuiltinScalar.ofName? name).isSome ∧ name ∉ types.map (·.name) ∧
      name ∉ earlier.flatMap (·.mentions)).eraseDups

/-- The names of definitions behind `earlier` ones, each followed by its new built-in scalars. -/
def tableOrderFrom (types earlier : List TypeDef) : List TypeDef → List String
  | [] => []
  | d :: rest =>
    d.name :: newBuiltins types earlier d ++ tableOrderFrom types (earlier ++ [d]) rest

/-- The names of all types in table order. -/
def tableOrder (types : List TypeDef) : List String :=
  let mentioned := tableOrderFrom types [] types
  mentioned ++ ["String", "Boolean"].filter fun name => name ∉ mentioned

variable {s : Schema}

/-! ## Keys after one step -/

theorem keys_addBuiltin (m : OrderedMap TypeNode) (name : String) :
    (addBuiltin s m name).keys =
      if name ∉ m.keys ∧ (builtinNode? s name).isSome then m.keys ++ [name] else m.keys := by
  unfold addBuiltin builtinNode?
  by_cases taken : s.contains name = true
  · simp [taken]
  · by_cases there : name ∈ m.keys
    · simp [OrderedMap.contains_iff.mpr there, there]
    · have absent : m.contains name = false := by
        rw [← Bool.not_eq_true, OrderedMap.contains_iff]
        exact there
      simp only [taken, absent, Bool.or_self, Bool.false_eq_true, if_false]
      cases BuiltinScalar.ofName? name with
      | none => simp
      | some scalar =>
        show (m.insert name { origin := .builtin scalar }).keys = _
        rw [OrderedMap.keys_insert, if_neg there]
        simp [there]

theorem keys_foldl_addBuiltin (names : List String) (m : OrderedMap TypeNode) :
    (names.foldl (addBuiltin s) m).keys =
      m.keys ++
        (names.filter fun n => n ∉ m.keys ∧ (builtinNode? s n).isSome).eraseDups := by
  induction names generalizing m with
  | nil => simp
  | cons name rest ih =>
    rw [List.foldl_cons, ih, keys_addBuiltin, List.filter_cons]
    by_cases new : name ∉ m.keys ∧ (builtinNode? s name).isSome
    · -- inserted now, so the rest of the list must skip it, as `eraseDups` does
      rw [if_pos new, if_pos (decide_eq_true new), List.eraseDups_cons, List.append_assoc,
        List.filter_filter, List.singleton_append]
      congr 3
      apply List.filter_congr
      intro n _
      by_cases same : n = name <;> simp [same]
    · rw [if_neg new, if_neg (by simpa using new)]

/-- The types after the definitions passed. -/
def pass (s : Schema) (passed : List TypeDef) : OrderedMap TypeNode :=
  passed.foldl (addDeclared s) ∅

theorem pass_concat (passed : List TypeDef) (d : TypeDef) :
    pass s (passed ++ [d]) = addDeclared s (pass s passed) d := by
  simp [pass]

theorem builtinNode?_isSome_iff (built : s.Built) {name : String} :
    (builtinNode? s name).isSome = true ↔
      (BuiltinScalar.ofName? name).isSome = true ∧ name ∉ s.types.map (·.name) := by
  have declared : s.contains name = true ↔ name ∈ s.types.map (·.name) := by
    rw [built.contains_iff, List.mem_map]
  rw [← declared]
  unfold builtinNode?
  split
  · next h => simp [h]
  · next h => simp [h]

theorem mem_keys_pass {passed : List TypeDef} {k : String} :
    k ∈ (pass s passed).keys ↔ k ∈ passed.map (·.name) ∨
      k ∈ passed.flatMap (·.references) ∧ (builtinNode? s k).isSome := by
  rw [OrderedMap.mem_keys_iff, ← Option.isSome_iff_exists]
  unfold pass
  rw [get?_foldl_addDeclared, OrderedMap.get?_empty, Option.or_none, Option.isSome_or,
    Option.isSome_map, List.findRev?_eq_findRev?TR, List.findRev?TR, Bool.or_eq_true]
  apply or_congr
  · simp
  · split
    · next h => simp [h]
    · next h => simp [h]

/-! ## Keys after the pass -/

/-- A definition whose name is new is followed by its new built-in scalars. -/
theorem keys_addDeclared (built : s.Built) {passed : List TypeDef} {d : TypeDef}
    (declared : d ∈ s.types) (before : ∀ e ∈ passed, e ∈ s.types)
    (new : d.name ∉ passed.map (·.name)) :
    (pass s (passed ++ [d])).keys =
      (pass s passed).keys ++ d.name :: newBuiltins s.types passed d := by
  have names {e : TypeDef} (he : e ∈ s.types) : e.name ∈ s.types.map (·.name) :=
    List.mem_map_of_mem he
  have absent : d.name ∉ (pass s passed).keys := by
    rw [mem_keys_pass, builtinNode?_isSome_iff built]
    rintro (member | ⟨-, -, undeclared⟩)
    · exact new member
    · exact undeclared (names declared)
  rw [pass_concat, addDeclared, keys_foldl_addBuiltin, OrderedMap.keys_insert, if_neg absent,
    List.append_assoc, List.singleton_append]
  unfold newBuiltins
  rw [← d.references_eq_mentions]
  congr 3
  apply List.filter_congr
  intro n _
  -- both filters ask for a built-in scalar without definition, which no definition's name is
  have mentions : passed.flatMap (·.mentions) = passed.flatMap (·.references) := by
    simp only [TypeDef.references_eq_mentions]
  rw [decide_eq_decide, mentions, List.mem_append, List.mem_singleton, not_or, mem_keys_pass,
    builtinNode?_isSome_iff built]
  constructor
  · rintro ⟨⟨unseen, -⟩, builtin, undeclared⟩
    exact ⟨builtin, undeclared, fun mentioned => unseen (.inr ⟨mentioned, builtin, undeclared⟩)⟩
  · rintro ⟨builtin, undeclared, unmentioned⟩
    refine ⟨⟨?_, ?_⟩, builtin, undeclared⟩
    · rintro (member | ⟨mentioned, -⟩)
      · obtain ⟨e, he, rfl⟩ := List.mem_map.mp member
        exact undeclared (names (before e he))
      · exact unmentioned mentioned
    · rintro rfl
      exact undeclared (names declared)

theorem keys_pass_append (built : s.Built) (passed rest : List TypeDef)
    (declared : ∀ d ∈ passed ++ rest, d ∈ s.types)
    (nodup : ((passed ++ rest).map (·.name)).Nodup) :
    (pass s (passed ++ rest)).keys =
      (pass s passed).keys ++ tableOrderFrom s.types passed rest := by
  induction rest generalizing passed with
  | nil => simp [tableOrderFrom]
  | cons d rest ih =>
    have split : passed ++ d :: rest = (passed ++ [d]) ++ rest := by simp
    have new : d.name ∉ passed.map (·.name) := by
      intro member
      rw [List.map_append, List.nodup_append] at nodup
      exact nodup.2.2 d.name member d.name (by simp) rfl
    rw [split, ih (passed ++ [d]) (split ▸ declared) (split ▸ nodup),
      keys_addDeclared built (declared d (by simp))
        (fun e he => declared e (List.mem_append_left _ he)) new, List.append_assoc]
    rfl

theorem alwaysPresent_eq : alwaysPresent = ["String", "Boolean"] := by decide

theorem eraseDups_of_nodup {l : List String} (nodup : l.Nodup) : l.eraseDups = l := by
  induction l with
  | nil => rfl
  | cons a rest ih =>
    obtain ⟨apart, nodup⟩ := List.nodup_cons.mp nodup
    have others : (rest.filter fun b => !b == a) = rest := by
      rw [List.filter_eq_self]
      intro b hb
      simpa using fun same : b = a => apart (same ▸ hb)
    rw [List.eraseDups_cons, others, ih nodup]

/-- The keys of the graph of a built schema stand in table order. -/
theorem keys_typesOf (built : s.Built) (nodup : (s.types.map (·.name)).Nodup) :
    (typesOf s).keys = tableOrder s.types := by
  have passed : (pass s s.types).keys = tableOrderFrom s.types [] s.types := by
    simpa [pass] using keys_pass_append built [] s.types (fun _ h => h) nodup
  show (alwaysPresent.foldl (addBuiltin s) (pass s s.types)).keys = _
  rw [keys_foldl_addBuiltin, alwaysPresent_eq, eraseDups_of_nodup (List.Nodup.filter _ (by decide)),
    tableOrder, ← passed]
  congr 1
  apply List.filter_congr
  intro n member
  have builtin : (BuiltinScalar.ofName? n).isSome = true := by
    rcases List.mem_cons.mp member with rfl | member
    · decide
    · rw [List.mem_singleton.mp member]
      decide
  rw [decide_eq_decide, builtinNode?_isSome_iff built]
  refine ⟨fun h => h.1, fun absent => ⟨absent, builtin, fun declared => absent ?_⟩⟩
  exact mem_keys_pass.mpr (.inl declared)

/-! ## What the order says of the nodes -/

/-- A node is that of a built-in scalar exactly if no definition has its name. -/
theorem isBuiltin_iff (built : s.Built) {k : String} {t : TypeNode}
    (h : (typesOf s).get? k = some t) : t.isBuiltin = true ↔ k ∉ s.types.map (·.name) := by
  have declared : s.contains k = true ↔ k ∈ s.types.map (·.name) := by
    rw [built.contains_iff, List.mem_map]
  rw [← declared, ← find?_isSome_iff built, Option.not_isSome_iff_eq_none]
  cases found : s.find? k with
  | some d =>
    rw [get?_typesOf_of_find? built found] at h
    obtain rfl := Option.some.inj h
    simp [TypeNode.isBuiltin, TypeNode.definition?, declaredNode]
  | none =>
    rw [TypeNode.isBuiltin, Option.isNone_iff_eq_none]
    refine iff_of_true ?_ rfl
    rw [Option.eq_none_iff_forall_ne_some]
    intro d definition
    have there : t ∈ (typesOf s).values := OrderedMap.mem_values_iff.mpr ⟨k, h⟩
    obtain ⟨member, rfl⟩ := mem_types_of_definition? there definition
    have contained := built.contains_iff.mpr ⟨d, member, name_of_get?_typesOf h⟩
    rw [← find?_isSome_iff built, found] at contained
    cases contained

/-- Without the built-in scalars the order is that of the declarations. -/
theorem filter_tableOrderFrom (types earlier rest : List TypeDef)
    (declared : ∀ d ∈ rest, d ∈ types) :
    (tableOrderFrom types earlier rest).filter (· ∈ types.map (·.name)) = rest.map (·.name) := by
  induction rest generalizing earlier with
  | nil => rfl
  | cons d rest ih =>
    have none : (newBuiltins types earlier d).filter (· ∈ types.map (·.name)) = [] := by
      rw [List.filter_eq_nil_iff]
      intro n member
      rw [newBuiltins, List.mem_eraseDups, List.mem_filter] at member
      simpa using (of_decide_eq_true member.2).2.1
    have here : d.name ∈ types.map (·.name) := List.mem_map_of_mem (declared d (by simp))
    rw [tableOrderFrom, List.cons_append, List.filter_cons_of_pos (by simpa using here),
      List.filter_append, none, List.nil_append, ih _ fun e he => declared e (by simp [he]),
      List.map_cons]

theorem filter_tableOrder (types : List TypeDef) :
    (tableOrder types).filter (· ∈ types.map (·.name)) = types.map (·.name) := by
  have declared := filter_tableOrderFrom types [] types fun _ h => h
  have none : (["String", "Boolean"].filter (· ∉ tableOrderFrom types [] types)).filter
      (· ∈ types.map (·.name)) = [] := by
    rw [List.filter_filter, List.filter_eq_nil_iff]
    intro n _ both
    rw [Bool.and_eq_true, decide_eq_true_eq, decide_eq_true_eq, ← declared] at both
    exact both.2 (List.mem_filter.mp both.1).1
  rw [tableOrder, List.filter_append, declared, none, List.append_nil]

/-- Deleting the built-in scalars leaves the declaration order. -/
theorem declared_values_typesOf (built : s.Built) (nodup : (s.types.map (·.name)).Nodup) :
    ((typesOf s).values.filter fun t => !t.isBuiltin).map (·.name) = s.types.map (·.name) := by
  have order := filter_tableOrder s.types
  rw [← keys_typesOf built nodup, ← name_values_typesOf, List.filter_map] at order
  rw [← order]
  congr 1
  apply List.filter_congr
  intro t member
  obtain ⟨k, h⟩ := OrderedMap.mem_values_iff.mp member
  have builtin := isBuiltin_iff built h
  rw [Function.comp_apply, name_of_get?_typesOf h]
  by_cases declared : k ∈ s.types.map (·.name)
  · have notBuiltin : t.isBuiltin = false := by
      rw [← Bool.not_eq_true, builtin]
      exact fun undeclared => undeclared declared
    rw [notBuiltin, decide_eq_true declared]
    rfl
  · rw [builtin.mpr declared, decide_eq_false declared]
    rfl

/-- Lists that a function maps to the same list are the same if it tells their elements apart. -/
theorem eq_of_map_eq {α : Type} {f : α → String} {l m : List α}
    (apart : ∀ a ∈ l, ∀ b ∈ m, f a = f b → a = b) (images : l.map f = m.map f) : l = m := by
  induction l generalizing m with
  | nil => exact (List.map_eq_nil_iff.mp images.symm).symm
  | cons a l ih =>
    cases m with
    | nil => cases images
    | cons b m =>
      obtain ⟨first, rest⟩ := List.cons.inj images
      rw [apart a List.mem_cons_self b List.mem_cons_self first,
        ih (fun a ha b hb => apart a (.tail _ ha) b (.tail _ hb)) rest]

/-- The definitions of the nodes are those of the schema in declaration order. -/
theorem definitions_typesOf (built : s.Built) (nodup : (s.types.map (·.name)).Nodup) :
    (typesOf s).values.filterMap (·.definition?) = s.types := by
  have names : ((typesOf s).values.filterMap (·.definition?)).map (·.name) =
      s.types.map (·.name) := by
    rw [← declared_values_typesOf built nodup, List.map_filterMap, ← List.filterMap_eq_filter,
      List.map_filterMap]
    apply List.filterMap_congr
    intro t _
    obtain ⟨origin, root⟩ := t
    cases origin <;> rfl
  refine eq_of_map_eq ?_ names
  intro d hd e he same
  obtain ⟨t, ht, definition⟩ := List.mem_filterMap.mp hd
  exact List.inj_on_of_nodup_map nodup (mem_types_of_definition? ht definition).1 he same

theorem mem_keys_typesOf {k : String} :
    k ∈ (typesOf s).keys ↔ k ∈ s.types.map (·.name) ∨
      (k ∈ s.types.flatMap (·.references) ∨ k ∈ alwaysPresent) ∧ (builtinNode? s k).isSome := by
  rw [OrderedMap.mem_keys_iff, ← Option.isSome_iff_exists, get?_typesOf, Option.isSome_or,
    Option.isSome_map, List.findRev?_eq_findRev?TR, List.findRev?TR, Bool.or_eq_true]
  apply or_congr
  · simp
  · split
    · next h => simp only [h, true_and]
    · next h => simp only [h, false_and, Option.isSome_none, Bool.false_eq_true]

/-- A built-in scalar that is not always there is a key exactly if it is declared or mentioned. -/
theorem mem_keys_typesOf_of_builtin (built : s.Built) {name : String}
    (builtin : (BuiltinScalar.ofName? name).isSome = true) (optional : name ∉ alwaysPresent) :
    name ∈ (typesOf s).keys ↔
      name ∈ s.types.map (·.name) ∨ name ∈ s.types.flatMap (·.mentions) := by
  have mentions : s.types.flatMap (·.mentions) = s.types.flatMap (·.references) := by
    simp only [TypeDef.references_eq_mentions]
  rw [mem_keys_typesOf, builtinNode?_isSome_iff built, mentions]
  by_cases declared : name ∈ s.types.map (·.name)
  · exact iff_of_true (.inl declared) (.inl declared)
  · apply or_congr_right
    constructor
    · rintro ⟨mentioned | always, -⟩
      · exact mentioned
      · exact absurd always optional
    · exact fun mentioned => ⟨.inl mentioned, builtin, declared⟩

end ResolverTypes.TypeGraph
