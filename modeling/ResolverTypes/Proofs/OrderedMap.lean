import Mathlib.Data.List.Nodup
import ResolverTypes.OrderedMap

/-!
# Bindings of ordered maps

The view of `OrderedMap` by `get?` and `keys` is tied to the list of bindings behind it, so that a
statement about all values of a map can be read off from what `get?` answers.

A list that is made value by value from a map whose values carry their keys has at most one element
for every key (`filter_filterMap_values`), and which one does not depend on the order of the keys.
-/

namespace ResolverTypes.OrderedMap

universe u v

variable {α : Type u} {β : Type v}

theorem nodup_keys (m : OrderedMap α) : m.keys.Nodup := m.keys_nodup

theorem get?_insert (m : OrderedMap α) (k k' : String) (v : α) :
    (m.insert k v).get? k' = if k' = k then some v else m.get? k' := by
  by_cases h : k' = k
  · subst h
    rw [if_pos rfl]
    exact m.get?_insert_self k' v
  · rw [if_neg h]
    exact m.get?_insert_of_ne v h

theorem mem_keys_iff {m : OrderedMap α} {k : String} : k ∈ m.keys ↔ ∃ v, m.get? k = some v := by
  rw [← contains_iff, contains, Option.isSome_iff_exists]

theorem mem_keys_of_get? {m : OrderedMap α} {k : String} {v : α} (h : m.get? k = some v) :
    k ∈ m.keys := mem_keys_iff.mpr ⟨v, h⟩

theorem mem_keys_insert {m : OrderedMap α} {k k' : String} {v : α} :
    k' ∈ (m.insert k v).keys ↔ k' = k ∨ k' ∈ m.keys := by
  rw [keys_insert]
  split
  · next hk => exact ⟨.inr, fun h => h.elim (fun he => he ▸ hk) id⟩
  · simp only [List.mem_append, List.mem_singleton]
    exact or_comm

theorem mem_keys_insertIfNew {m : OrderedMap α} {k k' : String} {v : α} :
    k' ∈ (m.insertIfNew k v).keys ↔ k' = k ∨ k' ∈ m.keys := by
  unfold insertIfNew
  split
  · next known => exact ⟨.inr, fun h => h.elim (fun he => he ▸ contains_iff.mp known) id⟩
  · exact mem_keys_insert

/-- What a loop that keeps a key starts out with is there in the end. -/
theorem mem_keys_foldl {β : Type} {step : OrderedMap α → β → OrderedMap α} {k : String}
    (keeps : ∀ m b, k ∈ m.keys → k ∈ (step m b).keys) {m : OrderedMap α} (there : k ∈ m.keys)
    (l : List β) : k ∈ (l.foldl step m).keys := by
  induction l generalizing m with
  | nil => exact there
  | cons b rest ih => exact ih (keeps m b there)

theorem mem_keys_ofList {l : List (String × α)} {k : String} :
    k ∈ (ofList l).keys ↔ k ∈ l.map Prod.fst := by
  have fold (m : OrderedMap α) :
      k ∈ (l.foldl (fun m e => m.insert e.1 e.2) m).keys ↔ k ∈ l.map Prod.fst ∨ k ∈ m.keys := by
    induction l generalizing m with
    | nil => simp
    | cons e rest ih =>
      rw [List.foldl_cons, ih, mem_keys_insert, List.map_cons, List.mem_cons, or_left_comm,
        or_assoc]
  rw [ofList, fold, keys_empty]
  exact or_iff_left (List.not_mem_nil)

theorem entries_insert_of_notMem {m : OrderedMap α} {k : String} (fresh : k ∉ m.keys) (v : α) :
    (m.insert k v).entries = m.entries ++ [(k, v)] := by
  unfold keys at fresh
  show insertEntry k v m.entries = _
  generalize m.entries = l at fresh ⊢
  induction l with
  | nil => rfl
  | cons e rest ih =>
    rw [List.map_cons, List.mem_cons, not_or] at fresh
    rw [insertEntry, if_neg (Ne.symm fresh.1), ih fresh.2, List.cons_append]

/-- A list that binds no key twice is kept as it is. -/
theorem entries_ofList {l : List (String × α)} (nodup : (l.map Prod.fst).Nodup) :
    (ofList l).entries = l := by
  -- for any map to start from that has none of the keys
  have fold (l : List (String × α)) (m : OrderedMap α)
      (nodup : (m.keys ++ l.map Prod.fst).Nodup) :
      (l.foldl (fun m e => m.insert e.1 e.2) m).entries = m.entries ++ l := by
    induction l generalizing m with
    | nil => exact (List.append_nil _).symm
    | cons e rest ih =>
      rw [List.map_cons, List.append_cons] at nodup
      have fresh : e.1 ∉ m.keys := fun taken =>
        (List.nodup_append.mp (List.nodup_append.mp nodup).1).2.2 _ taken _
          (List.mem_singleton_self _) rfl
      have keys : (m.insert e.1 e.2).keys = m.keys ++ [e.1] := by rw [keys_insert, if_neg fresh]
      rw [List.foldl_cons, ih _ (keys ▸ nodup), entries_insert_of_notMem fresh]
      exact List.append_cons .. |>.symm
  exact fold l ∅ nodup

/-- In a list that binds no key twice, the first binding of a key is its only one. -/
theorem lookup_eq_some_iff_mem {l : List (String × α)} (nodup : (l.map Prod.fst).Nodup)
    {k : String} {v : α} : l.lookup k = some v ↔ (k, v) ∈ l := by
  induction l with
  | nil => simp
  | cons e rest ih =>
    obtain ⟨j, w⟩ := e
    rw [List.map_cons, List.nodup_cons] at nodup
    by_cases hk : k = j
    · subst hk
      simp only [List.lookup_cons, beq_self_eq_true, Option.some.injEq, List.mem_cons,
        Prod.mk.injEq, true_and]
      refine ⟨fun h => .inl h.symm, fun h => ?_⟩
      rcases h with h | h
      · exact h.symm
      · exact absurd (List.mem_map_of_mem (f := Prod.fst) h) nodup.1
    · have hb : (k == j) = false := by simpa using hk
      rw [List.lookup_cons, hb, ih nodup.2]
      simp [hk]

theorem get?_eq_some_iff_mem {m : OrderedMap α} {k : String} {v : α} :
    m.get? k = some v ↔ (k, v) ∈ m.entries :=
  lookup_eq_some_iff_mem m.keys_nodup

/-- The values are what the keys are bound to. -/
theorem mem_values_iff {m : OrderedMap α} {v : α} :
    v ∈ m.values ↔ ∃ k, m.get? k = some v := by
  simp only [values, List.mem_map, get?_eq_some_iff_mem]
  constructor
  · rintro ⟨⟨k, w⟩, member, rfl⟩
    exact ⟨k, member⟩
  · rintro ⟨k, member⟩
    exact ⟨(k, v), member, rfl⟩

/-- If every value carries its key, the values in order carry the keys in order. -/
theorem map_values_eq_keys {m : OrderedMap α} {f : α → String}
    (carries : ∀ k v, m.get? k = some v → f v = k) : m.values.map f = m.keys := by
  rw [values, keys, List.map_map]
  apply List.map_congr_left
  intro e member
  exact carries e.1 e.2 (get?_eq_some_iff_mem.mpr member)

/-! ## What is made from one value -/

/-- Of all that is made from the values, a key has what is made from its own value. -/
theorem filter_filterMap_values {m : OrderedMap α} {name : α → String}
    (carries : ∀ k v, m.get? k = some v → name v = k) {f : α → Option β} {key : β → String}
    (keeps : ∀ v b, f v = some b → key b = name v) (k : String) :
    ((m.values.filterMap f).filter fun b => key b = k) = ((m.get? k).bind f).toList := by
  have own : ∀ e ∈ m.entries, name e.2 = e.1 := fun e he =>
    carries e.1 e.2 (get?_eq_some_iff_mem.mpr he)
  have nodup := m.keys_nodup
  unfold values get?
  generalize m.entries = l at own nodup
  -- a key occurs once, so behind the binding that has it there is no other
  induction l with
  | nil => rfl
  | cons e rest ih =>
    obtain ⟨j, v⟩ := e
    rw [List.map_cons, List.nodup_cons] at nodup
    have later := ih (fun e he => own e (List.mem_cons_of_mem _ he)) nodup.2
    have named : name v = j := own (j, v) List.mem_cons_self
    by_cases same : k = j
    · subst same
      have absent : rest.lookup k = none := by
        rw [List.lookup_eq_none_iff]
        intro e he
        have apart : k ≠ e.1 := fun taken => nodup.1 (List.mem_map.mpr ⟨e, he, taken.symm⟩)
        simpa using apart
      rw [absent] at later
      rw [List.lookup_cons, beq_self_eq_true, List.map_cons, List.filterMap_cons]
      cases made : f v with
      | none => simpa [made] using later
      | some b =>
        have key : key b = k := (keeps v b made).trans named
        simpa [key, made] using later
    · have other : (k == j) = false := by simpa using same
      rw [List.lookup_cons, other, List.map_cons, List.filterMap_cons, ← later]
      cases made : f v with
      | none => rfl
      | some b =>
        have key : key b ≠ k := fun h => same (h.symm.trans ((keeps v b made).trans named))
        simp [key]

theorem find?_filterMap_values {m : OrderedMap α} {name : α → String}
    (carries : ∀ k v, m.get? k = some v → name v = k) {f : α → Option β} {key : β → String}
    (keeps : ∀ v b, f v = some b → key b = name v) (k : String) :
    ((m.values.filterMap f).find? fun b => key b = k) = (m.get? k).bind f := by
  rw [← List.head?_filter, filter_filterMap_values carries keeps, Option.head?_toList]

/-! ## Maps with the same bindings -/

/-- Maps that bind the same keys to the same values differ at most in the order of their keys. -/
theorem entries_perm {m n : OrderedMap α} (same : ∀ k, m.get? k = n.get? k) :
    m.entries.Perm n.entries := by
  have distinct (m : OrderedMap α) : m.entries.Nodup := List.Nodup.of_map Prod.fst m.keys_nodup
  rw [List.perm_ext_iff_of_nodup (distinct m) (distinct n)]
  rintro ⟨k, v⟩
  rw [← get?_eq_some_iff_mem, ← get?_eq_some_iff_mem, same]

theorem values_perm {m n : OrderedMap α} (same : ∀ k, m.get? k = n.get? k) :
    m.values.Perm n.values := (entries_perm same).map Prod.snd

/-! ## Values changed in place -/

/-- The map that binds every key to the image of its value. -/
def mapValues (f : α → β) (m : OrderedMap α) : OrderedMap β where
  entries := m.entries.map fun e => (e.1, f e.2)
  keys_nodup := by
    rw [List.map_map]
    exact m.keys_nodup

variable (f : α → β)

@[simp] theorem values_mapValues (m : OrderedMap α) : (m.mapValues f).values = m.values.map f := by
  simp [values, mapValues]

@[simp] theorem get?_mapValues (m : OrderedMap α) (k : String) :
    (m.mapValues f).get? k = (m.get? k).map f := by
  show (m.entries.map fun e => (e.1, f e.2)).lookup k = (m.entries.lookup k).map f
  induction m.entries with
  | nil => rfl
  | cons e rest ih =>
    rw [List.map_cons, List.lookup_cons, List.lookup_cons, ih]
    cases k == e.1 <;> rfl

@[simp] theorem contains_mapValues (m : OrderedMap α) (k : String) :
    (m.mapValues f).contains k = m.contains k := by
  rw [contains, get?_mapValues, Option.isSome_map, contains]

theorem mapValues_insert (m : OrderedMap α) (k : String) (v : α) :
    (m.insert k v).mapValues f = (m.mapValues f).insert k (f v) := by
  refine OrderedMap.ext ?_
  show (insertEntry k v m.entries).map _ = insertEntry k (f v) (m.entries.map _)
  induction m.entries with
  | nil => rfl
  | cons e rest ih =>
    obtain ⟨j, w⟩ := e
    rw [insertEntry, List.map_cons, insertEntry, ← ih]
    split <;> rfl

end ResolverTypes.OrderedMap
