/-!
# Insertion-ordered maps

`OrderedMap α` binds text keys to values and keeps the keys in the order in which they first came
in. Inserting a key that is already bound replaces its value and leaves its place alone. Everything
this library shows in an order (table entries, contract fields, scalar overrides) sits in such a
map, so the order of the output is the order of first insertion and never that of a hash.

The view is `get?` for what is bound and `keys` for the order; `keys_insert`, `get?_insert_self` and
`get?_insert_of_ne` say what an insertion does to both.
-/

namespace ResolverTypes

universe u v

/-- A map from text keys that remembers the order of first insertion. -/
@[ext] structure OrderedMap (α : Type u) where
  /-- The bindings, oldest key first. -/
  entries : List (String × α) := []
  /-- No key is bound twice. -/
  keys_nodup : (entries.map Prod.fst).Nodup := by simp

namespace OrderedMap

variable {α : Type u} {β : Type v}

instance : EmptyCollection (OrderedMap α) := ⟨{}⟩

instance : Inhabited (OrderedMap α) := ⟨∅⟩

instance [DecidableEq α] : DecidableEq (OrderedMap α) := fun m n =>
  decidable_of_iff (m.entries = n.entries) OrderedMap.ext_iff.symm

/-- The keys, oldest first. -/
def keys (m : OrderedMap α) : List String := m.entries.map Prod.fst

/-- The values, in the order of their keys. -/
def values (m : OrderedMap α) : List α := m.entries.map Prod.snd

def size (m : OrderedMap α) : Nat := m.entries.length

def isEmpty (m : OrderedMap α) : Bool := m.entries.isEmpty

/-- The value bound to `k`. -/
def get? (m : OrderedMap α) (k : String) : Option α := m.entries.lookup k

/-- Whether `k` is bound. -/
def contains (m : OrderedMap α) (k : String) : Bool := (m.get? k).isSome

/-! ## Insertion -/

/-- Binds `k` to `v` in a list of bindings: in place if `k` is bound, at the end otherwise. -/
def insertEntry (k : String) (v : α) : List (String × α) → List (String × α)
  | [] => [(k, v)]
  | (k', v') :: rest => if k' = k then (k, v) :: rest else (k', v') :: insertEntry k v rest

theorem map_fst_insertEntry (k : String) (v : α) (l : List (String × α)) :
    (insertEntry k v l).map Prod.fst =
      if k ∈ l.map Prod.fst then l.map Prod.fst else l.map Prod.fst ++ [k] := by
  induction l with
  | nil => simp [insertEntry]
  | cons e rest ih =>
    obtain ⟨k', v'⟩ := e
    by_cases h : k' = k
    · simp [insertEntry, h]
    · have h' : k ≠ k' := fun he => h he.symm
      by_cases hk : k ∈ rest.map Prod.fst
      · rw [if_pos hk] at ih
        rw [if_pos (by simpa [h'] using hk), insertEntry, if_neg h, List.map_cons, ih]
        rfl
      · rw [if_neg hk] at ih
        rw [if_neg (by simpa [h'] using hk), insertEntry, if_neg h, List.map_cons, ih]
        rfl

theorem nodup_insertEntry (k : String) (v : α) {l : List (String × α)}
    (h : (l.map Prod.fst).Nodup) : ((insertEntry k v l).map Prod.fst).Nodup := by
  rw [map_fst_insertEntry]
  split
  · exact h
  · next hk =>
    refine List.nodup_append.2 ⟨h, by simp, ?_⟩
    intro a ha b hb
    rw [List.mem_singleton] at hb
    exact fun hab => hk (hb ▸ hab ▸ ha)

/-- Binds `k` to `v`. A key that is bound already keeps its place. -/
def insert (m : OrderedMap α) (k : String) (v : α) : OrderedMap α where
  entries := insertEntry k v m.entries
  keys_nodup := nodup_insertEntry k v m.keys_nodup

/-- Binds `k` to `v` unless `k` is bound already. -/
def insertIfNew (m : OrderedMap α) (k : String) (v : α) : OrderedMap α :=
  if m.contains k then m else m.insert k v

/-- The map that results from inserting the bindings one after the other. -/
def ofList (l : List (String × α)) : OrderedMap α :=
  l.foldl (fun m e => m.insert e.1 e.2) ∅

/-- Whether two maps bind the same keys to equal values, in whatever order. -/
def sameBindings [DecidableEq α] (m n : OrderedMap α) : Bool :=
  m.size = n.size && m.entries.all fun e => n.get? e.1 = some e.2

/-! ## What an insertion does to the view -/

@[simp] theorem keys_empty : (∅ : OrderedMap α).keys = [] := rfl

@[simp] theorem get?_empty (k : String) : (∅ : OrderedMap α).get? k = none := rfl

theorem keys_insert (m : OrderedMap α) (k : String) (v : α) :
    (m.insert k v).keys = if k ∈ m.keys then m.keys else m.keys ++ [k] :=
  map_fst_insertEntry k v m.entries

theorem get?_eq_none_iff {m : OrderedMap α} {k : String} : m.get? k = none ↔ k ∉ m.keys := by
  simp only [get?, keys, List.lookup_eq_none_iff, List.mem_map, not_exists, not_and]
  constructor
  · intro h e he hk
    simpa [hk] using h e he
  · intro h e he
    simpa using fun hk : k = e.1 => h e he hk.symm

theorem contains_iff {m : OrderedMap α} {k : String} : m.contains k = true ↔ k ∈ m.keys := by
  rw [contains, ← Option.not_isNone, Bool.not_eq_true', ← Bool.not_eq_true,
    Option.isNone_iff_eq_none, get?_eq_none_iff, Decidable.not_not]

@[simp] theorem get?_insert_self (m : OrderedMap α) (k : String) (v : α) :
    (m.insert k v).get? k = some v := by
  obtain ⟨l, h⟩ := m
  simp only [get?, insert]
  clear h
  induction l with
  | nil => simp [insertEntry]
  | cons e rest ih =>
    obtain ⟨j, w⟩ := e
    by_cases hj : j = k
    · simp [insertEntry, hj]
    · have hk : (k == j) = false := by simpa using fun h : k = j => hj h.symm
      rw [insertEntry, if_neg hj, List.lookup_cons, hk]
      exact ih

theorem get?_insert_of_ne (m : OrderedMap α) {k k' : String} (v : α) (h : k' ≠ k) :
    (m.insert k v).get? k' = m.get? k' := by
  obtain ⟨l, hl⟩ := m
  simp only [get?, insert]
  clear hl
  have hk' : (k' == k) = false := by simpa using h
  induction l with
  | nil => simp only [insertEntry, List.lookup_cons, hk', List.lookup_nil]
  | cons e rest ih =>
    obtain ⟨j, w⟩ := e
    by_cases hj : j = k
    · subst hj
      simp only [insertEntry, if_true, List.lookup_cons, hk']
    · simp only [insertEntry, if_neg hj, List.lookup_cons, ih]

end OrderedMap

end ResolverTypes
