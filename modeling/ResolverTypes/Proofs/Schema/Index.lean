import Mathlib.Data.List.Basic
import Mathlib.Data.List.Induction
import ResolverTypes.Proofs.OrderedMap
import ResolverTypes.Sdl.Assembly

/-!
# What the index of a schema leads to

A schema keeps its definitions in a list and beside it an index of their names. `Schema.Built` says
how schemas come about: definitions are added, root types are named, the index is built anew, and
types are changed in place under their names. Each of these steps leaves the index as
`Schema.reindex` would build it (`Built.index_eq`), so a look-up always speaks of the list: a name
stands for its last definition (`Built.find?_eq`) and is known exactly if it has one
(`Built.contains_iff`).

A built schema is therefore determined by its definitions and its roots (`Built.eq_ofTypes`).
-/

namespace ResolverTypes.Schema

/-- The schemas that come about by the operations on schemas, in whatever order. -/
inductive Built : Schema → Prop
  | empty : Built ∅
  | add {s : Schema} (d : TypeDef) : Built s → Built (s.add d)
  | withRoots {s : Schema} (roots : Roots) : Built s → Built { s with roots }
  | reindex {s : Schema} : Built s → Built s.reindex
  | modify {s : Schema} (name : String) {f : TypeDef → TypeDef}
      (keeps : ∀ d, (f d).name = d.name) : Built s → Built (s.modify name f)

/-! ## The index of a list of definitions -/

theorem indexOf_concat (types : List TypeDef) (d : TypeDef) :
    indexOf (types ++ [d]) = (indexOf types).insert d.name types.length := by
  unfold indexOf
  rw [List.zipIdx_append, List.foldl_append]
  simp

/-- The index depends on the names of the definitions only. -/
theorem indexOf_congr {types types' : List TypeDef}
    (names : types.map (·.name) = types'.map (·.name)) : indexOf types = indexOf types' := by
  have through : ∀ l : List TypeDef, indexOf l =
      ((l.map (·.name)).zipIdx.foldl (fun m e => m.insert e.1 e.2) ∅ : OrderedMap Nat) := by
    intro l
    rw [indexOf, List.zipIdx_map, List.foldl_map]
    rfl
  rw [through, through, names]

/-- A place in a list with one more element is the last one, or a place in the list. -/
private theorem concat_eq_append_cons {α : Type} {l before after : List α} {a b : α}
    (split : l ++ [a] = before ++ b :: after) :
    (after = [] ∧ l = before ∧ a = b) ∨ ∃ rest, after = rest ++ [a] ∧ l = before ++ b :: rest := by
  rcases List.eq_nil_or_concat' after with rfl | ⟨rest, e, rfl⟩
  · obtain ⟨rfl, same⟩ := List.append_inj' split rfl
    exact .inl ⟨rfl, rfl, (List.cons.inj same).1⟩
  · rw [← List.cons_append, ← List.append_assoc] at split
    obtain ⟨rfl, same⟩ := List.append_inj' split rfl
    exact .inr ⟨rest, by rw [same], rfl⟩

/-- The index leads from a name to the place of its last definition. -/
theorem get?_indexOf {types : List TypeDef} {name : String} {i : Nat} :
    (indexOf types).get? name = some i ↔
      ∃ before d after, types = before ++ d :: after ∧ before.length = i ∧ d.name = name ∧
        ∀ e ∈ after, e.name ≠ name := by
  -- from the back, as the index is built: a new definition takes its name over
  induction types using List.reverseRecOn generalizing i with
  | nil => simp [indexOf]
  | append_singleton types d ih =>
    rw [indexOf_concat, OrderedMap.get?_insert]
    by_cases h : name = d.name
    · rw [if_pos h, Option.some.injEq]
      constructor
      · intro hi
        exact ⟨types, d, [], rfl, hi, h.symm, by simp⟩
      · rintro ⟨before, b, after, split, length, -, last⟩
        rcases concat_eq_append_cons split with ⟨-, rfl, -⟩ | ⟨rest, rfl, -⟩
        · exact length
        · exact absurd h.symm (last d (by simp))
    · rw [if_neg h, ih]
      constructor
      · rintro ⟨before, b, after, rfl, length, named, last⟩
        refine ⟨before, b, after ++ [d], by simp, length, named, ?_⟩
        intro e member
        rcases List.mem_append.mp member with member | member
        · exact last e member
        · rw [List.mem_singleton.mp member]
          exact fun he => h he.symm
      · rintro ⟨before, b, after, split, length, named, last⟩
        rcases concat_eq_append_cons split with ⟨-, -, rfl⟩ | ⟨rest, rfl, rfl⟩
        · exact absurd named.symm h
        · exact ⟨before, b, rest, rfl, length, named, fun e he => last e (by simp [he])⟩

/-! ## What the operations keep -/

/-- Replacing a definition by one of the same name changes no name in the list. -/
theorem map_name_modify {types : List TypeDef} {i : Nat} {f : TypeDef → TypeDef}
    (keeps : ∀ d, (f d).name = d.name) :
    (types.modify i f).map (·.name) = types.map (·.name) := by
  induction types generalizing i with
  | nil => simp
  | cons d rest ih =>
    cases i with
    | zero => simp [keeps]
    | succ i => simp [ih]

theorem index_add {s : Schema} (d : TypeDef) (indexed : s.index = indexOf s.types) :
    (s.add d).index = indexOf (s.add d).types := by
  show s.index.insert d.name s.types.length = indexOf (s.types ++ [d])
  rw [indexOf_concat, indexed]

theorem modify_of_place {s : Schema} {name : String} {i : Nat} {d : TypeDef}
    (place : s.index.get? name = some i) (there : s.types[i]? = some d) (f : TypeDef → TypeDef) :
    s.modify name f = { s with types := s.types.set i (f d) } := by
  rw [modify, place]
  show { s with types := s.types.modify i f } = _
  rw [List.modify_eq_set_getElem?, there]
  rfl

/-- Of a change only what it makes of the definition found matters. -/
theorem modify_congr {s : Schema} {name : String} {d : TypeDef} (found : s.find? name = some d)
    {f g : TypeDef → TypeDef} (same : f d = g d) : s.modify name f = s.modify name g := by
  obtain ⟨i, place, there⟩ := Option.bind_eq_some_iff.mp found
  rw [modify_of_place place there, modify_of_place place there, same]

/-- Putting back the definition found changes nothing. -/
theorem modify_found {s : Schema} {name : String} {d : TypeDef} (found : s.find? name = some d) :
    (s.modify name fun _ => d) = s := by
  obtain ⟨i, place, there⟩ := Option.bind_eq_some_iff.mp found
  obtain ⟨inside, rfl⟩ := List.getElem?_eq_some_iff.mp there
  rw [modify_of_place place there, List.set_getElem_self]

/-- What an extension leaves of the schema, and how it ends. It ends in an error before it changes
anything, or replaces the body of the definition found. -/
theorem extendInPlace_eq (s : Schema) (e : TypeDef) :
    (extendInPlace e).run s =
      match s.find? e.name with
      | none => .error (.unknownExtension e.name) s
      | some base =>
        match base.body.append? e.body with
        | none => .error (.extensionKindMismatch e.name base.kind.text e.kind.text) s
        | some body => .ok () (s.modify e.name fun d => { d with body }) := by
  rw [extendInPlace, run_update]
  cases found : s.find? e.name with
  | none => rfl
  | some base =>
    dsimp only
    rw [TypeDef.append_eq]
    cases base.body.append? e.body with
    | none =>
      dsimp only
      rw [modify_found found]
    | some body => exact congrArg (EStateM.Result.ok ()) (modify_congr found rfl)

theorem extend_eq (s : Schema) (e : TypeDef) :
    s.extend e =
      match s.find? e.name with
      | none => .error (.unknownExtension e.name)
      | some base =>
        match base.body.append? e.body with
        | none => .error (.extensionKindMismatch e.name base.kind.text e.kind.text)
        | some body => .ok (s.modify e.name fun d => { d with body }) := by
  rw [extend, extendInPlace_eq]
  cases s.find? e.name with
  | none => rfl
  | some base =>
    dsimp only
    cases base.body.append? e.body <;> rfl

/-- What an extension that succeeds does: the definition found gets a body of its kind. -/
theorem extend_eq_ok_iff {s t : Schema} {e : TypeDef} :
    s.extend e = .ok t ↔ ∃ base body, s.find? e.name = some base ∧
      base.body.append? e.body = some body ∧ t = s.modify e.name fun d => { d with body } := by
  rw [extend_eq]
  split
  · next h => simp [h]
  · next base h =>
    split
    · next hb => simp [h, hb]
    · next body hb => simp [h, hb, eq_comm]

theorem index_modify {s : Schema} {name : String} {f : TypeDef → TypeDef}
    (keeps : ∀ d, (f d).name = d.name) (indexed : s.index = indexOf s.types) :
    (s.modify name f).index = indexOf (s.modify name f).types := by
  unfold modify
  split
  · show s.index = _
    rw [indexed]
    exact (indexOf_congr (map_name_modify keeps)).symm
  · exact indexed

/-- The index of a built schema is the one that `reindex` would build. -/
theorem Built.index_eq {s : Schema} (built : s.Built) : s.index = indexOf s.types := by
  induction built with
  | empty => rfl
  | add d _ ih => exact index_add d ih
  | withRoots roots _ ih => exact ih
  | reindex _ _ => rfl
  | modify name keeps _ ih => exact index_modify keeps ih

/-- An extension changes a type under its name. -/
theorem Built.extend {s t : Schema} (built : s.Built) (e : TypeDef) (done : s.extend e = .ok t) :
    t.Built := by
  obtain ⟨base, body, -, -, rfl⟩ := extend_eq_ok_iff.mp done
  exact built.modify e.name fun _ => rfl

/-! ## Look-ups -/

theorem mem_keys_indexOf {types : List TypeDef} {name : String} :
    name ∈ (indexOf types).keys ↔ ∃ d ∈ types, d.name = name := by
  induction types using List.reverseRecOn with
  | nil => simp [indexOf]
  | append_singleton types d ih =>
    rw [indexOf_concat, OrderedMap.mem_keys_insert, ih]
    simp only [List.mem_append, List.mem_singleton, or_and_right, exists_or, exists_eq_left]
    rw [or_comm, eq_comm (a := name)]

/-- A name is known exactly if it has a definition. -/
theorem Built.contains_iff {s : Schema} (built : s.Built) {name : String} :
    s.contains name = true ↔ ∃ d ∈ s.types, d.name = name := by
  rw [contains, OrderedMap.contains_iff, built.index_eq, mem_keys_indexOf]

private theorem findRev?_append_cons {types before after : List TypeDef} {d : TypeDef}
    {p : TypeDef → Bool} (split : types = before ++ d :: after) (found : p d = true)
    (last : ∀ e ∈ after, p e = false) : types.findRev? p = some d := by
  have none_after : after.reverse.find? p = none := by
    simpa [List.find?_eq_none] using last
  rw [List.findRev?_eq_findRev?TR, List.findRev?TR, split]
  simp [List.find?_append, none_after, found]

/-- A name stands for its last definition. -/
theorem Built.find?_eq {s : Schema} (built : s.Built) (name : String) :
    s.find? name = s.types.findRev? fun d => d.name = name := by
  rw [find?, built.index_eq]
  cases h : (indexOf s.types).get? name with
  | none =>
    rw [OrderedMap.get?_eq_none_iff, mem_keys_indexOf] at h
    rw [List.findRev?_eq_findRev?TR, List.findRev?TR]
    symm
    simpa [List.find?_eq_none] using h
  | some i =>
    obtain ⟨before, d, after, split, rfl, named, last⟩ := get?_indexOf.mp h
    rw [findRev?_append_cons split (by simpa using named) (by simpa using last)]
    simp [split]

theorem mem_of_findRev? {types : List TypeDef} {p : TypeDef → Bool} {d : TypeDef}
    (h : types.findRev? p = some d) : d ∈ types ∧ p d = true := by
  rw [List.findRev?_eq_findRev?TR, List.findRev?TR] at h
  exact ⟨List.mem_reverse.mp (List.mem_of_find?_eq_some h), List.find?_some h⟩

theorem Built.mem_of_find? {s : Schema} (built : s.Built) {name : String} {d : TypeDef}
    (h : s.find? name = some d) : d ∈ s.types ∧ d.name = name := by
  rw [built.find?_eq] at h
  simpa using mem_of_findRev? h

/-- What is found is known. -/
theorem contains_of_find? {s : Schema} {name : String} {d : TypeDef}
    (h : s.find? name = some d) : s.contains name = true := by
  obtain ⟨i, hi, -⟩ := Option.bind_eq_some_iff.mp h
  rw [contains, OrderedMap.contains, hi]
  rfl

/-- With pairwise distinct names every definition is found under its name. -/
theorem Built.find?_eq_some_iff {s : Schema} (built : s.Built)
    (nodup : (s.types.map (·.name)).Nodup) {name : String} {d : TypeDef} :
    s.find? name = some d ↔ d ∈ s.types ∧ d.name = name := by
  refine ⟨built.mem_of_find?, ?_⟩
  rintro ⟨member, rfl⟩
  obtain ⟨before, after, split⟩ := List.append_of_mem member
  rw [built.find?_eq]
  refine findRev?_append_cons split (by simp) ?_
  intro e he
  -- a second definition of the name would stand behind the first
  rw [split, List.map_append, List.map_cons, List.nodup_append] at nodup
  have apart := (List.nodup_cons.mp nodup.2.1).1
  simpa using fun same : e.name = d.name => apart (List.mem_map.mpr ⟨e, he, same⟩)

/-- A change of the definition that a name stands for leaves all others and the index alone. -/
theorem Built.modify_eq {s : Schema} (built : s.Built) {name : String}
    {before after : List TypeDef} {d : TypeDef} (split : s.types = before ++ d :: after)
    (named : d.name = name) (last : ∀ e ∈ after, e.name ≠ name) (f : TypeDef → TypeDef) :
    s.modify name f = { s with types := before ++ f d :: after } := by
  have place : s.index.get? name = some before.length := by
    rw [built.index_eq]
    exact get?_indexOf.mpr ⟨before, d, after, split, rfl, named, last⟩
  have there : s.types[before.length]? = some d := by simp [split]
  rw [modify_of_place place there, split]
  simp

/-- With pairwise distinct names a change of the definition that a name stands for is a change of
all definitions of that name. -/
theorem Built.types_modify {s : Schema} (built : s.Built) (nodup : (s.types.map (·.name)).Nodup)
    (name : String) (f : TypeDef → TypeDef) :
    (s.modify name f).types = s.types.map fun d => if d.name = name then f d else d := by
  have unchanged : ∀ l : List TypeDef, (∀ e ∈ l, e.name ≠ name) →
      l.map (fun d => if d.name = name then f d else d) = l := by
    intro l others
    conv_rhs => rw [← List.map_id l]
    exact List.map_congr_left fun e he => if_neg (others e he)
  cases h : (indexOf s.types).get? name with
  | none =>
    rw [Schema.modify, built.index_eq, h]
    rw [OrderedMap.get?_eq_none_iff, mem_keys_indexOf] at h
    exact (unchanged s.types fun e he same => h ⟨e, he, same⟩).symm
  | some i =>
    obtain ⟨before, d, after, split, -, named, last⟩ := get?_indexOf.mp h
    -- the place found holds the last definition of the name, and here also the first
    have first : ∀ e ∈ before, e.name ≠ name := by
      intro e he same
      rw [split, List.map_append, List.nodup_append] at nodup
      exact nodup.2.2 e.name (List.mem_map_of_mem he) d.name (by simp) (same.trans named.symm)
    rw [built.modify_eq split named last]
    show before ++ f d :: after = _
    rw [split, List.map_append, List.map_cons, unchanged before first, unchanged after last,
      if_pos named]

@[simp] theorem roots_modify (s : Schema) (name : String) (f : TypeDef → TypeDef) :
    (s.modify name f).roots = s.roots := by
  unfold modify
  split <;> rfl

/-! ## Schemas of given definitions -/

theorem ofTypes_concat (types : List TypeDef) (d : TypeDef) (roots : Roots) :
    ofTypes (types ++ [d]) roots = (ofTypes types roots).add d := by
  simp [ofTypes]

@[simp] theorem types_ofTypes (types : List TypeDef) (roots : Roots) :
    (ofTypes types roots).types = types := by
  induction types using List.reverseRecOn with
  | nil => rfl
  | append_singleton types d ih =>
    rw [ofTypes_concat]
    show (ofTypes types roots).types ++ [d] = types ++ [d]
    rw [ih]

@[simp] theorem roots_ofTypes (types : List TypeDef) (roots : Roots) :
    (ofTypes types roots).roots = roots := by
  induction types using List.reverseRecOn with
  | nil => rfl
  | append_singleton types d ih =>
    rw [ofTypes_concat]
    exact ih

theorem built_ofTypes (types : List TypeDef) (roots : Roots) : (ofTypes types roots).Built := by
  induction types using List.reverseRecOn with
  | nil => exact Built.empty.withRoots roots
  | append_singleton types d ih =>
    rw [ofTypes_concat]
    exact ih.add d

/-- A built schema is determined by its definitions and its roots. -/
theorem Built.eq_ofTypes {s : Schema} (built : s.Built) : s = ofTypes s.types s.roots := by
  have index := (built_ofTypes s.types s.roots).index_eq
  rw [types_ofTypes, ← built.index_eq] at index
  have types := types_ofTypes s.types s.roots
  have roots := roots_ofTypes s.types s.roots
  cases h : ofTypes s.types s.roots
  rw [h] at index types roots
  cases s
  simp only at index types roots
  rw [index, types, roots]

theorem ofTypes_withRoots (types : List TypeDef) (roots roots' : Roots) :
    { ofTypes types roots with roots := roots' } = ofTypes types roots' := by
  simpa using ((built_ofTypes types roots).withRoots roots').eq_ofTypes

end ResolverTypes.Schema
