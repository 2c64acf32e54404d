import ResolverTypes.Proofs.Schema.WellFormed

/-!
# Schemas that change

A schema is empty at first and then changes: definitions are added, also under names that are taken,
the index is built anew, and types are extended in place. In whatever order this happens, the index
keeps to the list (`Indexed`), although nothing ever compares the two. An addition mends the index.
An extension need not, for it changes the body of one definition and neither its name nor its place,
and one that ends in an error changes nothing (`Extends`).
-/

namespace ResolverTypes.Schema

/-- One change of a schema. -/
inductive Change where
  | add (d : TypeDef)
  | reindex
  /-- An extension in place, which may end in an error. -/
  | extend (e : TypeDef)

/-- The definition that the change adds. -/
def Change.added? : Change → Option TypeDef
  | .add d => some d
  | _ => none

/-- What a change leaves behind. -/
def Change.apply (s : Schema) : Change → Schema
  | .add d => s.add d
  | .reindex => s.reindex
  | .extend e =>
    match (extendInPlace e).run s with
    | .ok () t => t
    | .error _ t => t

/-- What the changes, one after the other, make of the empty schema. -/
def ofChanges (changes : List Change) : Schema := changes.foldl Change.apply ∅

/-- The kinds and names of definitions. -/
def headers (types : List TypeDef) : List (TypeKind × String) := types.map fun d => (d.kind, d.name)

/-- Whether the index keeps to the list of definitions. -/
structure Indexed (s : Schema) : Prop where
  /-- Every place in the index is one in the list, with a definition of that name. -/
  places : ∀ e ∈ s.index.entries, ∃ inside : e.2 < s.types.length, s.types[e.2].name = e.1
  known : ∀ name, s.contains name = true ↔ ∃ d ∈ s.types, d.name = name
  /-- A name stands for the last definition that has it. -/
  found : ∀ name, s.find? name = s.types.findRev? fun d => d.name = name
  /-- The index is what it would be if it were built anew. -/
  reindex : s.reindex = s

/-- How an extension in place may end, and what it leaves behind. -/
inductive Extends (s : Schema) (e : TypeDef) : EStateM.Result Sdl.Error Schema Unit → Prop
  | unknown (undeclared : ¬s.Declares e.name) :
      Extends s e (.error (.unknownExtension e.name) s)
  | mismatch {base : TypeDef} (stands : s.StandsFor e.name base) (kinds : base.kind ≠ e.kind) :
      Extends s e (.error (.extensionKindMismatch e.name base.kind.text e.kind.text) s)
  /-- The last definition of the name gets another body of its kind. Roots, index and all other
  definitions stay. -/
  | done {before after : List TypeDef} {base : TypeDef} {body : TypeBody}
      (types : s.types = before ++ base :: after) (named : base.name = e.name)
      (last : ∀ d ∈ after, d.name ≠ e.name) (kinds : base.kind = e.kind)
      (joined : base.body.append? e.body = some body) (kind : body.kind = base.kind) :
      Extends s e (.ok () { s with types := before ++ { base with body } :: after })

variable {s : Schema}

/-! ## One change -/

theorem Built.extends (built : s.Built) (e : TypeDef) : Extends s e ((extendInPlace e).run s) := by
  rw [extendInPlace_eq]
  cases found : s.find? e.name with
  | none => exact .unknown (built.find?_eq_none_iff.mp found)
  | some base =>
    have stands := built.find?_eq_some_iff_standsFor.mp found
    dsimp only
    cases joined : base.body.append? e.body with
    | none => exact .mismatch stands (TypeBody.append?_eq_none_iff.mp joined)
    | some body =>
      obtain ⟨before, after, split, named, last⟩ := stands
      obtain ⟨kinds, kind⟩ := TypeBody.kinds_of_append? joined
      dsimp only
      rw [built.modify_eq split named last]
      exact .done split named last kinds joined kind

theorem Built.apply (built : s.Built) (c : Change) : (c.apply s).Built := by
  cases c with
  | add d => exact built.add d
  | reindex => exact built.reindex
  | extend e =>
    rw [Change.apply, extendInPlace_eq]
    cases s.find? e.name with
    | none => exact built
    | some base =>
      dsimp only
      cases base.body.append? e.body with
      | none => exact built
      | some body => exact built.modify e.name fun _ => rfl

/-- An extension leaves kinds and names alone, in whatever way it ends. -/
theorem Built.headers_apply (built : s.Built) (c : Change) :
    headers (c.apply s).types = headers s.types ++ headers c.added?.toList := by
  cases c with
  | add d => exact List.map_append
  | reindex => exact (List.append_nil _).symm
  | extend e =>
    have ends := built.extends e
    show headers (Change.apply s (.extend e)).types = headers s.types ++ []
    rw [List.append_nil, Change.apply]
    generalize (extendInPlace e).run s = result at ends ⊢
    cases ends with
    | unknown | mismatch => rfl
    | done types _ _ _ _ kind => simp [headers, types, TypeDef.kind, kind]

/-! ## Any number of changes -/

theorem Built.foldl_apply (built : s.Built) (changes : List Change) :
    (changes.foldl Change.apply s).Built := by
  induction changes generalizing s with
  | nil => exact built
  | cons c rest ih => exact ih (built.apply c)

/-- The list has what was added, in that order, and nothing else. -/
theorem Built.headers_foldl_apply (built : s.Built) (changes : List Change) :
    headers (changes.foldl Change.apply s).types =
      headers s.types ++ headers (changes.filterMap (·.added?)) := by
  induction changes generalizing s with
  | nil => exact (List.append_nil _).symm
  | cons c rest ih =>
    rw [List.foldl_cons, ih (built.apply c), built.headers_apply c, List.append_assoc]
    cases added : c.added? <;> simp [headers, added]

/-! ## Look-ups -/

theorem Built.indexed (built : s.Built) : s.Indexed where
  places := by
    intro e he
    rw [← OrderedMap.get?_eq_some_iff_mem, built.index_eq] at he
    obtain ⟨before, d, after, split, length, named, -⟩ := get?_indexOf.mp he
    have there : s.types[e.2]? = some d := by simp [split, ← length]
    obtain ⟨inside, rfl⟩ := List.getElem?_eq_some_iff.mp there
    exact ⟨inside, named⟩
  known := fun _ => built.contains_iff
  found := built.find?_eq
  reindex := by
    unfold Schema.reindex
    rw [← built.index_eq]

/-- What all changes of a schema keep. Whatever they are and in whatever order they come, the list
has the definitions that were added, with the kinds and names that they were added with. The places
in the index are places in the list, a name is known exactly if a definition has it, it stands for
the last one that does, and building the index anew changes nothing. An extension that comes next
leaves the schema as it is if it ends in an error, and otherwise gives the definition that its name
stands for another body of the same kind and leaves everything else alone. -/
theorem lookups_kept (changes : List Change) :
    headers (ofChanges changes).types = headers (changes.filterMap (·.added?)) ∧
      (ofChanges changes).Indexed ∧
      ∀ e, Extends (ofChanges changes) e ((extendInPlace e).run (ofChanges changes)) := by
  have built : (ofChanges changes).Built := Built.empty.foldl_apply changes
  exact ⟨Built.empty.headers_foldl_apply changes, built.indexed, built.extends⟩

/-- A type that is extended, then defined a second time, and then cannot be extended as before. -/
example :
    let values : TypeDef := ⟨"A", none, .enum [⟨"X", none⟩]⟩
    let scalar : TypeDef := ⟨"A", none, .scalar⟩
    let more : TypeDef := ⟨"A", none, .enum [⟨"Y", none⟩]⟩
    let s := ofChanges [.add values, .extend more, .add scalar, .extend more, .reindex]
    s.types = [⟨"A", none, .enum [⟨"X", none⟩, ⟨"Y", none⟩]⟩, scalar] ∧
      s.find? "A" = some scalar := by
  decide

end ResolverTypes.Schema
