import ResolverTypes.Proofs.Schema.WellFormed
import ResolverTypes.Proofs.Sdl.Names
import ResolverTypes.Proofs.TypeGraph.Order
import ResolverTypes.Workload.Synthetic

/-!
# The types of synthetic schemas

The types that the document of a synthetic schema is made to define, as definitions. With an object
at least, a schema of these types is well-formed (`wellFormed`), whatever the number of fields and
unions: all references are counted round and lead to one of the objects. Without objects, a union
that the query type refers to is missing (`not_wellFormed`).
-/

namespace ResolverTypes.Workload

/-! ## Numbered names -/

/-- A name with a number behind it. -/
def numbered (stem : String) (i : Nat) : String := s!"{stem}{i}"

variable {stem other : String}

theorem toList_numbered (stem : String) (i : Nat) :
    (numbered stem i).toList = stem.toList ++ Nat.toDigits 10 i := by
  show (stem ++ i.repr).toList = _
  rw [String.toList_append, Nat.toList_repr]

theorem numbered_injective (stem : String) : Function.Injective (numbered stem) := by
  intro i j same
  have letters : stem.toList ++ Nat.toDigits 10 i = stem.toList ++ Nat.toDigits 10 j := by
    rw [← toList_numbered, ← toList_numbered, same]
  have value := congrArg (Nat.ofDigitChars 10 · 0) (List.append_cancel_left letters)
  simpa using value

theorem isName_numbered (isName : Sdl.IsName stem) (i : Nat) : Sdl.IsName (numbered stem i) := by
  obtain ⟨first, rest, letters, start, all⟩ := isName
  refine ⟨first, rest ++ Nat.toDigits 10 i, ?_, start, ?_⟩
  · rw [toList_numbered, letters, List.cons_append]
  · intro c hc
    rcases List.mem_append.mp hc with stem | digit
    · exact all c stem
    · have digit : c.isDigit = true := Nat.isDigit_of_mem_toDigits (by decide) (by decide) digit
      simp [Sdl.isNameRest, Char.isAlphanum, digit]

/-- A numbered name is told from another name by its first letter. -/
theorem numbered_ne {c d : Char} {l l' : List Char} (letters : stem.toList = c :: l)
    (letters' : other.toList = d :: l') (apart : c ≠ d) (i : Nat) : numbered stem i ≠ other := by
  rintro rfl
  rw [toList_numbered, letters] at letters'
  exact apart (List.cons.inj letters').1

theorem numbered_ne_numbered {c d : Char} {l l' : List Char} (letters : stem.toList = c :: l)
    (letters' : other.toList = d :: l') (apart : c ≠ d) (i j : Nat) :
    numbered stem i ≠ numbered other j :=
  numbered_ne letters (by rw [toList_numbered, letters']; rfl) apart i

theorem object_ne_query (i : Nat) : numbered "Object" i ≠ "Query" :=
  numbered_ne (c := 'O') (d := 'Q') rfl rfl (by decide) i

theorem union_ne_query (i : Nat) : numbered "Union" i ≠ "Query" :=
  numbered_ne (c := 'U') (d := 'Q') rfl rfl (by decide) i

theorem nodup_numbered (stem : String) (count : Nat) :
    ((List.range count).map (numbered stem)).Nodup :=
  List.nodup_range.map (numbered_injective stem)

namespace Synthetic

/-! ## Definitions -/

/-- The field of the query type for the object with index `i`. -/
def objectField (i : Nat) : Field where
  name := numbered "object" i
  type := .named (numbered "Object" i)
  args := [{ name := "id", type := .nonNull (.named "ID") },
    { name := "limit", type := .named "Int", hasDefault := true }]

/-- The field of the query type for the union with index `i`. -/
def unionField (i : Nat) : Field where
  name := numbered "union" i
  type := .nonNull (.named (numbered "Union" i))

variable (w : Synthetic)

/-- The type of the field with index `f` of the object with index `i`. -/
def fieldReference (i f : Nat) : TypeRef :=
  match f % 4 with
  | 0 => .named "String"
  | 1 => .nonNull (.named "Int")
  | 2 => .list (.nonNull (.named "Float"))
  | _ => .named (numbered "Object" ((i + 1) % w.objects))

theorem fieldType_eq (i f : Nat) : w.fieldType i f = (w.fieldReference i f).text := by
  unfold fieldType fieldReference
  generalize f % 4 = remainder
  match remainder with
  | 0 | 1 | 2 | _ + 3 => rfl

/-- The fields of the object with index `i`. -/
def objectFields (i : Nat) : List Field :=
  { name := "id", type := .nonNull (.named "ID") } ::
    (List.range w.fields).map fun f => { name := numbered "field" f, type := w.fieldReference i f }

def queryFields : List Field :=
  (List.range w.objects).map objectField ++ (List.range w.unions).map unionField

def queryType : TypeDef where
  name := "Query"
  body := .object [] w.queryFields

/-- The object with index `i`. -/
def objectType (i : Nat) : TypeDef where
  name := numbered "Object" i
  body := .object [] (w.objectFields i)

/-- The union with index `i`. -/
def unionType (i : Nat) : TypeDef where
  name := numbered "Union" i
  body := .union [numbered "Object" (i % w.objects), numbered "Object" ((i + 1) % w.objects)]

/-- The unions, if there is something to choose from. -/
def unionTypes : List TypeDef :=
  if w.objects = 0 then [] else (List.range w.unions).map w.unionType

/-- The types that the document defines. -/
def types : List TypeDef :=
  w.queryType :: ((List.range w.objects).map w.objectType ++ w.unionTypes)

/-- The schema of these types, without explicit roots. -/
def schema : Schema := .ofTypes w.types {}

variable {w}

theorem unionTypes_of_pos (some : 0 < w.objects) :
    w.unionTypes = (List.range w.unions).map w.unionType := if_neg (by omega)

theorem mem_types_iff {d : TypeDef} : d ∈ w.types ↔
    d = w.queryType ∨ (∃ i < w.objects, d = w.objectType i) ∨
      0 < w.objects ∧ ∃ i < w.unions, d = w.unionType i := by
  have unions : d ∈ w.unionTypes ↔ 0 < w.objects ∧ ∃ i < w.unions, d = w.unionType i := by
    unfold unionTypes
    split
    · next none => simp [none]
    · next some =>
      simp only [List.mem_map, List.mem_range, eq_comm (a := d)]
      exact (and_iff_right (by omega)).symm
  simp only [types, List.mem_cons, List.mem_append, List.mem_map, List.mem_range, unions,
    eq_comm (a := d)]

theorem nodup_types : (w.types.map (·.name)).Nodup := by
  have objects : ((List.range w.objects).map w.objectType).map (·.name) =
      (List.range w.objects).map (numbered "Object") := by simp [objectType]
  have unions : (w.unionTypes.map (·.name)).Nodup ∧
      ∀ name ∈ w.unionTypes.map (·.name), ∃ i, name = numbered "Union" i := by
    unfold unionTypes
    split
    · exact ⟨List.nodup_nil, nofun⟩
    · rw [List.map_map]
      refine ⟨nodup_numbered "Union" w.unions, fun name member => ?_⟩
      obtain ⟨i, -, rfl⟩ := List.mem_map.mp member
      exact ⟨i, rfl⟩
  rw [types, List.map_cons, List.map_append, objects, List.nodup_cons, List.nodup_append]
  refine ⟨?_, nodup_numbered "Object" w.objects, unions.1, ?_⟩
  · intro taken
    rcases List.mem_append.mp taken with object | union
    · obtain ⟨i, -, same⟩ := List.mem_map.mp object
      exact object_ne_query i same
    · obtain ⟨i, same⟩ := unions.2 _ union
      exact union_ne_query i same.symm
  · rintro _ object name union rfl
    obtain ⟨i, -, rfl⟩ := List.mem_map.mp object
    obtain ⟨j, same⟩ := unions.2 _ union
    exact numbered_ne_numbered rfl rfl (by decide) i j same

/-! ## Well-formedness -/

theorem provides_builtin (s : Schema) (scalar : BuiltinScalar) : s.Provides scalar.name :=
  .inr ⟨scalar, rfl⟩

theorem declares_object {i : Nat} (bound : i < w.objects) :
    w.schema.Declares (numbered "Object" i) := by
  refine ⟨w.objectType i, ?_, rfl⟩
  rw [schema, Schema.types_ofTypes]
  exact mem_types_iff.mpr (.inr (.inl ⟨i, bound, rfl⟩))

theorem declares_union (some : 0 < w.objects) {i : Nat} (bound : i < w.unions) :
    w.schema.Declares (numbered "Union" i) := by
  refine ⟨w.unionType i, ?_, rfl⟩
  rw [schema, Schema.types_ofTypes]
  exact mem_types_iff.mpr (.inr (.inr ⟨some, i, bound, rfl⟩))

theorem standsFor_of_mem {d : TypeDef} (member : d ∈ w.types) : w.schema.StandsFor d.name d := by
  obtain ⟨before, after, split⟩ := List.append_of_mem member
  refine ⟨before, after, ?_, rfl, ?_⟩
  · rw [schema, Schema.types_ofTypes, split]
  · -- names are not repeated
    have nodup := nodup_types (w := w)
    rw [split, List.map_append, List.map_cons, List.nodup_append, List.nodup_cons] at nodup
    intro e he same
    exact nodup.2.1.1 (List.mem_map.mpr ⟨e, he, same⟩)

theorem names_object {i : Nat} (bound : i < w.objects) :
    w.schema.Names (numbered "Object" i) .object :=
  ⟨w.objectType i, standsFor_of_mem (mem_types_iff.mpr (.inr (.inl ⟨i, bound, rfl⟩))), rfl⟩

theorem provides_fieldReference (some : 0 < w.objects) (i f : Nat) :
    w.schema.Provides (w.fieldReference i f).innermost := by
  unfold fieldReference
  split
  · exact provides_builtin _ .string
  · exact provides_builtin _ .int
  · exact provides_builtin _ .float
  · exact .inl (declares_object (Nat.mod_lt _ some))

theorem wellFormed_queryType (some : 0 < w.objects) : w.schema.WellFormedType w.queryType := by
  have fields {P : Field → Prop} (objects : ∀ i < w.objects, P (objectField i))
      (unions : ∀ i < w.unions, P (unionField i)) : ∀ f ∈ w.queryType.fields, P f := by
    intro f member
    rcases List.mem_append.mp member with object | union
    · obtain ⟨i, bound, rfl⟩ := List.mem_map.mp object
      exact objects i (List.mem_range.mp bound)
    · obtain ⟨i, bound, rfl⟩ := List.mem_map.mp union
      exact unions i (List.mem_range.mp bound)
  have names : w.queryType.fields.map (·.name) =
      (List.range w.objects).map (numbered "object") ++
        (List.range w.unions).map (numbered "union") := by
    show w.queryFields.map (·.name) = _
    rw [queryFields, List.map_append, List.map_map, List.map_map]
    rfl
  have argNames : ["id", "limit"].Nodup := by decide
  refine { fieldNames := ?_, results := ?_, argNames := ?_, argTypes := ?_ }
  · rw [names, List.nodup_append]
    refine ⟨nodup_numbered "object" _, nodup_numbered "union" _, ?_⟩
    rintro _ object _ union rfl
    obtain ⟨i, -, rfl⟩ := List.mem_map.mp object
    obtain ⟨j, -, same⟩ := List.mem_map.mp union
    exact numbered_ne_numbered rfl rfl (by decide) j i same
  · exact fields (fun i bound => .inl (declares_object bound))
      fun i bound => .inl (declares_union some bound)
  · exact fields (fun i _ => argNames) fun i _ => List.nodup_nil
  · refine fields (fun i _ => ?_) fun i _ => nofun
    simp only [objectField, List.forall_mem_cons]
    exact ⟨provides_builtin _ .id, provides_builtin _ .int, List.forall_mem_nil _⟩

theorem wellFormed_objectType (some : 0 < w.objects) (i : Nat) :
    w.schema.WellFormedType (w.objectType i) := by
  have fields : (w.objectType i).fields = w.objectFields i := rfl
  have names : (w.objectFields i).map (·.name) =
      "id" :: (List.range w.fields).map (numbered "field") := by simp [objectFields]
  have bare : ∀ f ∈ w.objectFields i, f.args = [] := by simp [objectFields]
  refine { fieldNames := ?_, results := ?_, argNames := ?_, argTypes := ?_ } <;> rw [fields]
  · rw [names, List.nodup_cons]
    refine ⟨?_, nodup_numbered "field" _⟩
    intro taken
    obtain ⟨f, -, same⟩ := List.mem_map.mp taken
    exact numbered_ne rfl rfl (by decide) f same
  · rw [objectFields, List.forall_mem_cons, List.forall_mem_map]
    exact ⟨provides_builtin _ .id, fun f _ => provides_fieldReference some i f⟩
  · intro f hf
    rw [bare f hf]
    exact List.nodup_nil
  · intro f hf
    rw [bare f hf]
    exact nofun

theorem wellFormed_unionType (some : 0 < w.objects) (i : Nat) :
    w.schema.WellFormedType (w.unionType i) := by
  refine { inhabited := fun _ => List.cons_ne_nil _ _, members := ?_ }
  show ∀ name ∈ [_, _], _
  simp only [List.forall_mem_cons]
  exact ⟨names_object (Nat.mod_lt _ some), names_object (Nat.mod_lt _ some),
    List.forall_mem_nil _⟩

theorem wellFormed (some : 0 < w.objects) : w.schema.WellFormed where
  roots op name chosen := by
    rw [schema, Schema.roots_ofTypes] at chosen
    cases op <;> cases chosen
  types d member := by
    rw [schema, Schema.types_ofTypes] at member
    rcases mem_types_iff.mp member with rfl | ⟨i, -, rfl⟩ | ⟨-, i, -, rfl⟩
    · exact wellFormed_queryType some
    · exact wellFormed_objectType some i
    · exact wellFormed_unionType some i

/-- Without objects, the query type refers to unions that there are not. -/
theorem not_wellFormed (none : w.objects = 0) (some : 0 < w.unions) : ¬w.schema.WellFormed := by
  intro sound
  have only : w.schema.types = [w.queryType] := by
    simp [schema, types, unionTypes, none]
  have query := sound.types w.queryType (by simp [only])
  have field : unionField 0 ∈ w.queryType.fields :=
    List.mem_append_right _ (List.mem_map.mpr ⟨0, List.mem_range.mpr some, rfl⟩)
  rcases query.results _ field with ⟨d, member, named⟩ | ⟨scalar, named⟩
  · rw [only, List.mem_singleton] at member
    subst member
    exact union_ne_query 0 named.symm
  · have apart : scalar.name ≠ "Union0" := by cases scalar <;> decide
    exact apart named

/-! ## Unions -/

theorem filter_union_types (some : 0 < w.objects) :
    w.types.filter (fun d => d.kind = .union) = (List.range w.unions).map w.unionType := by
  have objects : ((List.range w.objects).map w.objectType).filter (fun d => d.kind = .union) =
      [] := by
    rw [List.filter_eq_nil_iff, List.forall_mem_map]
    exact fun i _ => nofun
  have unions : ((List.range w.unions).map w.unionType).filter (fun d => d.kind = .union) =
      (List.range w.unions).map w.unionType := by
    rw [List.filter_eq_self, List.forall_mem_map]
    exact fun i _ => rfl
  have query : (decide (w.queryType.kind = .union)) = false := rfl
  rw [types, unionTypes_of_pos some, List.filter_cons_of_neg (by simp [query]),
    List.filter_append, objects, unions, List.nil_append]

end Synthetic

end ResolverTypes.Workload
