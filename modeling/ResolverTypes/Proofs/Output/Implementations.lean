import ResolverTypes.Proofs.Output.UnionVariants

/-!
# Who implements an interface

The index of implementations and the function that decides which object type a value of an interface
has list the objects by name, in declaration order. Unlike the members of a union they are not freed
from repetitions: an object is listed once for every time that its definition and extensions name
the interface (`TypeGraph.objectsImplementing_eq`). So the list has every object once exactly if no
object names the interface twice, and is empty exactly if none names it.
-/

namespace ResolverTypes

/-! ## Repeated names -/

section Repetitions

variable {α : Type}

/-- The names of the elements one after the other, each as often as its element counts. -/
def repeatedNames (name : α → String) (count : α → Nat) (l : List α) : List String :=
  l.flatMap fun a => List.replicate (count a) (name a)

/-- The names of the elements that count. -/
def countedNames (name : α → String) (count : α → Nat) (l : List α) : List String :=
  (l.filter fun a => 0 < count a).map name

variable {name : α → String} {count : α → Nat} {l : List α}

theorem mem_repeatedNames {n : String} :
    n ∈ repeatedNames name count l ↔ n ∈ countedNames name count l := by
  simp only [repeatedNames, countedNames, List.mem_flatMap, List.mem_replicate, List.mem_map,
    List.mem_filter, decide_eq_true_iff, Nat.pos_iff_ne_zero]
  exact ⟨fun ⟨a, ha, counts, same⟩ => ⟨a, ⟨ha, counts⟩, same.symm⟩,
    fun ⟨a, ⟨ha, counts⟩, same⟩ => ⟨a, ha, counts, same.symm⟩⟩

theorem countedNames_sublist : (countedNames name count l).Sublist (l.map name) :=
  List.filter_sublist.map name

theorem firstOccurrences_repeatedNames (nodup : (l.map name).Nodup) :
    FirstOccurrences (repeatedNames name count l) (countedNames name count l) := by
  refine ⟨fun n => mem_repeatedNames.symm, ?_⟩
  induction l with
  | nil => exact .nil
  | cons a l ih =>
    obtain ⟨fresh, nodup⟩ := List.nodup_cons.mp nodup
    -- names of later elements stand behind all repetitions of the first one
    have later {n : String} (hn : n ∈ countedNames name count l) :
        (repeatedNames name count (a :: l)).idxOf n =
          count a + (repeatedNames name count l).idxOf n := by
      have behind : n ∉ List.replicate (count a) (name a) := by
        intro here
        rw [List.eq_of_mem_replicate here] at hn
        exact fresh (countedNames_sublist.subset hn)
      rw [repeatedNames, List.flatMap_cons, List.idxOf_append_of_notMem behind,
        List.length_replicate]
      rfl
    have ordered : (countedNames name count l).Pairwise fun m n =>
        (repeatedNames name count (a :: l)).idxOf m <
          (repeatedNames name count (a :: l)).idxOf n := by
      refine (ih nodup).imp_of_mem ?_
      intro m n hm hn earlier
      rw [later hm, later hn]
      omega
    by_cases counts : 0 < count a
    · have split : countedNames name count (a :: l) = name a :: countedNames name count l := by
        simp [countedNames, counts]
      rw [split, List.pairwise_cons]
      refine ⟨fun n hn => ?_, ordered⟩
      have first : (repeatedNames name count (a :: l)).idxOf (name a) = 0 := by
        obtain ⟨k, same⟩ : ∃ k, count a = k + 1 := ⟨count a - 1, by omega⟩
        simp [repeatedNames, same, List.replicate_succ]
      rw [first, later hn]
      omega
    · have same : countedNames name count (a :: l) = countedNames name count l := by
        simp [countedNames, counts]
      rwa [same]

/-- No name is repeated exactly if no element counts more than once. -/
theorem repeatedNames_eq_iff (nodup : (l.map name).Nodup) :
    repeatedNames name count l = countedNames name count l ↔ ∀ a ∈ l, count a ≤ 1 := by
  constructor
  · intro same a ha
    have once : (repeatedNames name count l).Nodup := by
      rw [same]
      exact nodup.sublist countedNames_sublist
    exact List.nodup_replicate.mp ((List.nodup_flatMap.mp once).1 a ha)
  · intro once
    induction l with
    | nil => rfl
    | cons a l ih =>
      have rest := ih (List.nodup_cons.mp nodup).2 fun b hb => once b (.tail a hb)
      obtain none | one : count a = 0 ∨ count a = 1 := by
        have atMost := once a List.mem_cons_self
        omega
      · simpa [repeatedNames, countedNames, none] using rest
      · simpa [repeatedNames, countedNames, one] using rest

end Repetitions

/-! ## The index of implementations -/

/-- The objects that name the interface, in declaration order. -/
def Schema.implementers (s : Schema) (interface : String) : List String :=
  (s.types.filter fun d => d.kind = .object ∧ interface ∈ d.interfaces).map (·.name)

namespace TypeGraph

variable {s : Schema}

/-- The index lists an object once for every time that it names the interface. -/
theorem objectsImplementing_eq (interface : String) :
    (ofSchema s).objectsImplementing interface =
      repeatedNames (·.name) (fun d => d.interfaces.count interface)
        (s.types.filter fun d => d.kind = .object) := by
  rw [objectsImplementing_ofSchema]
  refine List.flatMap_congr fun d _ => ?_
  rw [List.map_const', ← List.countP_eq_length_filter]
  rfl

theorem implementers_eq (interface : String) :
    s.implementers interface = countedNames (·.name) (fun d => d.interfaces.count interface)
      (s.types.filter fun d => d.kind = .object) := by
  simp only [Schema.implementers, countedNames, List.filter_filter, List.count_pos_iff,
    Bool.decide_and, Bool.and_comm]

/-- Every interface has an entry in the index. -/
theorem get?_implementations {d : TypeDef} (hd : d ∈ s.types) (kind : d.kind = .interface) :
    (ofSchema s).implementations.get? d.name = some ((ofSchema s).objectsImplementing d.name) := by
  have declared (names : List String) (m : OrderedMap (List String)) (member : d.name ∈ names) :
      d.name ∈ (names.foldl (fun m name => m.insertIfNew name []) m).keys := by
    induction names generalizing m with
    | nil => cases member
    | cons name rest ih =>
      rcases List.mem_cons.mp member with rfl | member
      · exact OrderedMap.mem_keys_foldl
          (fun _ _ there => OrderedMap.mem_keys_insertIfNew.mpr (.inr there))
          (OrderedMap.mem_keys_insertIfNew.mpr (.inl rfl)) rest
      · exact ih _ member
  have interface : d.name ∈ s.namesOfKind .interface :=
    List.mem_map_of_mem (List.mem_filter.mpr ⟨hd, decide_eq_true kind⟩)
  have there : d.name ∈ (implementationsOf s).keys := by
    refine OrderedMap.mem_keys_foldl (fun m e there => ?_) (declared _ ∅ interface) _
    exact OrderedMap.mem_keys_foldl
      (fun m i there => OrderedMap.mem_keys_insert.mpr (.inr there)) there _
  obtain ⟨names, entry⟩ := OrderedMap.mem_keys_iff.mp there
  have entry : (ofSchema s).implementations.get? d.name = some names := entry
  rw [objectsImplementing, entry, Option.getD_some]

end TypeGraph

/-! ## Where implementations are listed -/

namespace TypeDef

/-- An object has its own interfaces in front of those of its extensions. -/
theorem interfaces_extendedBy {d : TypeDef} (extensions : List TypeDef) (object : d.kind = .object) :
    (d.extendedBy extensions).interfaces = d.interfaces ++ extensions.flatMap (·.interfaces) := by
  obtain ⟨name, description, body⟩ := d
  cases body with
  | object interfaces fields => rfl
  | interface | union | scalar | enum | inputObject => cases object

end TypeDef

namespace Output

open TypeScript

variable {s : Schema} {c : Config}

/-- Whether the objects that implement an interface are `names` wherever they are listed. -/
structure ImplementedBy (g : TypeGraph) (contracts : List Contract) (interface : String)
    (names : List String) : Prop where
  index : g.implementations.get? interface = some names
  /-- The function that decides which object type a value of the interface has. -/
  resolveType : ∃ contract possible,
    (contracts.filter fun k => k.typeName = interface) = [contract] ∧
    contract.resolveType = some (resolveTypeSignature possible) ∧
    (possible = .raw "null" ↔ names = []) ∧
    (names ≠ [] → possible.render = " | ".intercalate (names.map fun a => "'" ++ a ++ "'"))

theorem possibleTypes_eq_null_iff {names : List String} :
    possibleTypes names = .raw "null" ↔ names = [] := by
  cases names <;> simp [possibleTypes]

theorem render_possibleTypes {names : List String} (inhabited : names ≠ []) :
    (possibleTypes names).render = " | ".intercalate (names.map fun a => "'" ++ a ++ "'") := by
  rw [possibleTypes, if_neg (by simpa using inhabited), TypeExpr.render_union_map]
  simp only [TypeExpr.render]

theorem implementedBy_objectsImplementing (built : s.Built) {i : TypeDef}
    (found : s.find? i.name = some i) (interface : i.kind = .interface) :
    ImplementedBy (.ofSchema s) (blueprintOf (.ofSchema s) c).contracts i.name
      ((TypeGraph.ofSchema s).objectsImplementing i.name) := by
  let g := TypeGraph.ofSchema s
  have node : g.types.get? i.name = some (TypeGraph.declaredNode s i) :=
    TypeGraph.get?_typesOf_of_find? built found
  have kind : (TypeGraph.declaredNode s i).kind = .interface := interface
  refine ⟨TypeGraph.get?_implementations (built.mem_of_find? found).1 interface, ?_⟩
  show ∃ contract possible,
    ((Contract.ofGraph g c _).filter fun k => k.typeName = i.name) = [contract] ∧ _
  rw [filter_contracts (g := g) (fun _ _ => TypeGraph.name_of_get?_typesOf), node, Option.bind_some]
  unfold Contract.ofNode?
  rw [kind]
  exact ⟨_, _, rfl, rfl, possibleTypes_eq_null_iff, render_possibleTypes⟩

/-- Who implements the interfaces of a document that is accepted. An object implements what its
definition and then its extensions list. An interface has one list of the objects that implement it,
in declaration order and each as often as it lists the interface; the list is empty exactly if no
object does, and then the function that decides which type a value has chooses from null. The list
has every object once exactly if no object lists the interface twice. -/
theorem implementations_listed {text : String} (described : Schema.ofDocument text = .ok s)
    (valid : s.validate = .ok ()) (usable : c.validate = .ok ()) :
    let g := TypeGraph.ofSchema s
    ∃ definitions b, Sdl.definitions text = .ok definitions ∧ Blueprint.ofGraph g c = .ok b ∧
      (∀ d ∈ s.types, d.kind = .object → ∃ base ∈ Sdl.bases definitions, base.name = d.name ∧
        d.interfaces = base.interfaces ++
          ((Sdl.extensions definitions).filter fun e => e.name = d.name).flatMap (·.interfaces)) ∧
      ∀ i ∈ s.types, i.kind = .interface → ∃ names,
        ImplementedBy g b.contracts i.name names ∧
        names = repeatedNames (·.name) (fun d => d.interfaces.count i.name)
          (s.types.filter fun d => d.kind = .object) ∧
        (names = [] ↔ ∀ d ∈ s.types, d.kind = .object → i.name ∉ d.interfaces) ∧
        FirstOccurrences names (s.implementers i.name) ∧
        (names = s.implementers i.name ↔
          ∀ d ∈ s.types, d.kind = .object → d.interfaces.count i.name ≤ 1) := by
  intro g
  have built : s.Built := .of_ofDocument described
  have sound : g.Sound := TypeGraph.sound_ofSchema built valid
  obtain ⟨definitions, read, described⟩ := Schema.of_ofDocument described
  have nodup := Schema.nodup_of_ofDefinitions described
  have objects : ((s.types.filter fun d => d.kind = .object).map (·.name)).Nodup :=
    nodup.sublist (List.filter_sublist.map _)
  refine ⟨definitions, _, read, Blueprint.ofGraph_eq_ok sound usable, ?_, ?_⟩
  · intro d hd object
    obtain ⟨base, hb, rfl⟩ := (Schema.mem_types_of_ofDefinitions described).mp hd
    rw [TypeDef.kind_extendedBy] at object
    exact ⟨base, hb, rfl, TypeDef.interfaces_extendedBy _ object⟩
  · intro i hi interface
    have found : s.find? i.name = some i := (built.find?_eq_some_iff nodup).mpr ⟨hi, rfl⟩
    refine ⟨_, implementedBy_objectsImplementing built found interface, ?_⟩
    rw [TypeGraph.objectsImplementing_eq, TypeGraph.implementers_eq]
    refine ⟨rfl, ?_, firstOccurrences_repeatedNames objects, ?_⟩
    · simp [repeatedNames, List.replicate_eq_nil_iff, List.count_eq_zero]
    · rw [repeatedNames_eq_iff objects]
      simp

/-- Two objects, one of which names the interface in an extension, and an interface without any. -/
theorem implementations_listed_example :
    let text := "interface I type B implements I type A extend type A implements I interface K"
    ∃ s b, Schema.ofDocument text = .ok s ∧ Blueprint.ofGraph (.ofSchema s) {} = .ok b ∧
      ImplementedBy (.ofSchema s) b.contracts "I" ["B", "A"] ∧
      ImplementedBy (.ofSchema s) b.contracts "K" [] := by
  intro text
  let interface (name : String) : TypeDef := ⟨name, none, .interface [] []⟩
  let object (name : String) (interfaces : List String) : TypeDef :=
    ⟨name, none, .object interfaces []⟩
  let definitions : List Sdl.Definition :=
    [.type false (interface "I"), .type false (object "B" ["I"]), .type false (object "A" []),
      .type true (object "A" ["I"]), .type false (interface "K")]
  let s := Schema.ofTypes (Sdl.describedTypes definitions) {}
  have read : Sdl.definitions text = .ok definitions := by decide +kernel
  have described : Schema.ofDocument text = .ok s :=
    (Schema.ofDocument_eq read).trans (Schema.ofDefinitions_eq definitions)
  obtain ⟨-, b, -, made, -, listed⟩ :=
    implementations_listed (c := {}) described rfl (by decide)
  refine ⟨s, b, described, made, ?_, ?_⟩
  · obtain ⟨names, implemented, rfl, -⟩ := listed (interface "I") (by decide) rfl
    exact implemented
  · obtain ⟨names, implemented, -, none, -⟩ := listed (interface "K") (by decide) rfl
    rw [none.mpr (by decide)] at implemented
    exact implemented

/-- An object that names an interface twice is listed twice. -/
theorem implementation_repeated :
    let text := "type Query { a: Int } interface I { a: Int } type A implements I & I { a: Int }"
    ∃ s b, Schema.ofDocument text = .ok s ∧ s.validate = .ok () ∧
      Blueprint.ofGraph (.ofSchema s) {} = .ok b ∧ s.implementers "I" = ["A"] ∧
      ImplementedBy (.ofSchema s) b.contracts "I" ["A", "A"] := by
  intro text
  let a : Field := { name := "a", type := .named "Int" }
  let interface : TypeDef := ⟨"I", none, .interface [] [a]⟩
  let definitions : List Sdl.Definition :=
    [.type false ⟨"Query", none, .object [] [a]⟩, .type false interface,
      .type false ⟨"A", none, .object ["I", "I"] [a]⟩]
  let s := Schema.ofTypes (Sdl.describedTypes definitions) {}
  have read : Sdl.definitions text = .ok definitions := by decide +kernel
  have described : Schema.ofDocument text = .ok s :=
    (Schema.ofDocument_eq read).trans (Schema.ofDefinitions_eq definitions)
  have built : s.Built := .of_ofDocument described
  have valid : s.validate = .ok () := rfl
  have implemented := implementedBy_objectsImplementing (c := {}) built
    (show s.find? interface.name = some interface by decide) rfl
  have twice : (TypeGraph.ofSchema s).objectsImplementing interface.name = ["A", "A"] := by decide
  rw [twice] at implemented
  exact ⟨s, _, described, valid,
    Blueprint.ofGraph_eq_ok (TypeGraph.sound_ofSchema built valid) (by decide), by decide,
    implemented⟩

end Output

end ResolverTypes
