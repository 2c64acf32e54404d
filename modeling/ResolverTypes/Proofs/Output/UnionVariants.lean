import Mathlib.Data.List.Pairwise
import ResolverTypes.Proofs.Output.Lookup
import ResolverTypes.Proofs.Output.TypeTable
import ResolverTypes.Proofs.Output.Document
import ResolverTypes.Proofs.Sdl.Assembly
import ResolverTypes.Proofs.TypeScript.Printer

/-!
# Where the variants of a union are written

The members of a union are written in three places, each of which leaves repetitions out on its
own: in `ResolversUnionTypes`, in the alias for the values of the union, and in the function that
decides which of its types a value has. All three list the members as they first occur
(`FirstOccurrences`), and no union has a say in what another one lists (`variants_listed`).
-/

namespace ResolverTypes

/-! ## First occurrences -/

/-- Whether `m` has the elements of `l`, each once, in the order in which they first occur. -/
structure FirstOccurrences (l m : List String) : Prop where
  mem_iff : ∀ a, a ∈ m ↔ a ∈ l
  ordered : m.Pairwise fun a b => l.idxOf a < l.idxOf b

theorem firstOccurrences_eraseDups (l : List String) : FirstOccurrences l l.eraseDups := by
  -- from the back, as an ordered set is filled: an element is dropped or comes last
  induction l using List.reverseRecOn with
  | nil => exact ⟨by simp, by simp⟩
  | append_singleton l a ih =>
    have before {b : String} (hb : b ∈ l.eraseDups) : (l ++ [a]).idxOf b = l.idxOf b :=
      List.idxOf_append_of_mem ((ih.mem_iff b).mp hb)
    have ordered : l.eraseDups.Pairwise fun b c => (l ++ [a]).idxOf b < (l ++ [a]).idxOf c := by
      refine ih.ordered.imp_of_mem ?_
      intro b c hb hc earlier
      rw [before hb, before hc]
      exact earlier
    rw [List.eraseDups_append]
    by_cases seen : a ∈ l
    · have none : [a].removeAll l = [] := by simp [List.removeAll, seen]
      rw [none, List.eraseDups_nil, List.append_nil]
      refine ⟨fun b => ?_, ordered⟩
      rw [ih.mem_iff, List.mem_append, List.mem_singleton]
      exact ⟨.inl, fun h => h.elim id fun same => same ▸ seen⟩
    · have kept : ([a].removeAll l).eraseDups = [a] := by
        simp [List.removeAll, seen, List.eraseDups_cons]
      rw [kept]
      constructor
      · intro b
        rw [List.mem_append, List.mem_append, ih.mem_iff]
      · refine List.pairwise_append.mpr ⟨ordered, by simp, ?_⟩
        intro b hb c hc
        rw [List.mem_singleton.mp hc, before hb, List.idxOf_append_of_notMem seen]
        have inside := List.idxOf_lt_length_of_mem ((ih.mem_iff b).mp hb)
        omega

/-- There is one such list only. -/
theorem FirstOccurrences.unique {l m n : List String} (hm : FirstOccurrences l m)
    (hn : FirstOccurrences l n) : m = n := by
  have distinct {m : List String} (hm : FirstOccurrences l m) : m.Nodup :=
    hm.ordered.imp fun earlier same => absurd earlier (by rw [same]; omega)
  have perm : m.Perm n := by
    rw [List.perm_ext_iff_of_nodup (distinct hm) (distinct hn)]
    exact fun a => (hm.mem_iff a).trans (hn.mem_iff a).symm
  exact perm.eq_of_pairwise (fun a b _ _ earlier later => by omega) hm.ordered hn.ordered

namespace Output

open TypeScript

variable {g : TypeGraph} {s : Schema}

/-! ## The three places -/

theorem render_variants (u : UnionVariants) :
    u.variants.render = " | ".intercalate (u.members.map fun a => "( " ++ a ++ " )") := by
  rw [UnionVariants.variants, TypeExpr.render_union_map]
  simp only [TypeExpr.render, TypeExpr.render_name]

theorem render_literals (u : UnionVariants) :
    u.literals.render = " | ".intercalate (u.members.map fun a => "'" ++ a ++ "'") := by
  rw [UnionVariants.literals, TypeExpr.render_union_map]
  simp only [TypeExpr.render]

theorem render_resolveTypeSignature (possible : TypeExpr) :
    (resolveTypeSignature possible).render =
      "TypeResolveFn<" ++ possible.render ++ ", ParentType, ContextType>" := by
  have parts : renderTypes (possible :: parentAndContext) =
      [possible.render, "ParentType", "ContextType"] := by
    simp only [parentAndContext, renderTypes, TypeExpr.render_name]
    rfl
  rw [resolveTypeSignature, TypeExpr.render, parts]
  show "TypeResolveFn" ++ ("<" ++ (possible.render ++ ", " ++ "ParentType" ++ ", " ++
    "ContextType") ++ ">") = _
  rw [show "TypeResolveFn<" = "TypeResolveFn" ++ "<" from rfl]
  simp only [String.append_assoc]
  rfl

/-- The alias for the values of a union. -/
def unionAlias (d : TypeDef) : Declaration :=
  .typeAlias d.name (.union (d.members.eraseDups.map .name)) d.description

theorem typeDeclarations_union {d : TypeDef} (union : d.kind = .union) :
    typeDeclarations g d = [unionAlias d] := by
  unfold typeDeclarations
  rw [TypeGraph.body_of_kind_union union]
  rfl

theorem render_unionAlias (d : TypeDef) :
    (unionAlias d).form.render =
      "export type " ++ d.name ++ " = " ++ " | ".intercalate d.members.eraseDups ++ ";" := by
  have members : (TypeExpr.union (d.members.eraseDups.map .name)).render =
      " | ".intercalate d.members.eraseDups := by
    rw [TypeExpr.render_union_map]
    simp only [TypeExpr.render_name, List.map_id']
  show "export type " ++ d.name ++ "" ++ " = " ++ (TypeExpr.union _).render ++ ";" = _
  rw [members, String.append_empty]

/-- The variants of a union stand under its name. -/
theorem property?_declaration? {unions : List UnionVariants} {d : Declaration}
    (declared : UnionVariants.declaration? unions = some d) (name : String) :
    d.property? name = (UnionVariants.find? unions name).map (·.variants) := by
  unfold UnionVariants.declaration? at declared
  split at declared
  · cases declared
  · rw [← Option.some.inj declared]
    show ((unions.map _).find? _).map _ = _
    rw [List.find?_map, Option.map_map]
    rfl

theorem keys?_declaration? {unions : List UnionVariants} {d : Declaration}
    (declared : UnionVariants.declaration? unions = some d) :
    d.keys? = some (unions.map (·.name)) := by
  unfold UnionVariants.declaration? at declared
  split at declared
  · cases declared
  · rw [← Option.some.inj declared]
    show some ((unions.map _).map _) = _
    rw [List.map_map]
    rfl

theorem declaration?_eq_none_iff {unions : List UnionVariants} :
    UnionVariants.declaration? unions = none ↔ unions = [] := by
  unfold UnionVariants.declaration?
  cases unions <;> simp

/-! ## Members of described unions -/

/-- In the graph of a schema that a document describes, a union has the members of its base
definition in front of those of its extensions. -/
theorem members_of_ofDefinitions {definitions : List Sdl.Definition}
    (described : Schema.ofDefinitions definitions = .ok s) {t : TypeNode}
    (ht : t ∈ (TypeGraph.ofSchema s).ofKind .union) :
    ∃ base ∈ Sdl.bases definitions, base.name = t.name ∧ t.members = base.members ++
      ((Sdl.extensions definitions).filter fun e => e.name = t.name).flatMap (·.members) := by
  obtain ⟨ht, union⟩ := List.mem_filter.mp ht
  have union : t.kind = .union := of_decide_eq_true union
  obtain ⟨d, definition⟩ := TypeGraph.exists_definition (t := t) (by rw [union]; nofun)
  obtain ⟨kind, name, -, members⟩ := TypeGraph.of_definition? definition
  have declared := (TypeGraph.mem_types_of_definition? ht definition).1
  obtain ⟨base, hb, rfl⟩ := (Schema.mem_types_of_ofDefinitions described).mp declared
  rw [TypeDef.name_extendedBy] at name
  rw [TypeDef.kind_extendedBy, union] at kind
  refine ⟨base, hb, name, ?_⟩
  rw [← members, TypeDef.members_extendedBy _ kind, name]

/-- If the names are distinct, the variants of a schema that is accepted are those of its unions in
declaration order. -/
theorem unions_ofSchema (built : s.Built) (nodup : (s.types.map (·.name)).Nodup)
    (valid : s.validate = .ok ()) :
    UnionVariants.ofGraph (.ofSchema s) =
      .ok ((s.types.filter fun d => d.kind = .union).map
        fun d => ⟨d.name, d.members.eraseDups⟩) := by
  have alike (t : TypeNode) : variantsOf? t = t.definition?.bind fun d =>
      if d.kind = .union then some ⟨d.name, d.members.eraseDups⟩ else none := by
    obtain ⟨origin, root⟩ := t
    cases origin <;> rfl
  rw [unions_eq_ok (TypeGraph.sound_ofSchema built valid), map_variantsOf,
    List.filterMap_congr fun t _ => alike t, ← List.filterMap_filterMap]
  show Except.ok (List.filterMap _ ((TypeGraph.typesOf s).values.filterMap _)) = _
  rw [TypeGraph.definitions_typesOf built nodup, ← List.filterMap_eq_filter, List.map_filterMap]
  congr 1
  apply List.filterMap_congr
  intro d _
  by_cases union : d.kind = .union <;> simp [Option.guard, union]

/-! ## All places together -/

/-- Whether the variants of a union are `m` wherever they are written. -/
structure ListedAs (g : TypeGraph) (c : Config) (unions : List UnionVariants) (t : TypeNode)
    (m : List String) : Prop where
  /-- There is one list of variants for the union. -/
  once : (unions.filter fun u => u.name = t.name) = [⟨t.name, m⟩]
  /-- The entry of the union in `ResolversUnionTypes`: `( A ) | ( B )`. -/
  variants : ∃ d type, UnionVariants.declaration? unions = some d ∧
    d.property? t.name = some type ∧
    type.render = " | ".intercalate (m.map fun a => "( " ++ a ++ " )")
  /-- The alias for the values of the union. -/
  values : ∃ definition d, t.definition? = some definition ∧
    typeDeclarations g definition = [d] ∧ d ∈ shapeDeclarations g ∧
    d.form.render = "export type " ++ t.name ++ " = " ++ " | ".intercalate m ++ ";"
  /-- The function that decides which of its types a value of the union has. -/
  resolveType : ∃ contract signature,
    ((Contract.ofGraph g c unions).filter fun k => k.typeName = t.name) = [contract] ∧
    contract.resolveType = some signature ∧
    signature.render = "TypeResolveFn<" ++ " | ".intercalate (m.map fun a => "'" ++ a ++ "'") ++
      ", ParentType, ContextType>"

theorem listedAs_eraseDups (sound : g.Sound) (c : Config) {t : TypeNode}
    (ht : t ∈ g.ofKind .union) :
    ListedAs g c ((g.ofKind .union).map variantsOf) t t.members.eraseDups := by
  obtain ⟨member, union⟩ := List.mem_filter.mp ht
  have union : t.kind = .union := of_decide_eq_true union
  have node : g.types.get? t.name = some t := get?_name sound member
  have own : variantsOf? t = some (variantsOf t) := if_pos union
  have found := find?_variants sound.named t.name
  rw [node, Option.bind_some, own] at found
  refine ⟨?_, ?_, ?_, ?_⟩
  · rw [filter_variants sound.named, node, Option.bind_some, own]
    rfl
  · obtain ⟨d, declared⟩ := exists_variants (mem_unionNames member union)
    refine ⟨d, (variantsOf t).variants, declared, ?_, render_variants _⟩
    rw [property?_declaration? declared, found]
    rfl
  · obtain ⟨d, definition⟩ := TypeGraph.exists_definition (t := t) (by rw [union]; nofun)
    obtain ⟨kind, name, -, members⟩ := TypeGraph.of_definition? definition
    have made := typeDeclarations_union (g := g) (kind.trans union)
    refine ⟨d, unionAlias d, definition, made, ?_, ?_⟩
    · have hd := List.mem_filterMap.mpr ⟨t, member, definition⟩
      exact List.mem_flatMap.mpr ⟨d, hd, by rw [made]; exact List.mem_cons_self⟩
    · rw [render_unionAlias, name, members]
  · rw [filter_contracts sound.named, node, Option.bind_some]
    unfold Contract.ofNode?
    rw [union, found]
    refine ⟨_, _, rfl, rfl, ?_⟩
    rw [render_resolveTypeSignature, render_literals]
    rfl

/-- In a schema that is accepted the variants of every union are its members, each once and in the
order of first occurrence, wherever they are written. `ResolversUnionTypes` has an entry for every
union in type order, and is left out if there is none. The members of a union of a document are
those of its definition, followed by those of its extensions. -/
theorem variants_listed (built : s.Built) (valid : s.validate = .ok ()) (c : Config) :
    let g := TypeGraph.ofSchema s
    ∃ unions, UnionVariants.ofGraph g = .ok unions ∧
      (UnionVariants.declaration? unions = none ↔ g.ofKind .union = []) ∧
      (∀ d, UnionVariants.declaration? unions = some d →
        d.keys? = some ((g.types.values.filter fun t => t.kind = .union).map (·.name))) ∧
      (∀ t ∈ g.ofKind .union,
        ∃ m, FirstOccurrences t.members m ∧ m ≠ [] ∧ ListedAs g c unions t m) ∧
      ∀ definitions, Schema.ofDefinitions definitions = .ok s → ∀ t ∈ g.ofKind .union,
        ∃ base ∈ Sdl.bases definitions, base.name = t.name ∧ t.members = base.members ++
          ((Sdl.extensions definitions).filter fun e => e.name = t.name).flatMap (·.members) := by
  intro g
  have sound : g.Sound := TypeGraph.sound_ofSchema built valid
  refine ⟨_, unions_eq_ok sound, ?_, ?_, ?_, ?_⟩
  · rw [declaration?_eq_none_iff, List.map_eq_nil_iff]
  · intro d declared
    rw [keys?_declaration? declared, List.map_map]
    rfl
  · intro t ht
    have listed := firstOccurrences_eraseDups t.members
    refine ⟨t.members.eraseDups, listed, ?_, listedAs_eraseDups sound c ht⟩
    obtain ⟨a, ha⟩ := List.exists_mem_of_ne_nil _ (sound.inhabited t ht)
    exact List.ne_nil_of_mem ((listed.mem_iff a).mpr ha)
  · exact fun definitions described t ht => members_of_ofDefinitions described ht

/-- Two unions that share a member, where one gets its first member again from an extension. -/
theorem variants_listed_example :
    let object (name : String) : TypeDef := ⟨name, none, .object [] []⟩
    let definitions : List Sdl.Definition :=
      [.type true ⟨"U", none, .union ["A", "C", "A"]⟩, .type false (object "A"),
        .type false ⟨"U", none, .union ["B", "A"]⟩, .type false (object "B"),
        .type false (object "C"), .type false ⟨"V", none, .union ["A", "A"]⟩]
    ∃ s unions d u v, Schema.ofDefinitions definitions = .ok s ∧
      UnionVariants.ofGraph (.ofSchema s) = .ok unions ∧
      UnionVariants.declaration? unions = some d ∧ d.keys? = some ["U", "V"] ∧
      d.property? "U" = some u ∧ u.render = "( B ) | ( A ) | ( C )" ∧
      d.property? "V" = some v ∧ v.render = "( A )" := by
  intro object definitions
  let s := Schema.ofTypes (Sdl.describedTypes definitions) {}
  have described : Schema.ofDefinitions definitions = .ok s := Schema.ofDefinitions_eq definitions
  have built : s.Built := Schema.Built.of_ofDefinitions described
  obtain ⟨unions, made, -, keys, listed, -⟩ := variants_listed built rfl {}
  have listedAs {t : TypeNode} (ht : t ∈ (TypeGraph.ofSchema s).ofKind .union) :
      ListedAs (.ofSchema s) {} unions t t.members.eraseDups := by
    obtain ⟨m, occurrences, -, places⟩ := listed t ht
    rw [(firstOccurrences_eraseDups t.members).unique occurrences]
    exact places
  have first : { origin := .declared ⟨"U", none, .union ["B", "A", "A", "C", "A"]⟩ } ∈
      (TypeGraph.ofSchema s).ofKind .union := by decide
  have second : { origin := .declared ⟨"V", none, .union ["A", "A"]⟩ } ∈
      (TypeGraph.ofSchema s).ofKind .union := by decide
  obtain ⟨d, u, declared, hu, textU⟩ := (listedAs first).variants
  obtain ⟨e, v, same, hv, textV⟩ := (listedAs second).variants
  obtain rfl : d = e := Option.some.inj (declared.symm.trans same)
  refine ⟨s, unions, d, u, v, described, made, declared, ?_, hu, ?_, hv, ?_⟩
  · rw [keys d declared]
    decide
  · rw [textU]
    decide
  · rw [textV]
    decide

end Output

end ResolverTypes
