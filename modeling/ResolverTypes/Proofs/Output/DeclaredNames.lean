import Mathlib.Data.List.Nodup
import Mathlib.Data.List.Pairwise
import ResolverTypes.Proofs.Output.DocumentNames
import ResolverTypes.Proofs.Sdl.Names

/-!
# Names that are declared twice

The names that are made for arguments, contracts and configurations of scalars never meet those made
for something else, since they end differently. Nothing keeps other names of a document apart: two
fields may share the name that is made for their arguments, and a type may be called like a helper
or like a made name. `NamesApart` rules out both, and is all that it takes for no name to be
declared twice (`nodup_declaredNames_iff`).
-/

namespace ResolverTypes

namespace TypeScript

/-- What the text of a declaration of a type begins with. -/
def exportKeywords : List String := ["export type ", "export interface "]

/-- Whether a declaration that is taken over as it is given declares in its text what it is recorded
to declare. -/
def Declaration.statesName (d : Declaration) : Bool :=
  match d.form with
  | .verbatim (some name) text =>
    exportKeywords.any fun keyword => (keyword ++ name ++ "<").toList.isPrefixOf text.toList
  | .verbatim none _ => false
  | _ => true

theorem Declaration.declares?_of_name? {d : Declaration} {name : String}
    (h : d.name? = some name) : d.declares? = some name := by
  obtain ⟨form, description⟩ := d
  cases form with
  | verbatim => cases h
  | imports | typeAlias | enum | interface => exact h

/-- Declarations that declare the same name are one, if no name is declared twice. -/
theorem Document.eq_of_declares? {doc : Document} (nodup : doc.declaredNames.Nodup)
    {d e : Declaration} (hd : d ∈ doc.declarations) (he : e ∈ doc.declarations) {name : String}
    (first : d.declares? = some name) (second : e.declares? = some name) : d = e := by
  by_contra other
  have symmetric : Std.Symm fun d e : Declaration =>
      ∀ m, d.declares? = some m → ∀ n, e.declares? = some n → m ≠ n :=
    ⟨fun _ _ apart m hm n hn same => apart n hn m hm same.symm⟩
  rw [declaredNames, List.Nodup, List.pairwise_filterMap] at nodup
  exact nodup.forall hd he other name first name second rfl

/-- If no name is declared twice, looking up a name finds its declaration. -/
theorem Document.find?_eq_some {doc : Document} (nodup : doc.declaredNames.Nodup)
    {d : Declaration} (hd : d ∈ doc.declarations) {name : String} (named : d.name? = some name) :
    doc.find? name = some d := by
  cases found : doc.find? name with
  | none =>
    rw [find?, List.find?_eq_none] at found
    exact absurd (decide_eq_true named) (found d hd)
  | some e =>
    rw [find?] at found
    have he := List.mem_of_find?_eq_some found
    have same : e.name? = some name := by simpa using List.find?_some found
    rw [Document.eq_of_declares? nodup hd he (Declaration.declares?_of_name? named)
      (Declaration.declares?_of_name? same)]

end TypeScript

namespace Output

open TypeScript

variable {g : TypeGraph} {c : Config}

/-- What keeps the declared names apart. -/
structure NamesApart (g : TypeGraph) : Prop where
  /-- No two fields share the name of the type of their arguments. -/
  args : (argsNames g).Nodup
  /-- No type but a scalar has a name that is taken. -/
  types : ∀ name ∈ baseNames g, name ∉ takenNames g

instance : Decidable (NamesApart g) :=
  decidable_of_iff ((argsNames g).Nodup ∧ ∀ name ∈ baseNames g, name ∉ takenNames g)
    ⟨fun h => ⟨h.1, h.2⟩, fun h => ⟨h.args, h.types⟩⟩

/-! ## Names that never meet -/

/-- The last four characters of a name. -/
def ending (name : String) : List Char := (name.toList.reverse.take 4).reverse

theorem ending_append (a b : String) (long : 4 ≤ b.toList.length) :
    ending (a ++ b) = ending b := by
  rw [ending, ending, String.toList_append, List.reverse_append,
    List.take_append_of_le_length (by rwa [List.length_reverse])]

theorem ending_of_argsNames {name : String} (args : name ∈ argsNames g) :
    ending name = "Args".toList := by
  obtain ⟨t, -, args⟩ := List.mem_flatMap.mp args
  obtain ⟨f, -, rfl⟩ := List.mem_map.mp args
  exact ending_append _ "Args" (by decide)

theorem ending_of_contractNames {name : String} (contract : name ∈ contractNames g) :
    ending name = "vers".toList := by
  obtain ⟨t, -, rfl⟩ := List.mem_map.mp contract
  exact ending_append _ "Resolvers" (by decide)

theorem ending_of_scalarConfigNames {name : String} (config : name ∈ scalarConfigNames g) :
    ending name = "nfig".toList := by
  obtain ⟨scalar, -, rfl⟩ := List.mem_map.mp config
  exact ending_append _ "ScalarConfig" (by decide)

/-- Only one of the helpers is called like something made. -/
theorem ending_of_helperNames (g : TypeGraph) : ∀ name ∈ helperNames g,
    ending name ≠ "Args".toList ∧ ending name ≠ "nfig".toList ∧
      (ending name = "vers".toList → name = Names.resolvers) := by
  unfold helperNames
  cases g.hasUnions <;> decide

theorem nodup_helperNames (g : TypeGraph) : (helperNames g).Nodup := by
  unfold helperNames
  cases g.hasUnions <;> decide

theorem nodup_names (named : ∀ k t, g.types.get? k = some t → t.name = k) (p : TypeNode → Bool) :
    ((g.types.values.filter p).map (·.name)).Nodup := by
  have distinct : (g.types.values.map (·.name)).Nodup := by
    rw [OrderedMap.map_values_eq_keys named]
    exact g.types.nodup_keys
  exact distinct.sublist (List.filter_sublist.map _)

/-- Of the taken names only those for arguments can meet each other. -/
theorem nodup_takenNames_iff (named : ∀ k t, g.types.get? k = some t → t.name = k)
    (nonempty : ∀ t ∈ g.types.values, t.name ≠ "") :
    (takenNames g).Nodup ↔ (argsNames g).Nodup := by
  have contracts : (contractNames g).Nodup := by
    have distinct := (nodup_names named fun t => t.kind ∈ [.object, .interface, .union]).map
      (f := Names.contract) fun _ _ same => String.append_left_inj _ |>.mp same
    rwa [List.map_map] at distinct
  have configs : (scalarConfigNames g).Nodup :=
    (nodup_names named (·.isCustomScalar)).map fun _ _ same => String.append_left_inj _ |>.mp same
  have helpersArgs : ∀ a ∈ helperNames g, ∀ b ∈ argsNames g, a ≠ b := by
    rintro a helper _ args rfl
    exact (ending_of_helperNames g a helper).1 (ending_of_argsNames args)
  have beforeContracts : ∀ a ∈ helperNames g ++ argsNames g, ∀ b ∈ contractNames g, a ≠ b := by
    rintro a earlier _ contract rfl
    have last := ending_of_contractNames contract
    rcases List.mem_append.mp earlier with helper | args
    · -- the helper would be the contract of a type that is called nothing
      have resolvers := (ending_of_helperNames g a helper).2.2 last
      obtain ⟨t, ht, rfl⟩ := List.mem_map.mp contract
      have empty : t.name ++ "Resolvers" = "" ++ "Resolvers" := resolvers
      exact nonempty t (List.mem_filter.mp ht).1 (String.append_left_inj _ |>.mp empty)
    · rw [ending_of_argsNames args] at last
      revert last
      decide
  have beforeConfigs : ∀ a ∈ helperNames g ++ argsNames g ++ contractNames g,
      ∀ b ∈ scalarConfigNames g, a ≠ b := by
    rintro a earlier _ config rfl
    have last := ending_of_scalarConfigNames config
    rcases List.mem_append.mp earlier with earlier | contract
    · rcases List.mem_append.mp earlier with helper | args
      · exact (ending_of_helperNames g a helper).2.1 last
      · rw [ending_of_argsNames args] at last
        revert last
        decide
    · rw [ending_of_contractNames contract] at last
      revert last
      decide
  rw [takenNames, List.nodup_append, List.nodup_append, List.nodup_append]
  constructor
  · intro nodup
    exact nodup.1.1.2.1
  · intro args
    exact ⟨⟨⟨nodup_helperNames g, args, helpersArgs⟩, contracts, beforeContracts⟩, configs,
      beforeConfigs⟩

/-- No name is declared twice exactly if nothing that can meet does. -/
theorem nodup_declaredNames_iff (named : ∀ k t, g.types.get? k = some t → t.name = k)
    (nonempty : ∀ t ∈ g.types.values, t.name ≠ "") :
    (documentFor g c).declaredNames.Nodup ↔ NamesApart g := by
  rw [(declaredNames_perm g c).nodup_iff, List.nodup_append, nodup_takenNames_iff named nonempty]
  constructor
  · rintro ⟨-, args, apart⟩
    exact ⟨args, fun name base taken => apart name base name taken rfl⟩
  · rintro ⟨args, types⟩
    refine ⟨nodup_names named _, args, ?_⟩
    rintro name base _ taken rfl
    exact types name base taken

/-! ## Documents of texts -/

theorem name_ne_empty {s : Schema} (names : ∀ d ∈ s.types, Sdl.IsName d.name) :
    ∀ t ∈ (TypeGraph.ofSchema s).types.values, t.name ≠ "" := by
  intro t ht
  obtain ⟨origin, root⟩ := t
  cases origin with
  | declared d => exact (names d (TypeGraph.mem_types_of_definition? ht rfl).1).ne_empty
  | builtin scalar =>
    show scalar.name ≠ ""
    cases scalar <;> decide

/-- Of a text that is put together it is enough to look at the first piece. -/
theorem statesName_fixed {keyword name first : List Char} {rest : String}
    (exported : String.ofList keyword ∈ exportKeywords)
    (begins : (keyword ++ name ++ ['<']).isPrefixOf first = true) :
    (Preamble.fixed (String.ofList name) (String.ofList first ++ rest)).statesName = true := by
  refine List.any_eq_true.mpr ⟨_, exported, ?_⟩
  rw [List.isPrefixOf_iff_prefix] at begins ⊢
  simp only [String.toList_append, String.toList_ofList]
  exact begins.trans (List.prefix_append _ _)

theorem statesName_of_fixed :
    ∀ d ∈ Preamble.propertyHelpers ++ Preamble.resolverFunctions, d.statesName = true := by
  have type : "export type " ∈ exportKeywords := List.mem_cons_self
  have interface : "export interface " ∈ exportKeywords :=
    List.mem_cons_of_mem _ List.mem_cons_self
  unfold Preamble.propertyHelpers Preamble.resolverFunctions
  simp only [List.cons_append, List.nil_append, String.append_assoc, List.forall_mem_cons]
  refine ⟨?_, ?_, ?_, ?_, ?_, ?_, statesName_fixed interface rfl, ?_, ?_, ?_, nofun⟩
  all_goals exact statesName_fixed type rfl

theorem statesName_of_mem_document {d : Declaration} (hd : d ∈ (documentFor g c).declarations) :
    d.statesName = true := by
  rcases cases_of_mem_document hd with rfl | helper | ⟨name, named⟩
  · rfl
  · exact statesName_of_fixed d helper
  · obtain ⟨form, description⟩ := d
    cases form with
    | verbatim => cases named
    | imports | typeAlias | enum | interface => rfl

/-- The names that a generated document declares are the names of its types but the scalars, and
those of helpers, arguments, contracts and configurations. None is declared twice exactly if no two
fields share the name for their arguments and no such type has a name that is taken otherwise; then
a look-up finds the only declaration of a name. Helpers that are taken over as they are given are
counted by the names in their texts. -/
theorem names_declared {text out : String} {c : Config}
    (generated : generateOfDocument text c = .ok out) :
    ∃ s doc, Schema.ofDocument text = .ok s ∧ generateDocument s c = .ok doc ∧ doc.render = out ∧
      let g := TypeGraph.ofSchema s
      doc.declaredNames.Perm (baseNames g ++ takenNames g) ∧
      (doc.declaredNames.Nodup ↔ NamesApart g) ∧
      (NamesApart g → ∀ d ∈ doc.declarations, ∀ name, d.name? = some name →
        doc.find? name = some d ∧ ∀ e ∈ doc.declarations, e.declares? = some name → e = d) ∧
      ∀ d ∈ doc.declarations, d.statesName = true := by
  obtain ⟨s, doc, described, made, rendered⟩ := of_generateOfDocument generated
  obtain ⟨valid, -, rfl⟩ := of_generateDocument (.of_ofDocument described) made
  have sound := TypeGraph.sound_ofSchema (.of_ofDocument described) valid
  have once := nodup_declaredNames_iff (c := c) sound.named
    (name_ne_empty (Schema.isName_of_ofDocument described))
  refine ⟨s, _, described, made, rendered, declaredNames_perm _ c, once, ?_,
    fun d hd => statesName_of_mem_document hd⟩
  intro apart d hd name named
  have nodup := once.mpr apart
  refine ⟨Document.find?_eq_some nodup hd named, ?_⟩
  intro e he declares
  exact Document.eq_of_declares? nodup he hd declares (Declaration.declares?_of_name? named)

/-- A document with names from all five places. -/
theorem names_declared_example :
    let text := "union U = Query type Query { d(at: Date): Date } scalar Date"
    ∃ s doc d, Schema.ofDocument text = .ok s ∧ generateDocument s {} = .ok doc ∧
      generateOfDocument text {} = .ok doc.render ∧ doc.declaredNames.Nodup ∧
      d.name? = some "Query" ∧ doc.find? "Query" = some d := by
  intro text
  let definitions : List Sdl.Definition :=
    [.type false ⟨"U", none, .union ["Query"]⟩,
      .type false ⟨"Query", none, .object []
        [⟨"d", .named "Date", none, [⟨"at", .named "Date", none, false⟩]⟩]⟩,
      .type false ⟨"Date", none, .scalar⟩]
  let s := Schema.ofTypes (Sdl.describedTypes definitions) {}
  have described : Schema.ofDocument text = .ok s :=
    (Schema.ofDocument_eq (by decide +kernel)).trans (Schema.ofDefinitions_eq definitions)
  obtain ⟨s', doc, described', made, rendered, -, once, found, -⟩ :=
    names_declared (generateOfDocument_eq_ok (c := {}) described rfl (by decide))
  obtain rfl : s' = s := Except.ok.inj (described'.symm.trans described)
  have apart : NamesApart (.ofSchema s) := by decide +kernel
  obtain ⟨-, -, rfl⟩ := of_generateDocument (.of_ofDocument described) made
  have base : "Query" ∈ baseNames (.ofSchema s) := by decide +kernel
  obtain ⟨d, -, named, home⟩ := exists_baseDeclaration base
  have there : d ∈ (documentFor (.ofSchema s) {}).declarations :=
    home.elim enum_mem_document shape_mem_document
  exact ⟨s, _, d, described, made, generateOfDocument_eq_ok described rfl (by decide),
    once.mpr apart, named, (found apart d there _ named).1⟩

/-- Whether the document that is generated for the text by default declares the name twice. -/
def DeclaresTwice (text name : String) : Prop :=
  ∃ s doc, Schema.ofDocument text = .ok s ∧ generateDocument s {} = .ok doc ∧
    generateOfDocument text {} = .ok doc.render ∧ doc.declaredNames.count name = 2 ∧
    ¬doc.declaredNames.Nodup

theorem declaresTwice_of_count {text name : String} {definitions : List Sdl.Definition} {s : Schema}
    (read : Sdl.definitions text = .ok definitions)
    (described : Schema.ofDefinitions definitions = .ok s) (valid : s.validate = .ok ())
    (twice : (baseNames (.ofSchema s) ++ takenNames (.ofSchema s)).count name = 2) :
    DeclaresTwice text name := by
  have described := (Schema.ofDocument_eq read).trans described
  have usable : ({} : Config).validate = .ok () := by decide
  have count : (documentFor (.ofSchema s) {}).declaredNames.count name = 2 :=
    ((declaredNames_perm _ {}).count_eq name).trans twice
  refine ⟨s, _, described, generateDocument_eq_ok (.of_ofDocument described) valid usable,
    generateOfDocument_eq_ok described valid usable, count, ?_⟩
  intro once
  have atMost : (documentFor (.ofSchema s) {}).declaredNames.count name ≤ 1 :=
    List.nodup_iff_count_le_one.mp once name
  omega

/-- Two fields whose names differ in spelling only share the name for their arguments, and nothing
stops a type from being called like a helper. -/
theorem names_repeated :
    DeclaresTwice "type Query { user_name(id: Int): Int userName(id: Int): Int }"
      "QueryUserNameArgs" ∧
    DeclaresTwice "type Query { a: Maybe } type Maybe { b: Int }" "Maybe" := by
  constructor
  · let arg : InputValue := ⟨"id", .named "Int", none, false⟩
    let definitions : List Sdl.Definition :=
      [.type false ⟨"Query", none, .object []
        [⟨"user_name", .named "Int", none, [arg]⟩, ⟨"userName", .named "Int", none, [arg]⟩]⟩]
    have read : Sdl.definitions "type Query { user_name(id: Int): Int userName(id: Int): Int }" =
      .ok definitions := by decide +kernel
    exact declaresTwice_of_count read (Schema.ofDefinitions_eq definitions) rfl (by decide +kernel)
  · let definitions : List Sdl.Definition :=
      [.type false ⟨"Query", none, .object [] [⟨"a", .named "Maybe", none, []⟩]⟩,
        .type false ⟨"Maybe", none, .object [] [⟨"b", .named "Int", none, []⟩]⟩]
    have read : Sdl.definitions "type Query { a: Maybe } type Maybe { b: Int }" =
      .ok definitions := by decide +kernel
    exact declaresTwice_of_count read (Schema.ofDefinitions_eq definitions) rfl (by decide +kernel)

end Output

end ResolverTypes
