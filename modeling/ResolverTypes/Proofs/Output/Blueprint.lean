import ResolverTypes.Generate
import ResolverTypes.Proofs.Sdl.Assembly
import ResolverTypes.Proofs.TypeGraph.Sound

/-!
# Blueprints of accepted schemas

A blueprint can fail for three reasons of its own: the configuration, a reference that leads to no
type of the graph, and a union without members. For a sound graph the last two are out of the
question, so what is left is the configuration (`Blueprint.ofGraph_eq`). The graph of a schema that
is accepted is sound, and there is a document for a schema exactly if it and the configuration are
accepted.
-/

namespace ResolverTypes

namespace TypeGraph

variable {g : TypeGraph}

/-! ## References that lead to a type of the graph -/

theorem unknownReference_eq_nil_iff {referencedBy name : String} :
    g.unknownReference referencedBy name = [] ↔ name ∈ g.types.keys := by
  unfold unknownReference
  rw [← OrderedMap.contains_iff]
  split
  · next h => exact iff_of_true rfl h
  · next h => exact iff_of_false (by simp) h

/-- Both checks of a definition visit the same references, though not in the same order. -/
theorem unknownOfDefinition_eq_nil_iff {d : TypeDef} :
    g.unknownOfDefinition d = [] ↔ ∀ name ∈ d.references, name ∈ g.types.keys := by
  have fields : d.fields.flatMap (g.unknownOfField d.name) = [] ↔
      ∀ name ∈ d.fields.flatMap TypeDef.fieldReferences, name ∈ g.types.keys := by
    simp only [List.flatMap_eq_nil_iff, unknownOfField, unknownOfInput, List.append_eq_nil_iff,
      unknownReference_eq_nil_iff, List.mem_flatMap, TypeDef.fieldReferences, List.mem_cons,
      List.mem_map]
    constructor
    · rintro resolved name ⟨f, hf, rfl | ⟨a, ha, rfl⟩⟩
      · exact (resolved f hf).1
      · exact (resolved f hf).2 a ha
    · intro resolved f hf
      exact ⟨resolved _ ⟨f, hf, .inl rfl⟩, fun a ha => resolved _ ⟨f, hf, .inr ⟨a, ha, rfl⟩⟩⟩
  have inputs : d.body.inputFields.flatMap (g.unknownOfInput d.name) = [] ↔
      ∀ name ∈ d.body.inputFields.map (·.type.innermost), name ∈ g.types.keys := by
    simp only [List.flatMap_eq_nil_iff, unknownOfInput, unknownReference_eq_nil_iff,
      List.forall_mem_map]
  have names (l : List String) : l.flatMap (g.unknownReference d.name) = [] ↔
      ∀ name ∈ l, name ∈ g.types.keys := by
    simp only [List.flatMap_eq_nil_iff, unknownReference_eq_nil_iff]
  -- input fields come before the fields here and last among the references
  unfold unknownOfDefinition
  rw [List.append_eq_nil_iff, List.append_eq_nil_iff, List.append_eq_nil_iff, fields, inputs,
    names, names]
  show _ ↔ ∀ name ∈ d.interfaces ++ d.fields.flatMap TypeDef.fieldReferences ++ d.members ++
    d.body.inputFields.map (·.type.innermost), name ∈ g.types.keys
  simp only [List.forall_mem_append]
  constructor
  · rintro ⟨⟨⟨i, v⟩, f⟩, m⟩
    exact ⟨⟨⟨i, f⟩, m⟩, v⟩
  · rintro ⟨⟨⟨i, f⟩, m⟩, v⟩
    exact ⟨⟨⟨i, v⟩, f⟩, m⟩

theorem Sound.unknownReferences_eq_nil (sound : g.Sound) : g.unknownReferences = [] := by
  rw [unknownReferences, List.flatMap_eq_nil_iff]
  intro d member
  obtain ⟨t, ht, definition⟩ := List.mem_filterMap.mp member
  exact unknownOfDefinition_eq_nil_iff.mpr (sound.resolved t ht d definition)

end TypeGraph

namespace Output

variable {g : TypeGraph} {s : Schema}

/-! ## Unions with members -/

/-- The variants of a union that has members. -/
def variantsOf (t : TypeNode) : UnionVariants := ⟨t.name, t.members.eraseDups⟩

theorem mapM_ofMembers {l : List TypeNode} (inhabited : ∀ t ∈ l, t.members ≠ []) :
    (l.mapM fun t => UnionVariants.ofMembers t.name t.members) = .ok (l.map variantsOf) := by
  induction l with
  | nil => rfl
  | cons t rest ih =>
    have first : UnionVariants.ofMembers t.name t.members = .ok (variantsOf t) := by
      rw [UnionVariants.ofMembers, if_neg (by simpa using inhabited t List.mem_cons_self)]
      rfl
    rw [List.mapM_cons, first, ih fun u hu => inhabited u (List.mem_cons_of_mem t hu)]
    rfl

theorem unions_eq_ok (sound : g.Sound) :
    UnionVariants.ofGraph g = .ok ((g.ofKind .union).map variantsOf) :=
  mapM_ofMembers sound.inhabited

/-! ## Blueprints and documents -/

/-- The blueprint for a graph in which every reference leads to a type and every union has
members. -/
def blueprintOf (g : TypeGraph) (c : Config) : Blueprint :=
  let unions := (g.ofKind .union).map variantsOf
  { unions, table := .ofGraph g c, contracts := Contract.ofGraph g c unions,
    scalars := g.customScalars }

/-- Of a sound graph there is a blueprint unless the configuration is rejected. -/
theorem Blueprint.ofGraph_eq (sound : g.Sound) (c : Config) :
    Blueprint.ofGraph g c =
      match c.validate with
      | .ok () => .ok (blueprintOf g c)
      | .error e => .error (.config e) := by
  unfold Blueprint.ofGraph
  rw [sound.unknownReferences_eq_nil, unions_eq_ok sound]
  cases c.validate <;> rfl

/-- The document for a schema: that of its blueprint, unless the schema or else the configuration is
rejected. -/
theorem generateDocument_eq (built : s.Built) (c : Config) :
    generateDocument s c =
      match s.validate, c.validate with
      | .error e, _ => .error (.schema e)
      | .ok (), .error e => .error (.config e)
      | .ok (), .ok () =>
        .ok ((blueprintOf (.ofSchema s) c).document (.ofSchema s) c) := by
  unfold generateDocument documentOf
  cases valid : s.validate with
  | error e => rfl
  | ok _ =>
    rw [Blueprint.ofGraph_eq (TypeGraph.sound_ofSchema built valid) c]
    cases c.validate <;> rfl

theorem Blueprint.ofGraph_eq_ok (sound : g.Sound) {c : Config} (usable : c.validate = .ok ()) :
    Blueprint.ofGraph g c = .ok (blueprintOf g c) := by
  rw [Blueprint.ofGraph_eq sound, usable]

/-- The document for a schema that is accepted with the configuration. -/
theorem generateDocument_eq_ok (built : s.Built) (valid : s.validate = .ok ()) {c : Config}
    (usable : c.validate = .ok ()) :
    generateDocument s c = .ok ((blueprintOf (.ofSchema s) c).document (.ofSchema s) c) := by
  rw [generateDocument_eq built, valid, usable]

/-- The text for a document whose schema is accepted with the configuration. -/
theorem generateOfDocument_eq_ok {text : String} (described : Schema.ofDocument text = .ok s)
    (valid : s.validate = .ok ()) {c : Config} (usable : c.validate = .ok ()) :
    generateOfDocument text c =
      .ok ((blueprintOf (.ofSchema s) c).document (.ofSchema s) c).render := by
  unfold generateOfDocument generate
  rw [described]
  show (generateDocument s c).map (·.render) = _
  rw [generateDocument_eq_ok (.of_ofDocument described) valid usable]
  rfl

/-- What a document that was generated says of the schema and the configuration. -/
theorem of_generateDocument (built : s.Built) {c : Config} {doc : TypeScript.Document}
    (generated : generateDocument s c = .ok doc) :
    s.validate = .ok () ∧ c.validate = .ok () ∧
      doc = (blueprintOf (.ofSchema s) c).document (.ofSchema s) c := by
  rw [generateDocument_eq built] at generated
  split at generated
  · cases generated
  · cases generated
  · next valid usable =>
    cases generated
    exact ⟨valid, usable, rfl⟩

/-- A text that was generated is that of a document. -/
theorem of_generateOfDocument {text out : String} {c : Config}
    (generated : generateOfDocument text c = .ok out) :
    ∃ s doc, Schema.ofDocument text = .ok s ∧ generateDocument s c = .ok doc ∧
      doc.render = out := by
  unfold generateOfDocument generate at generated
  cases described : Schema.ofDocument text with
  | error e =>
    rw [described] at generated
    cases generated
  | ok s =>
    rw [described] at generated
    change (generateDocument s c).map (·.render) = .ok out at generated
    cases made : generateDocument s c with
    | error e =>
      rw [made] at generated
      cases generated
    | ok doc =>
      rw [made] at generated
      cases generated
      exact ⟨s, doc, rfl, made, rfl⟩

/-- What becomes of a schema. There is a text for it exactly if it and the configuration are
accepted. Otherwise the violation of the schema is reported, or if there is none that of the
configuration; neither a missing type nor an empty union is ever reported in its place. -/
theorem generate_outcomes {s : Schema} (built : s.Built) (c : Config) :
    ((∃ text, generate s c = .ok text) ↔ s.validate = .ok () ∧ c.validate = .ok ()) ∧
    (∀ e, s.validate = .error e → generate s c = .error (.schema e)) ∧
    (∀ e, s.validate = .ok () → c.validate = .error e → generate s c = .error (.config e)) ∧
    (s.validate = .ok () → (TypeGraph.ofSchema s).unknownReferences = [] ∧
      ∃ unions, UnionVariants.ofGraph (.ofSchema s) = .ok unions) := by
  have document := generateDocument_eq built c
  unfold generate
  refine ⟨?_, ?_, ?_, ?_⟩
  · cases valid : s.validate with
    | error e =>
      rw [valid] at document
      rw [document]
      exact iff_of_false nofun nofun
    | ok _ =>
      cases usable : c.validate with
      | error e =>
        rw [valid, usable] at document
        rw [document]
        exact iff_of_false nofun nofun
      | ok _ =>
        rw [valid, usable] at document
        rw [document]
        exact iff_of_true ⟨_, rfl⟩ ⟨rfl, rfl⟩
  · intro e rejected
    rw [document, rejected]
    rfl
  · intro e valid rejected
    rw [document, valid, rejected]
    rfl
  · intro valid
    have sound := TypeGraph.sound_ofSchema built valid
    exact ⟨sound.unknownReferences_eq_nil, _, unions_eq_ok sound⟩

/-- A name that is declared twice, referred to from an argument; a blank option; and a union without
members behind a blank option. -/
theorem generate_outcomes_examples :
    let find : Field := ⟨"find", .named "A", none, [⟨"by", .named "ID", none, false⟩]⟩
    let twice := Schema.ofTypes
      [⟨"A", none, .scalar⟩, ⟨"Query", none, .object [] [find]⟩, ⟨"A", none, .enum []⟩] {}
    let empty := Schema.ofTypes [⟨"U", none, .union []⟩] {}
    let blank : Config := { contextType := " " }
    (∃ text, generate twice {} = .ok text) ∧
    generate twice blank = .error (.config (.invalidValue "contextType" "must not be empty")) ∧
    generate empty blank = .error (.schema (.emptyUnion "U")) := by
  intro find twice empty blank
  refine ⟨?_, ?_, ?_⟩
  · exact (generate_outcomes (Schema.built_ofTypes _ _) {}).1.mpr ⟨rfl, rfl⟩
  · exact (generate_outcomes (Schema.built_ofTypes _ _) blank).2.2.1 _ rfl (by decide)
  · exact (generate_outcomes (Schema.built_ofTypes _ _) blank).2.1 _ rfl

end Output

end ResolverTypes
