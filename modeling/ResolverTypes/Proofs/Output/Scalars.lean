import ResolverTypes.Proofs.Output.Keys

/-!
# How scalars are represented

A configuration is made from the default one step by step: an override of a scalar, or another type
for custom scalars. Of all steps that name a scalar the last one counts, and it counts more than
what a built-in scalar carries and than the type for custom scalars (`representation_ofSteps`).

Apart from that table a document does not see overrides at all. Two configurations that represent
the scalars of a document alike, and differ in nothing but overrides and the type for custom
scalars, give the same document (`generateDocument_congr`).
-/

namespace ResolverTypes

/-! ## Histories of a configuration -/

namespace Config

/-- A step in making a configuration that is about scalars. -/
inductive ScalarStep where
  | override (name : String) (value : ScalarOverride)
  /-- Another type for custom scalars without an override. -/
  | defaultType (type : String)
deriving DecidableEq, Repr

namespace ScalarStep

def apply (c : Config) : ScalarStep → Config
  | override name value => c.withScalar name value
  | defaultType type => { c with defaultScalarType := type }

/-- The override that the step gives the scalar. -/
def overrideOf? (name : String) : ScalarStep → Option ScalarOverride
  | override n value => if n = name then some value else none
  | defaultType _ => none

/-- The type for custom scalars that the step gives. -/
def defaultType? : ScalarStep → Option String
  | override .. => none
  | defaultType type => some type

end ScalarStep

/-- The configuration that the steps make of the default one. -/
def ofSteps (steps : List ScalarStep) : Config := steps.foldl ScalarStep.apply {}

/-- The override that the scalar was given last. -/
def lastOverride? (steps : List ScalarStep) (name : String) : Option ScalarOverride :=
  (steps.filterMap (·.overrideOf? name)).getLast?

/-- The type for custom scalars that was given last. -/
def lastDefaultType (steps : List ScalarStep) : String :=
  (steps.filterMap (·.defaultType?)).getLast?.getD "any"

/-- The types for values of the scalar that come in and that go out, after the steps. -/
def typesAfter (steps : List ScalarStep) (name : String) : String × String :=
  match lastOverride? steps name with
  | some (.uniform type) => (type, type)
  | some (.split input output) => (input, output)
  | none =>
    match BuiltinScalar.ofName? name with
    | some scalar => (scalar.valueType, scalar.valueType)
    | none => (lastDefaultType steps, lastDefaultType steps)

theorem ofSteps_concat (steps : List ScalarStep) (step : ScalarStep) :
    ofSteps (steps ++ [step]) = step.apply (ofSteps steps) := by
  simp [ofSteps]

/-- A later step takes the place of an earlier one. -/
theorem getLast?_filterMap_concat {α β : Type} (f : α → Option β) (l : List α) (a : α) :
    ((l ++ [a]).filterMap f).getLast? = (f a).or (l.filterMap f).getLast? := by
  rw [List.filterMap_append, List.getLast?_append, List.filterMap_cons, List.filterMap_nil]
  cases f a <;> rfl

/-- The overrides of a configuration are those that were given last. -/
theorem get?_scalars_ofSteps (steps : List ScalarStep) (name : String) :
    (ofSteps steps).scalars.get? name = lastOverride? steps name := by
  induction steps using List.reverseRecOn with
  | nil => rfl
  | append_singleton steps step ih =>
    rw [ofSteps_concat, lastOverride?, getLast?_filterMap_concat, ← lastOverride?]
    cases step with
    | override n value =>
      show ((ofSteps steps).scalars.insert n value).get? name = _
      rw [OrderedMap.get?_insert, ih]
      by_cases same : n = name
      · subst same
        simp [ScalarStep.overrideOf?]
      · have other : ¬name = n := fun h => same h.symm
        simp [ScalarStep.overrideOf?, same, other]
    | defaultType type => exact ih

theorem defaultScalarType_ofSteps (steps : List ScalarStep) :
    (ofSteps steps).defaultScalarType = lastDefaultType steps := by
  induction steps using List.reverseRecOn with
  | nil => rfl
  | append_singleton steps step ih =>
    rw [ofSteps_concat, lastDefaultType, getLast?_filterMap_concat]
    cases step with
    | override n value => exact ih
    | defaultType type => rfl

/-- The last override of a scalar comes first, then the type of a built-in one, then the last type
for custom scalars. -/
theorem representation_ofSteps (steps : List ScalarStep) (name : String) :
    (ofSteps steps).representation name =
      ⟨(typesAfter steps name).1, (typesAfter steps name).2⟩ := by
  unfold representation typesAfter
  rw [get?_scalars_ofSteps, defaultScalarType_ofSteps]
  cases lastOverride? steps name with
  | some value => cases value <;> rfl
  | none => cases BuiltinScalar.ofName? name <;> rfl

theorem typesAfter_congr {steps steps' : List ScalarStep} {name : String}
    (overrides : lastOverride? steps name = lastOverride? steps' name)
    (defaults : lastDefaultType steps = lastDefaultType steps') :
    typesAfter steps name = typesAfter steps' name := by
  rw [typesAfter, overrides, defaults, ← typesAfter]

/-- The steps change overrides and the type for custom scalars, and no other option. -/
theorem ofSteps_eq (steps : List ScalarStep) :
    ofSteps steps =
      { scalars := (ofSteps steps).scalars, defaultScalarType := lastDefaultType steps } := by
  induction steps using List.reverseRecOn with
  | nil => rfl
  | append_singleton steps step ih =>
    rw [← defaultScalarType_ofSteps, ofSteps_concat, ih]
    cases step <;> rfl

end Config

namespace Output

open TypeScript

variable {s : Schema} {g : TypeGraph} {c : Config}

/-! ## The table of scalars -/

/-- The names of all scalars that a document of the schema is about. -/
def documentScalars (s : Schema) : List String :=
  ["ID", "String", "Boolean", "Int", "Float"] ++
    (s.types.filter fun d => d.kind = .scalar).map (·.name)

theorem map_name_customScalars (l : List TypeNode) :
    (l.filter (·.isCustomScalar)).map (·.name) =
      ((l.filterMap (·.definition?)).filter fun d => d.kind = .scalar).map (·.name) := by
  induction l with
  | nil => rfl
  | cons t rest ih =>
    obtain ⟨origin, root⟩ := t
    cases origin with
    | builtin scalar => exact ih
    | declared d =>
      have custom : TypeNode.isCustomScalar ⟨.declared d, root⟩ = decide (d.kind = .scalar) :=
        Bool.and_true _
      rw [List.filter_cons, custom, List.filterMap_cons]
      show _ = (List.filter _ (d :: _)).map _
      rw [List.filter_cons]
      cases decide (d.kind = .scalar) with
      | true => exact congrArg (d.name :: ·) ih
      | false => exact ih

theorem scalarNames_ofSchema (built : s.Built) (nodup : (s.types.map (·.name)).Nodup) :
    scalarNames (.ofSchema s) = documentScalars s := by
  have custom : (TypeGraph.ofSchema s).customScalars =
      (s.types.filter fun d => d.kind = .scalar).map (·.name) := by
    rw [TypeGraph.customScalars, map_name_customScalars]
    exact congrArg (fun l => (List.filter _ l).map _) (TypeGraph.definitions_typesOf built nodup)
  rw [scalarNames, custom]
  rfl

theorem scalarsDeclaration_congr {d : Config}
    (alike : ∀ name ∈ scalarNames g, c.representation name = d.representation name) :
    scalarsDeclaration g c = scalarsDeclaration g d := by
  have properties : (scalarNames g).map (scalarProperty c) =
      (scalarNames g).map (scalarProperty d) := by
    apply List.map_congr_left
    intro name member
    rw [scalarProperty, alike name member, ← scalarProperty]
  rw [scalarsDeclaration, properties, ← scalarsDeclaration]

theorem render_scalarProperty (c : Config) (name : String) :
    (scalarProperty c name).value.render =
      "\x7b input: " ++ (c.representation name).input ++ "; output: " ++
        (c.representation name).output ++ "; \x7d" := by
  generalize texts : c.representation name = types
  have value : (scalarProperty c name).value =
      .inlineObject [("input", .raw types.input), ("output", .raw types.output)] := by
    rw [← texts]
    rfl
  rw [value, TypeExpr.render, String.join]
  simp only [renderInline, TypeExpr.render, propertyText, List.foldl_cons, List.foldl_nil]
  apply String.toList_inj.mp
  simp

/-- No declaration in front of the table of scalars has a name that it shares. -/
theorem find?_scalars (g : TypeGraph) (c : Config) (b : Blueprint) :
    (b.document g c).find? Names.scalars = some (scalarsDeclaration g c) := by
  rw [Blueprint.document, Document.find?, Document.declarations_ofSections]
  rfl

/-! ## Documents of configurations that represent scalars alike -/

theorem generateDocument_congr (built : s.Built) (valid : s.validate = .ok ())
    {m : OrderedMap ScalarOverride} {t : String}
    (usable : c.validate = .ok ())
    (usable' : Config.validate { c with scalars := m, defaultScalarType := t } = .ok ())
    (alike : ∀ name ∈ scalarNames (.ofSchema s), c.representation name =
      Config.representation { c with scalars := m, defaultScalarType := t } name) :
    generateDocument s c = generateDocument s { c with scalars := m, defaultScalarType := t } := by
  rw [generateDocument_eq_ok built valid usable, generateDocument_eq_ok built valid usable']
  -- overrides have no part in what the rest of a document is made from
  unfold Blueprint.document
  rw [scalarsDeclaration_congr alike]
  rfl

/-- How scalars are represented. The table of scalars has a property for every built-in scalar, then
one for every scalar that the schema declares, in the order of their declarations, each once; under
every name stand the types that the last override says, else that of the built-in scalar, else the
last type for custom scalars. It is the declaration that a document has under its name.
Configurations that represent all these scalars alike and agree on all other options give the same
document, so neither the order of overrides matters nor what other names are overridden. -/
theorem scalars_represented (built : s.Built) (nodup : (s.types.map (·.name)).Nodup)
    (valid : s.validate = .ok ()) :
    (documentScalars s).Nodup ∧
    (∀ steps, ∃ properties,
      scalarsDeclaration (.ofSchema s) (Config.ofSteps steps) =
        .typeAlias "Scalars" (.object properties)
          "All built-in and custom scalars, mapped to their actual values" ∧
      properties.map (·.key) = documentScalars s ∧
      ∀ p ∈ properties, p.isOptional = false ∧ p.description = none ∧
        p.value.render =
          "\x7b input: " ++ (Config.typesAfter steps p.key).1 ++ "; output: " ++
            (Config.typesAfter steps p.key).2 ++ "; \x7d") ∧
    (∀ c : Config, c.validate = .ok () → ∃ doc, generateDocument s c = .ok doc ∧
      doc.find? "Scalars" = some (scalarsDeclaration (.ofSchema s) c)) ∧
    (∀ (c : Config) (scalars : OrderedMap ScalarOverride) (type : String),
      let d : Config := { c with scalars, defaultScalarType := type }
      c.validate = .ok () → d.validate = .ok () →
      (∀ name ∈ documentScalars s, c.representation name = d.representation name) →
      ∃ doc, generateDocument s c = .ok doc ∧ generateDocument s d = .ok doc) ∧
    ∀ steps steps', (Config.ofSteps steps).validate = .ok () →
      (Config.ofSteps steps').validate = .ok () →
      (∀ name ∈ documentScalars s,
        Config.lastOverride? steps name = Config.lastOverride? steps' name) →
      Config.lastDefaultType steps = Config.lastDefaultType steps' →
      ∃ doc, generateDocument s (Config.ofSteps steps) = .ok doc ∧
        generateDocument s (Config.ofSteps steps') = .ok doc := by
  have names := scalarNames_ofSchema built nodup
  have congr {c : Config} {m : OrderedMap ScalarOverride} {t : String} :=
    generateDocument_congr (c := c) built valid (m := m) (t := t)
  rw [names] at congr
  have generated {c : Config} (usable : c.validate = .ok ()) :=
    generateDocument_eq_ok built valid usable
  refine ⟨?_, ?_, ?_, ?_, ?_⟩
  · rw [← names]
    exact nodup_scalarNames (built.violations_eq_nil_iff.mp (Schema.validate_eq_ok_iff.mp valid))
  · intro steps
    refine ⟨_, rfl, ?_, ?_⟩
    · rw [List.map_map, names]
      exact List.map_id _
    · rintro p hp
      obtain ⟨name, -, rfl⟩ := List.mem_map.mp hp
      refine ⟨rfl, rfl, ?_⟩
      rw [render_scalarProperty, Config.representation_ofSteps]
      rfl
  · intro c usable
    exact ⟨_, generated usable, find?_scalars _ _ _⟩
  · intro c scalars type d usable usable' alike
    exact ⟨_, generated usable, congr usable usable' alike ▸ generated usable⟩
  · intro steps steps' usable usable' overrides defaults
    -- the steps of either history leave all other options at their defaults
    have same : Config.ofSteps steps' =
        { Config.ofSteps steps with
          scalars := (Config.ofSteps steps').scalars
          defaultScalarType := Config.lastDefaultType steps' } := by
      rw [Config.ofSteps_eq steps, ← Config.ofSteps_eq steps']
    have alike : ∀ name ∈ documentScalars s,
        (Config.ofSteps steps).representation name =
          (Config.ofSteps steps').representation name := by
      intro name member
      rw [Config.representation_ofSteps, Config.representation_ofSteps,
        Config.typesAfter_congr (overrides name member) defaults]
    rw [same] at usable' alike ⊢
    exact ⟨_, generated usable, congr usable usable' alike ▸ generated usable⟩

/-- A built-in scalar with an override whose name an enum takes; two custom scalars, one of them
with two overrides; and the same choices in another order beside an override of nothing. -/
theorem scalars_represented_example :
    let s := Schema.ofTypes
      [⟨"Date", none, .scalar⟩, ⟨"Query", none, .object [] [⟨"at", .named "Date", none, []⟩]⟩,
        ⟨"ID", none, .enum []⟩, ⟨"JSON", none, .scalar⟩] {}
    let steps : List Config.ScalarStep :=
      [.override "Date" (.uniform "never"), .defaultType "unknown",
        .override "ID" (.split "string | number" "string"), .override "Date" (.uniform "Date")]
    let steps' : List Config.ScalarStep :=
      [.override "Ghost" (.uniform "0"), .override "Date" (.uniform "Date"),
        .override "ID" (.split "string | number" "string"), .defaultType "unknown"]
    (∃ properties : List (Property TypeExpr),
      scalarsDeclaration (.ofSchema s) (Config.ofSteps steps) =
        .typeAlias "Scalars" (.object properties)
          "All built-in and custom scalars, mapped to their actual values" ∧
      properties.map (·.key) = ["ID", "String", "Boolean", "Int", "Float", "Date", "JSON"]) ∧
    ["ID", "Int", "Date", "JSON"].map (Config.typesAfter steps) =
      [("string | number", "string"), ("number", "number"), ("Date", "Date"),
        ("unknown", "unknown")] ∧
    ∃ doc, generateDocument s (Config.ofSteps steps) = .ok doc ∧
      generateDocument s (Config.ofSteps steps') = .ok doc := by
  intro s steps steps'
  obtain ⟨-, table, -, -, histories⟩ := scalars_represented
    (s := s) (Schema.built_ofTypes _ _) (by decide) rfl
  obtain ⟨properties, declared, keys, -⟩ := table steps
  refine ⟨⟨properties, declared, keys⟩, by decide, ?_⟩
  exact histories steps steps' (by decide) (by decide) (by decide) (by decide)

end Output

end ResolverTypes
