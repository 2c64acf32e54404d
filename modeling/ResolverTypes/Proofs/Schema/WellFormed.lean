import ResolverTypes.Proofs.Schema.Validation

/-!
# Well-formed schemas

What validation asks for, said of the list of definitions and the explicit roots alone. A name that
is defined more than once stands for its last definition, and every definition is looked at, also
those that a later one of the same name has superseded. `Built.violations_eq_nil_iff` says that the
violations of a built schema are exhausted by this: there is none exactly if it is well-formed.
-/

namespace ResolverTypes.Schema

/-- Whether the name stands for the definition: it is the last one of that name. -/
def StandsFor (s : Schema) (name : String) (d : TypeDef) : Prop :=
  ∃ before after, s.types = before ++ d :: after ∧ d.name = name ∧ ∀ e ∈ after, e.name ≠ name

/-- Whether the name stands for a definition of that kind. -/
def Names (s : Schema) (name : String) (kind : TypeKind) : Prop :=
  ∃ d, s.StandsFor name d ∧ d.kind = kind

/-- Whether some definition has the name. -/
def Declares (s : Schema) (name : String) : Prop := ∃ d ∈ s.types, d.name = name

/-- Whether the name is that of a declared type or of a built-in scalar. -/
def Provides (s : Schema) (name : String) : Prop :=
  s.Declares name ∨ ∃ scalar : BuiltinScalar, scalar.name = name

/-- What is asked of a definition. Parts that its kind does not have ask for nothing. -/
structure WellFormedType (s : Schema) (d : TypeDef) : Prop where
  interfaces : ∀ name ∈ d.interfaces, s.Names name .interface := by nofun
  fieldNames : (d.fields.map (·.name)).Nodup := by exact List.nodup_nil
  results : ∀ f ∈ d.fields, s.Provides f.type.innermost := by nofun
  argNames : ∀ f ∈ d.fields, (f.args.map (·.name)).Nodup := by nofun
  argTypes : ∀ f ∈ d.fields, ∀ a ∈ f.args, s.Provides a.type.innermost := by nofun
  inputNames : (d.body.inputFields.map (·.name)).Nodup := by exact List.nodup_nil
  inputTypes : ∀ v ∈ d.body.inputFields, s.Provides v.type.innermost := by nofun
  /-- A union has a member. -/
  inhabited : d.kind = .union → d.members ≠ [] := by nofun
  members : ∀ name ∈ d.members, s.Names name .object := by nofun
  values : (d.body.values.map (·.name)).Nodup := by exact List.nodup_nil
  /-- A scalar does not take the name of a built-in one. -/
  scalar : d.kind = .scalar → ∀ builtin : BuiltinScalar, builtin.name ≠ d.name := by nofun

structure WellFormed (s : Schema) : Prop where
  /-- The roots that are named explicitly are objects. -/
  roots : ∀ op name, s.roots.get? op = some name → s.Names name .object
  types : ∀ d ∈ s.types, s.WellFormedType d

variable {s : Schema}

/-! ## Look-ups -/

theorem Built.find?_eq_some_iff_standsFor (built : s.Built) {name : String} {d : TypeDef} :
    s.find? name = some d ↔ s.StandsFor name d := by
  rw [find?, built.index_eq, Option.bind_eq_some_iff]
  constructor
  · rintro ⟨i, place, there⟩
    obtain ⟨before, e, after, split, rfl, named, last⟩ := get?_indexOf.mp place
    obtain rfl : e = d := by simpa [split] using there
    exact ⟨before, after, split, named, last⟩
  · rintro ⟨before, after, split, named, last⟩
    refine ⟨before.length, get?_indexOf.mpr ⟨before, d, after, split, rfl, named, last⟩, ?_⟩
    simp [split]

theorem Built.find?_eq_none_iff (built : s.Built) {name : String} :
    s.find? name = none ↔ ¬s.Declares name := by
  rw [built.find?_eq, List.findRev?_eq_findRev?TR, List.findRev?TR, List.find?_eq_none]
  simp [Declares]

theorem StandsFor.declares {name : String} {d : TypeDef} (stands : s.StandsFor name d) :
    s.Declares name := by
  obtain ⟨before, after, split, named, -⟩ := stands
  exact ⟨d, by simp [split], named⟩

theorem Built.standsFor_unique (built : s.Built) {name : String} {d e : TypeDef}
    (left : s.StandsFor name d) (right : s.StandsFor name e) : d = e := by
  rw [← built.find?_eq_some_iff_standsFor] at left right
  rwa [left, Option.some.injEq] at right

theorem Built.find?_kind_iff (built : s.Built) {name : String} {kind : TypeKind} :
    (∃ d, s.find? name = some d ∧ d.kind = kind) ↔ s.Names name kind := by
  simp only [built.find?_eq_some_iff_standsFor, Names]

theorem isSome_ofName?_iff {name : String} :
    (BuiltinScalar.ofName? name).isSome = true ↔ ∃ scalar : BuiltinScalar, scalar.name = name := by
  simp only [Option.isSome_iff_exists, BuiltinScalar.ofName?_eq_some_iff]

theorem Built.knows_iff (built : s.Built) {name : String} : s.Knows name ↔ s.Provides name :=
  or_congr built.contains_iff isSome_ofName?_iff

theorem Built.isObject_iff (built : s.Built) {name : String} :
    s.isObject name = true ↔ s.Names name .object := by
  rw [isObject, Option.any_eq_true, ← built.find?_kind_iff]
  simp only [decide_eq_true_iff]

/-! ## No violations -/

theorem valueViolations_eq_nil_iff {owner : String} {taken : List String}
    {values : List EnumValue} :
    valueViolations owner taken values = [] ↔
      (∀ n ∈ values.map (·.name), n ∉ taken) ∧ (values.map (·.name)).Nodup := by
  induction values generalizing taken with
  | nil => simp [valueViolations]
  | cons v rest ih =>
    rw [valueViolations, List.append_eq_nil_iff, ih, repetitionViolations_eq_nil_iff, List.map_cons,
      ← fresh_cons_iff]

theorem Built.definitionViolations_eq_nil_iff (built : s.Built) {d : TypeDef} :
    s.definitionViolations d = [] ↔ s.WellFormedType d := by
  obtain ⟨name, description, body⟩ := d
  -- interfaces and fields are checked alike in objects and interfaces
  have output (interfaces : List String) (fields : List Field) :
      interfaces.flatMap (s.interfaceViolations name) ++ s.fieldViolations name [] fields = [] ↔
        (∀ i ∈ interfaces, s.Names i .interface) ∧ (fields.map (·.name)).Nodup ∧
          ∀ f ∈ fields, s.SoundField f := by
    simp [List.flatMap_eq_nil_iff, interfaceViolations_eq_nil_iff, fieldViolations_eq_nil_iff,
      built.find?_kind_iff]
  have soundField (f : Field) : s.SoundField f ↔ s.Provides f.type.innermost ∧
      (f.args.map (·.name)).Nodup ∧ ∀ a ∈ f.args, s.Provides a.type.innermost := by
    simp only [← built.knows_iff]
    exact ⟨fun h => ⟨h.type, h.argNames, h.argTypes⟩, fun h => ⟨h.1, h.2.1, h.2.2⟩⟩
  cases body with
  | object interfaces fields | interface interfaces fields =>
    refine (output interfaces fields).trans ⟨?_, ?_⟩
    · rintro ⟨implemented, names, sound⟩
      have sound := fun f hf => (soundField f).mp (sound f hf)
      exact
        { interfaces := implemented, fieldNames := names
          results := fun f hf => (sound f hf).1
          argNames := fun f hf => (sound f hf).2.1
          argTypes := fun f hf => (sound f hf).2.2 }
    · intro h
      refine ⟨h.interfaces, h.fieldNames, fun f hf => (soundField f).mpr ?_⟩
      exact ⟨h.results f hf, h.argNames f hf, h.argTypes f hf⟩
  | union members =>
    have listed : s.definitionViolations ⟨name, description, .union members⟩ = [] ↔
        members ≠ [] ∧ ∀ m ∈ members, s.Names m .object := by
      unfold definitionViolations
      simp only [← built.find?_kind_iff]
      cases members <;> simp [memberViolations_eq_nil_iff]
    refine listed.trans ⟨?_, fun h => ⟨h.inhabited rfl, h.members⟩⟩
    rintro ⟨inhabited, objects⟩
    exact { inhabited := fun _ => inhabited, members := objects }
  | scalar =>
    have free : s.definitionViolations ⟨name, description, .scalar⟩ = [] ↔
        ∀ builtin : BuiltinScalar, builtin.name ≠ name := by
      rw [definitionViolations, ite_eq_right_iff, isSome_ofName?_iff]
      simp
    exact free.trans ⟨fun apart => { scalar := fun _ => apart }, fun h => h.scalar rfl⟩
  | enum values =>
    have distinct : s.definitionViolations ⟨name, description, .enum values⟩ = [] ↔
        (values.map (·.name)).Nodup := by
      simp [definitionViolations, valueViolations_eq_nil_iff]
    exact distinct.trans ⟨fun names => { values := names }, fun h => h.values⟩
  | inputObject fields =>
    have sound : s.definitionViolations ⟨name, description, .inputObject fields⟩ = [] ↔
        (fields.map (·.name)).Nodup ∧ ∀ v ∈ fields, s.Provides v.type.innermost := by
      simp [definitionViolations, inputViolations_eq_nil_iff, built.knows_iff]
    refine sound.trans ⟨?_, fun h => ⟨h.inputNames, h.inputTypes⟩⟩
    rintro ⟨names, types⟩
    exact { inputNames := names, inputTypes := types }

theorem Built.rootViolations_eq_nil_iff (built : s.Built) {op : Operation} :
    s.rootViolations op = [] ↔
      ∀ name, s.roots.get? op = some name → s.Names name .object := by
  simp only [← built.isObject_iff]
  unfold rootViolations
  cases s.roots.get? op with
  | none => simp
  | some name => by_cases h : s.isObject name = true <;> simp [h]

/-- Nothing is wrong with a built schema exactly if it is well-formed. -/
theorem Built.violations_eq_nil_iff (built : s.Built) : s.violations = [] ↔ s.WellFormed := by
  rw [violations, List.append_eq_nil_iff, List.flatMap_eq_nil_iff, List.flatMap_eq_nil_iff]
  simp only [built.rootViolations_eq_nil_iff, built.definitionViolations_eq_nil_iff]
  constructor
  · rintro ⟨roots, types⟩
    exact ⟨fun op => roots op op.mem_all, types⟩
  · rintro ⟨roots, types⟩
    exact ⟨fun op _ => roots op, types⟩

end ResolverTypes.Schema
