import ResolverTypes.Proofs.Schema.Index
import ResolverTypes.Schema.Validation

/-!
# Schemas without descriptions

Descriptions stand at types, fields, arguments, input fields and enum values. A schema without them
has the same names at the same places, so what a name leads to is the same but for its descriptions
(`find?_withoutDescriptions`), and no check can tell both schemas apart
(`violations_withoutDescriptions`).
-/

namespace ResolverTypes

/-! ## Taking descriptions away -/

def InputValue.withoutDescription (v : InputValue) : InputValue := { v with description := none }

def Field.withoutDescriptions (f : Field) : Field :=
  { f with description := none, args := f.args.map (·.withoutDescription) }

def EnumValue.withoutDescription (v : EnumValue) : EnumValue := { v with description := none }

def TypeBody.withoutDescriptions : TypeBody → TypeBody
  | .object interfaces fields => .object interfaces (fields.map (·.withoutDescriptions))
  | .interface interfaces fields => .interface interfaces (fields.map (·.withoutDescriptions))
  | .union members => .union members
  | .scalar => .scalar
  | .enum values => .enum (values.map (·.withoutDescription))
  | .inputObject fields => .inputObject (fields.map (·.withoutDescription))

def TypeDef.withoutDescriptions (d : TypeDef) : TypeDef :=
  { d with description := none, body := d.body.withoutDescriptions }

def Schema.withoutDescriptions (s : Schema) : Schema :=
  { s with types := s.types.map (·.withoutDescriptions) }

/-! ## What stays -/

namespace TypeDef

@[simp] theorem name_withoutDescriptions (d : TypeDef) : d.withoutDescriptions.name = d.name := rfl

@[simp] theorem kind_withoutDescriptions (d : TypeDef) : d.withoutDescriptions.kind = d.kind := by
  obtain ⟨name, description, body⟩ := d
  cases body <;> rfl

@[simp] theorem interfaces_withoutDescriptions (d : TypeDef) :
    d.withoutDescriptions.interfaces = d.interfaces := by
  obtain ⟨name, description, body⟩ := d
  cases body <;> rfl

@[simp] theorem members_withoutDescriptions (d : TypeDef) :
    d.withoutDescriptions.members = d.members := by
  obtain ⟨name, description, body⟩ := d
  cases body <;> rfl

@[simp] theorem fields_withoutDescriptions (d : TypeDef) :
    d.withoutDescriptions.fields = d.fields.map (·.withoutDescriptions) := by
  obtain ⟨name, description, body⟩ := d
  cases body <;> rfl

theorem fieldReferences_withoutDescriptions (f : Field) :
    fieldReferences f.withoutDescriptions = fieldReferences f := by
  simp only [fieldReferences, Field.withoutDescriptions, List.map_map]
  rfl

@[simp] theorem references_withoutDescriptions (d : TypeDef) :
    d.withoutDescriptions.references = d.references := by
  have fields (l : List Field) :
      (l.map (·.withoutDescriptions)).flatMap fieldReferences = l.flatMap fieldReferences := by
    rw [List.flatMap_map]
    exact List.flatMap_congr fun f _ => fieldReferences_withoutDescriptions f
  have inputs (l : List InputValue) :
      (l.map (·.withoutDescription)).map (fun v => v.type.innermost) =
        l.map fun v => v.type.innermost := List.map_map
  obtain ⟨name, description, body⟩ := d
  cases body with
  | object interfaces l | interface interfaces l =>
    exact congrArg (interfaces ++ · ++ [] ++ []) (fields l)
  | inputObject l => exact inputs l
  | union | scalar | enum => rfl

end TypeDef

namespace Schema

variable {s : Schema}

theorem Built.withoutDescriptions (built : s.Built) : s.withoutDescriptions.Built := by
  have names : (s.types.map (·.withoutDescriptions)).map (·.name) = s.types.map (·.name) :=
    List.map_map
  have index := (built_ofTypes (s.types.map (·.withoutDescriptions)) s.roots).index_eq
  rw [types_ofTypes, indexOf_congr names, ← built.index_eq] at index
  have types := types_ofTypes (s.types.map (·.withoutDescriptions)) s.roots
  have roots := roots_ofTypes (s.types.map (·.withoutDescriptions)) s.roots
  have same : s.withoutDescriptions = ofTypes (s.types.map (·.withoutDescriptions)) s.roots := by
    cases made : ofTypes (s.types.map (·.withoutDescriptions)) s.roots
    rw [made] at index types roots
    unfold Schema.withoutDescriptions
    rw [← index, ← types, ← roots]
  rw [same]
  exact built_ofTypes _ _

theorem find?_withoutDescriptions (s : Schema) (name : String) :
    s.withoutDescriptions.find? name = (s.find? name).map (·.withoutDescriptions) := by
  unfold find? Schema.withoutDescriptions
  cases s.index.get? name with
  | none => rfl
  | some i => simp

@[simp] theorem isObject_withoutDescriptions (s : Schema) (name : String) :
    s.withoutDescriptions.isObject name = s.isObject name := by
  unfold isObject
  rw [find?_withoutDescriptions]
  cases s.find? name with
  | none => rfl
  | some d => simp

@[simp] theorem rootName?_withoutDescriptions (s : Schema) (op : Operation) :
    s.withoutDescriptions.rootName? op = s.rootName? op := by
  unfold rootName?
  rw [isObject_withoutDescriptions]
  rfl

@[simp] theorem operationOf?_withoutDescriptions (s : Schema) (name : String) :
    s.withoutDescriptions.operationOf? name = s.operationOf? name := by
  simp only [operationOf?, rootName?_withoutDescriptions]

/-! ## What is wrong with them -/

theorem inputViolations_withoutDescriptions (owner kind : String) (taken : List String)
    (values : List InputValue) :
    s.withoutDescriptions.inputViolations owner kind taken (values.map (·.withoutDescription)) =
      s.inputViolations owner kind taken values := by
  induction values generalizing taken with
  | nil => rfl
  | cons v rest ih =>
    rw [List.map_cons, inputViolations, inputViolations, ← ih]
    rfl

theorem fieldViolations_withoutDescriptions (owner : String) (taken : List String)
    (fields : List Field) :
    s.withoutDescriptions.fieldViolations owner taken (fields.map (·.withoutDescriptions)) =
      s.fieldViolations owner taken fields := by
  induction fields generalizing taken with
  | nil => rfl
  | cons f rest ih =>
    rw [List.map_cons, fieldViolations, fieldViolations, ← ih,
      ← inputViolations_withoutDescriptions (s := s)]
    rfl

theorem valueViolations_withoutDescriptions (owner : String) (taken : List String)
    (values : List EnumValue) :
    valueViolations owner taken (values.map (·.withoutDescription)) =
      valueViolations owner taken values := by
  induction values generalizing taken with
  | nil => rfl
  | cons v rest ih =>
    rw [List.map_cons, valueViolations, valueViolations, ← ih]
    rfl

theorem interfaceViolations_withoutDescriptions (owner interface : String) :
    s.withoutDescriptions.interfaceViolations owner interface =
      s.interfaceViolations owner interface := by
  unfold interfaceViolations
  rw [find?_withoutDescriptions]
  cases s.find? interface with
  | none => rfl
  | some d => simp

theorem memberViolations_withoutDescriptions (union member : String) :
    s.withoutDescriptions.memberViolations union member = s.memberViolations union member := by
  unfold memberViolations
  rw [find?_withoutDescriptions]
  cases s.find? member with
  | none => rfl
  | some d => simp

theorem definitionViolations_withoutDescriptions (d : TypeDef) :
    s.withoutDescriptions.definitionViolations d.withoutDescriptions =
      s.definitionViolations d := by
  obtain ⟨name, description, body⟩ := d
  cases body with
  | object interfaces fields | interface interfaces fields =>
    show interfaces.flatMap (s.withoutDescriptions.interfaceViolations name) ++
      s.withoutDescriptions.fieldViolations name [] (fields.map (·.withoutDescriptions)) = _
    rw [fieldViolations_withoutDescriptions, funext (interfaceViolations_withoutDescriptions name)]
    rfl
  | union members =>
    show (if members.isEmpty then [.emptyUnion name]
      else members.flatMap (s.withoutDescriptions.memberViolations name)) = _
    rw [funext (memberViolations_withoutDescriptions name)]
    rfl
  | enum values => exact valueViolations_withoutDescriptions name [] values
  | inputObject fields => exact inputViolations_withoutDescriptions name "input field" [] fields
  | scalar => rfl

/-- The same is wrong with a schema and with the schema without descriptions. -/
theorem violations_withoutDescriptions (s : Schema) :
    s.withoutDescriptions.violations = s.violations := by
  have roots (op : Operation) :
      s.withoutDescriptions.rootViolations op = s.rootViolations op := by
    unfold rootViolations
    rw [funext (isObject_withoutDescriptions s)]
    rfl
  unfold violations
  rw [funext roots]
  congr 1
  show (s.types.map (·.withoutDescriptions)).flatMap _ = _
  rw [List.flatMap_map]
  exact List.flatMap_congr fun d _ => definitionViolations_withoutDescriptions d

theorem validate_withoutDescriptions (s : Schema) :
    s.withoutDescriptions.validate = s.validate := by
  rw [validate, validate, violations_withoutDescriptions]

end Schema

end ResolverTypes
