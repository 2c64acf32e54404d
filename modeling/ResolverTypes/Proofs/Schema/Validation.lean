import ResolverTypes.Proofs.Schema.Index
import ResolverTypes.Schema.Validation

/-!
# What validation rules out

A list of violations is empty exactly if what it checks holds; the lemmas below say so for every
part of a definition, from references up to lists of fields. Of a schema with nothing wrong with it
they give what the derivation of types relies on: whatever a definition refers to is a declared type
or a built-in scalar (`knows_of_mem_references`), and a union has members, all of them objects
(`members_of_union`).
-/

namespace ResolverTypes

/-- The names that a definition mentions, kind by kind, in the order in which it is read. -/
def TypeDef.mentions (d : TypeDef) : List String :=
  match d.body with
  | .object interfaces fields | .interface interfaces fields =>
    interfaces ++ fields.flatMap fun f =>
      f.type.innermost :: f.args.map fun a => a.type.innermost
  | .union members => members
  | .inputObject fields => fields.map fun v => v.type.innermost
  | .scalar | .enum _ => []

theorem TypeDef.references_eq_mentions (d : TypeDef) : d.references = d.mentions := by
  obtain ⟨name, description, body⟩ := d
  cases body <;>
    simp [references, mentions, TypeBody.interfaces, TypeBody.fields, TypeBody.members,
      TypeBody.inputFields] <;>
    rfl

namespace Schema

/-- Whether a reference of that name leads to a type of any kind. -/
def Knows (s : Schema) (name : String) : Prop :=
  s.contains name = true ∨ (BuiltinScalar.ofName? name).isSome = true

variable {s : Schema}

/-! ## References and repetitions -/

theorem referenceViolations_eq_nil_iff {name referencedBy : String} :
    s.referenceViolations name referencedBy = [] ↔ s.Knows name := by
  unfold referenceViolations Knows
  rw [← Bool.or_eq_true]
  split
  · next h => exact iff_of_true rfl h
  · next h => exact iff_of_false (by simp) h

theorem repetitionViolations_eq_nil_iff {owner kind name : String} {taken : List String} :
    repetitionViolations owner kind name taken = [] ↔ name ∉ taken := by
  unfold repetitionViolations
  split
  · next h => simp [h]
  · next h => simp [h]

/-! ## Arguments, input fields and fields -/

/-- One more name that is not taken, in front of names that are distinct and not taken. -/
theorem fresh_cons_iff {name : String} {names taken : List String} :
    name ∉ taken ∧ (∀ n ∈ names, n ∉ name :: taken) ∧ names.Nodup ↔
      (∀ n ∈ name :: names, n ∉ taken) ∧ (name :: names).Nodup := by
  rw [List.nodup_cons]
  constructor
  · rintro ⟨free, others, nodup⟩
    refine ⟨?_, fun member => others name member List.mem_cons_self, nodup⟩
    intro n hn
    rcases List.mem_cons.mp hn with rfl | hn
    · exact free
    · exact fun member => others n hn (List.mem_cons_of_mem _ member)
  · rintro ⟨free, apart, nodup⟩
    refine ⟨free name List.mem_cons_self, ?_, nodup⟩
    intro n hn member
    rcases List.mem_cons.mp member with rfl | member
    · exact apart hn
    · exact free n (List.mem_cons_of_mem _ hn) member

theorem inputViolations_eq_nil_iff {owner kind : String} {taken : List String}
    {values : List InputValue} :
    s.inputViolations owner kind taken values = [] ↔
      ((∀ n ∈ values.map (·.name), n ∉ taken) ∧ (values.map (·.name)).Nodup) ∧
        ∀ v ∈ values, s.Knows v.type.innermost := by
  induction values generalizing taken with
  | nil => simp [inputViolations]
  | cons v rest ih =>
    rw [inputViolations, List.append_eq_nil_iff, List.append_eq_nil_iff, ih,
      repetitionViolations_eq_nil_iff, referenceViolations_eq_nil_iff, List.map_cons,
      ← fresh_cons_iff, List.forall_mem_cons]
    constructor
    · rintro ⟨⟨free, known⟩, ⟨others, nodup⟩, all⟩
      exact ⟨⟨free, others, nodup⟩, known, all⟩
    · rintro ⟨⟨free, others, nodup⟩, known, all⟩
      exact ⟨⟨free, known⟩, ⟨others, nodup⟩, all⟩

/-- What is checked of a field apart from its own name. -/
structure SoundField (s : Schema) (f : Field) : Prop where
  type : s.Knows f.type.innermost
  argNames : (f.args.map (·.name)).Nodup
  argTypes : ∀ v ∈ f.args, s.Knows v.type.innermost

theorem fieldViolations_eq_nil_iff {owner : String} {taken : List String} {fields : List Field} :
    s.fieldViolations owner taken fields = [] ↔
      ((∀ n ∈ fields.map (·.name), n ∉ taken) ∧ (fields.map (·.name)).Nodup) ∧
        ∀ f ∈ fields, s.SoundField f := by
  induction fields generalizing taken with
  | nil => simp [fieldViolations]
  | cons f rest ih =>
    rw [fieldViolations, List.append_eq_nil_iff, List.append_eq_nil_iff, List.append_eq_nil_iff, ih,
      repetitionViolations_eq_nil_iff, referenceViolations_eq_nil_iff, inputViolations_eq_nil_iff,
      List.map_cons, ← fresh_cons_iff, List.forall_mem_cons]
    constructor
    · rintro ⟨⟨⟨free, type⟩, ⟨-, argNames⟩, argTypes⟩, ⟨others, nodup⟩, all⟩
      exact ⟨⟨free, others, nodup⟩, ⟨type, argNames, argTypes⟩, all⟩
    · rintro ⟨⟨free, others, nodup⟩, ⟨type, argNames, argTypes⟩, all⟩
      exact ⟨⟨⟨free, type⟩, ⟨by simp, argNames⟩, argTypes⟩, ⟨others, nodup⟩, all⟩

/-! ## Interfaces and members -/

theorem interfaceViolations_eq_nil_iff {owner interface : String} :
    s.interfaceViolations owner interface = [] ↔
      ∃ d, s.find? interface = some d ∧ d.kind = .interface := by
  unfold interfaceViolations
  cases s.find? interface with
  | none => simp
  | some d => by_cases h : d.kind = .interface <;> simp [h]

theorem memberViolations_eq_nil_iff {union member : String} :
    s.memberViolations union member = [] ↔ ∃ d, s.find? member = some d ∧ d.kind = .object := by
  unfold memberViolations
  cases s.find? member with
  | none => by_cases h : (BuiltinScalar.ofName? member).isSome <;> simp [h]
  | some d => by_cases h : d.kind = .object <;> simp [h]

theorem knows_of_find? {name : String} {d : TypeDef} (found : s.find? name = some d) :
    s.Knows name := .inl (contains_of_find? found)

/-! ## Definitions -/

/-- A union with nothing wrong with it has members, and all of them are objects. -/
theorem members_of_union {d : TypeDef} {members : List String}
    (sound : s.definitionViolations d = []) (union : d.body = .union members) :
    members ≠ [] ∧ ∀ name ∈ members, ∃ e, s.find? name = some e ∧ e.kind = .object := by
  unfold definitionViolations at sound
  rw [union] at sound
  cases members with
  | nil => simp at sound
  | cons first rest =>
    refine ⟨by simp, ?_⟩
    intro name member
    exact memberViolations_eq_nil_iff.mp (List.flatMap_eq_nil_iff.mp sound name member)

/-- A definition with nothing wrong with it refers to known types only. -/
theorem knows_of_mem_references {d : TypeDef} (sound : s.definitionViolations d = []) :
    ∀ name ∈ d.references, s.Knows name := by
  rw [d.references_eq_mentions]
  obtain ⟨typeName, description, body⟩ := d
  have of_fields : ∀ interfaces fields,
      interfaces.flatMap (s.interfaceViolations typeName) ++
        s.fieldViolations typeName [] fields = [] →
      ∀ name ∈ interfaces ++ fields.flatMap TypeDef.fieldReferences, s.Knows name := by
    intro interfaces fields none name member
    rw [List.append_eq_nil_iff, List.flatMap_eq_nil_iff, fieldViolations_eq_nil_iff] at none
    rcases List.mem_append.mp member with member | member
    · obtain ⟨d, found, -⟩ := interfaceViolations_eq_nil_iff.mp (none.1 name member)
      exact knows_of_find? found
    · obtain ⟨f, hf, member⟩ := List.mem_flatMap.mp member
      have field := none.2.2 f hf
      rcases List.mem_cons.mp member with rfl | member
      · exact field.type
      · obtain ⟨v, hv, rfl⟩ := List.mem_map.mp member
        exact field.argTypes v hv
  cases body with
  | object interfaces fields => exact of_fields interfaces fields sound
  | interface interfaces fields => exact of_fields interfaces fields sound
  | scalar => exact nofun
  | enum values => exact nofun
  | union members =>
    intro name member
    obtain ⟨d, found, -⟩ := (members_of_union sound rfl).2 name member
    exact knows_of_find? found
  | inputObject fields =>
    intro name member
    obtain ⟨v, hv, rfl⟩ := List.mem_map.mp member
    exact (inputViolations_eq_nil_iff.mp sound).2 v hv

/-- In a schema that is accepted no definition has anything wrong with it. -/
theorem definitionViolations_of_validate (valid : s.validate = .ok ()) :
    ∀ d ∈ s.types, s.definitionViolations d = [] := by
  have none := validate_eq_ok_iff.mp valid
  rw [violations, List.append_eq_nil_iff, List.flatMap_eq_nil_iff, List.flatMap_eq_nil_iff] at none
  exact none.2

end Schema

end ResolverTypes
