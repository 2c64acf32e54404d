import ResolverTypes.Proofs.Output.Lookup
import ResolverTypes.Proofs.Schema.WellFormed
import ResolverTypes.Proofs.Sdl.Names
import ResolverTypes.Proofs.Text.PascalCase
import ResolverTypes.Proofs.TypeGraph.Order

/-!
# Enums and their members

Every enum of a schema is declared with a member for each of its values. A member stands for the
name of its value as it is, but is called by its Pascal case, and that may be no identifier or be
the name of another member as well. A member has an identifier for a name exactly if its value
begins with a letter, underscores aside; two members have the same name only if their values differ
in nothing but underscores and case, and never if both are in constant case (`enums_listed`).
-/

namespace ResolverTypes.Output

open TypeScript

/-! ## Identifiers -/

def isIdentifierChar (c : Char) : Bool := c.isAlphanum || c = '_' || c = '$'

/-- Whether an ASCII text is an identifier: it is not empty, has no digit in front and is made of
letters, digits, underscores and dollar signs. -/
def isIdentifier (name : String) : Bool :=
  match name.toList with
  | [] => false
  | first :: rest => !first.isDigit && (first :: rest).all isIdentifierChar

theorem isAlphanum_pascalCase {name : String} (h : Sdl.IsName name) :
    ∀ c ∈ (Text.pascalCase name).toList, c.isAlphanum = true := by
  intro c hc
  obtain ⟨d, hd, kept, same⟩ := Text.mem_pascalCase hc
  rw [← Text.isAlphanum_toLower, ← same, Text.isAlphanum_toLower]
  have underscore : d ≠ '_' := by
    rintro rfl
    cases kept
  simpa [Sdl.isNameRest, underscore] using h.isNameRest d hd

/-- The Pascal case of a name is an identifier exactly if the name begins with a letter. -/
theorem isIdentifier_pascalCase {name : String} (h : Sdl.IsName name) :
    isIdentifier (Text.pascalCase name) = Text.beginsWithLetter name := by
  have heads := Text.head?_pascalCase name
  have letters := isAlphanum_pascalCase h
  unfold isIdentifier Text.beginsWithLetter
  cases form : (Text.pascalCase name).toList with
  | nil =>
    rw [form] at heads
    rw [Option.map_eq_none_iff.mp heads.symm]
    rfl
  | cons first rest =>
    rw [form] at heads letters
    obtain ⟨start, found, same⟩ := Option.map_eq_some_iff.mp heads.symm
    have chars : (first :: rest).all isIdentifierChar = true := by
      rw [List.all_eq_true]
      intro c hc
      rw [isIdentifierChar, letters c hc, Bool.true_or, Bool.true_or]
    show (!first.isDigit && (first :: rest).all isIdentifierChar) = _
    rw [found, Option.any_some, chars, Bool.and_true,
      ← Text.isAlpha_eq_not_isDigit (letters first List.mem_cons_self),
      ← Char.isAlpha_toLower_eq_isAlpha, ← same, Char.isAlpha_toLower_eq_isAlpha]

/-! ## Members -/

/-- Whether the member is the one for a value. -/
structure MemberFor (v : EnumValue) (m : EnumMember) : Prop where
  value : m.value = v.name
  name : m.name = Text.pascalCase v.name
  identifier : isIdentifier m.name = true ↔ Text.beginsWithLetter v.name = true

/-- Whether the members are those for the values. -/
structure MembersFor (values : List EnumValue) (members : List EnumMember) : Prop where
  each : List.Forall₂ MemberFor values members
  values_nodup : (members.map (·.value)).Nodup
  names_nodup : (members.map (·.name)).Nodup ↔ ∀ v ∈ values, ∀ w ∈ values,
    Text.pascalCase v.name = Text.pascalCase w.name → v.name = w.name
  alike : ∀ m ∈ members, ∀ n ∈ members, m.name = n.name → Text.folded m.value = Text.folded n.value
  apart : ∀ m ∈ members, ∀ n ∈ members, Text.isConstantCase m.value = true →
    Text.isConstantCase n.value = true → m.name = n.name → m.value = n.value
  constantCase : (∀ v ∈ values, Text.isConstantCase v.name = true) →
    (members.map (·.name)).Nodup ∧ ∀ m ∈ members, isIdentifier m.name = true

/-- Whether the declaration is that of an enum. -/
structure EnumFor (d : TypeDef) (e : Declaration) : Prop where
  description : e.description = d.description
  members : ∃ members, e.form = .enum d.name members ∧ MembersFor d.body.values members

theorem memberFor_enumMember {v : EnumValue} (named : Sdl.IsName v.name) :
    MemberFor v (enumMember v) where
  value := rfl
  name := rfl
  identifier := by
    show isIdentifier (Text.pascalCase v.name) = true ↔ _
    rw [isIdentifier_pascalCase named]

/-- Members have distinct names exactly if the Pascal case tells all values apart. -/
theorem nodup_names_iff {values : List EnumValue} (nodup : (values.map (·.name)).Nodup) :
    ((values.map enumMember).map (·.name)).Nodup ↔ ∀ v ∈ values, ∀ w ∈ values,
      Text.pascalCase v.name = Text.pascalCase w.name → v.name = w.name := by
  have names : (values.map enumMember).map (·.name) =
      (values.map (·.name)).map Text.pascalCase := by
    rw [List.map_map, List.map_map]
    rfl
  rw [names, List.nodup_map_iff_inj_on nodup]
  simp only [List.forall_mem_map]

theorem membersFor_map_enumMember {values : List EnumValue} (nodup : (values.map (·.name)).Nodup)
    (named : ∀ v ∈ values, Sdl.IsName v.name) : MembersFor values (values.map enumMember) where
  each := by
    rw [List.forall₂_map_right_iff, List.forall₂_same]
    exact fun v hv => memberFor_enumMember (named v hv)
  values_nodup := by
    rw [List.map_map]
    exact nodup
  names_nodup := nodup_names_iff nodup
  alike := by
    simp only [List.forall_mem_map]
    exact fun v _ w _ => Text.folded_eq_of_pascalCase_eq
  apart := by
    simp only [List.forall_mem_map]
    exact fun v _ w _ => Text.eq_of_pascalCase_eq
  constantCase := by
    intro constant
    refine ⟨(nodup_names_iff nodup).mpr ?_, List.forall_mem_map.mpr ?_⟩
    · exact fun v hv w hw => Text.eq_of_pascalCase_eq (constant v hv) (constant w hw)
    · intro v hv
      rw [(memberFor_enumMember (named v hv)).identifier]
      exact Text.beginsWithLetter_of_isConstantCase (constant v hv)

theorem isSome_enumDeclaration? {d : TypeDef} :
    (enumDeclaration? d).isSome = true ↔ d.kind = .enum := by
  obtain ⟨name, description, body⟩ := d
  cases body <;> simp [enumDeclaration?, TypeDef.kind, TypeBody.kind]

theorem enumFor_of_enumDeclaration? {d : TypeDef} (nodup : (d.body.values.map (·.name)).Nodup)
    (named : ∀ v ∈ d.body.values, Sdl.IsName v.name) {e : Declaration}
    (made : enumDeclaration? d = some e) : EnumFor d e := by
  obtain ⟨name, description, body⟩ := d
  cases body with
  | enum values =>
    obtain rfl := Option.some.inj made
    exact ⟨rfl, _, rfl, membersFor_map_enumMember nodup named⟩
  | object | interface | union | scalar | inputObject => cases made

/-! ## Enums of a document -/

variable {text : String} {s : Schema}

/-- In a schema that a document describes an enum has the values of its base definition in front of
those of its extensions. -/
theorem values_of_ofDefinitions {definitions : List Sdl.Definition}
    (described : Schema.ofDefinitions definitions = .ok s) {d : TypeDef} (hd : d ∈ s.types)
    (enum : d.kind = .enum) : ∃ base ∈ Sdl.bases definitions, base.name = d.name ∧
      d.body.values = base.body.values ++
        ((Sdl.extensions definitions).filter fun e => e.name = d.name).flatMap (·.body.values) := by
  obtain ⟨base, hb, rfl⟩ := (Schema.mem_types_of_ofDefinitions described).mp hd
  rw [TypeDef.kind_extendedBy] at enum
  exact ⟨base, hb, rfl, TypeDef.values_extendedBy _ enum⟩

/-- Enums are declared in declaration order. -/
theorem enumDeclarations_ofSchema (described : Schema.ofDocument text = .ok s) :
    enumDeclarations (.ofSchema s) = s.types.filterMap enumDeclaration? := by
  show ((TypeGraph.typesOf s).values.filterMap (·.definition?)).filterMap enumDeclaration? = _
  rw [TypeGraph.definitions_typesOf (.of_ofDocument described)
    (Schema.nodup_of_ofDocument described)]

/-- How enums are declared. The document for a schema that is accepted has one declaration for every
enum, in their order, with one member for every value, in the order of the values, those of the
definition in front of those of extensions. A member stands for the name of its value and is called
by its Pascal case. The former are pairwise distinct. The latter are pairwise distinct exactly if no
two values have the same Pascal case, which only values can that differ in nothing but underscores
and case and are not both in constant case; and the name of a member is an identifier exactly if its
value begins with a letter. With all values in constant case there are only identifiers, and no two
of them are the same. -/
theorem enums_listed (described : Schema.ofDocument text = .ok s) (valid : s.validate = .ok ()) :
    List.Forall₂ EnumFor (s.types.filter fun d => d.kind = .enum)
      (enumDeclarations (.ofSchema s)) ∧
    ∀ definitions, Sdl.definitions text = .ok definitions →
      ∀ d ∈ s.types, d.kind = .enum → ∃ base ∈ Sdl.bases definitions, base.name = d.name ∧
        d.body.values = base.body.values ++
          ((Sdl.extensions definitions).filter fun e => e.name = d.name).flatMap
            (·.body.values) := by
  have built := Schema.Built.of_ofDocument described
  have wellFormed := built.violations_eq_nil_iff.mp (Schema.validate_eq_ok_iff.mp valid)
  constructor
  · rw [enumDeclarations_ofSchema described]
    refine forall₂_filter_filterMap (fun _ => isSome_enumDeclaration?) ?_
    intro d hd e made
    exact enumFor_of_enumDeclaration? (wellFormed.types d hd).values
      (Schema.isName_value_of_ofDocument described hd) made
  · intro definitions read d hd enum
    obtain ⟨definitions', read', described⟩ := Schema.of_ofDocument described
    obtain rfl := Except.ok.inj (read'.symm.trans read)
    exact values_of_ofDefinitions described hd enum

/-- An enum with an extension, all in constant case. -/
theorem enums_listed_example :
    let text := "type Query { role: Role } enum Role { ADMIN } extend enum Role { POWER_USER2 }"
    let values : List EnumValue := [⟨"ADMIN", none⟩, ⟨"POWER_USER2", none⟩]
    ∃ definitions s base e members, Sdl.definitions text = .ok definitions ∧
      Schema.ofDocument text = .ok s ∧ s.validate = .ok () ∧
      base ∈ Sdl.bases definitions ∧ base.name = "Role" ∧ values = base.body.values ++
        ((Sdl.extensions definitions).filter fun e => e.name = "Role").flatMap (·.body.values) ∧
      enumDeclarations (.ofSchema s) = [e] ∧ e.form = .enum "Role" members ∧
      List.Forall₂ MemberFor values members ∧
      (members.map (·.name)).Nodup ∧ ∀ m ∈ members, isIdentifier m.name = true := by
  intro text values
  let definitions : List Sdl.Definition :=
    [.type false ⟨"Query", none, .object [] [⟨"role", .named "Role", none, []⟩]⟩,
      .type false ⟨"Role", none, .enum [⟨"ADMIN", none⟩]⟩,
      .type true ⟨"Role", none, .enum [⟨"POWER_USER2", none⟩]⟩]
  have read : Sdl.definitions text = .ok definitions := by decide +kernel
  let s := Schema.ofTypes (Sdl.describedTypes definitions) {}
  have described : Schema.ofDocument text = .ok s :=
    (Schema.ofDocument_eq read).trans (Schema.ofDefinitions_eq definitions)
  obtain ⟨listed, own⟩ := enums_listed described rfl
  obtain ⟨base, hb, named, spread⟩ :=
    own definitions read ⟨"Role", none, .enum values⟩ (by decide) rfl
  have enums : (s.types.filter fun d => d.kind = .enum) = [⟨"Role", none, .enum values⟩] := by
    decide
  rw [enums] at listed
  obtain ⟨e, _, declared, last, made⟩ := List.forall₂_cons_left_iff.mp listed
  obtain rfl := List.forall₂_nil_left_iff.mp last
  obtain ⟨members, form, fit⟩ := declared.members
  obtain ⟨distinct, identifiers⟩ := fit.constantCase (by decide)
  exact ⟨definitions, s, base, e, members, read, described, rfl, hb, named, spread, made, form,
    fit.each, distinct, identifiers⟩

/-- Values that are legal, and different, and have members of one name or without an identifier. -/
theorem members_meet :
    let text := "type Query { role: Role } enum Role { ADMIN admin } enum E { _ _1 }"
    ∃ s role e, Schema.ofDocument text = .ok s ∧ s.validate = .ok () ∧
      enumDeclarations (.ofSchema s) =
        [{ form := .enum "Role" role }, { form := .enum "E" e }] ∧
      role = [⟨"Admin", "ADMIN"⟩, ⟨"Admin", "admin"⟩] ∧ ¬(role.map (·.name)).Nodup ∧
      e = [⟨"", "_"⟩, ⟨"1", "_1"⟩] ∧ ∀ m ∈ e, isIdentifier m.name = false := by
  intro text
  let definitions : List Sdl.Definition :=
    [.type false ⟨"Query", none, .object [] [⟨"role", .named "Role", none, []⟩]⟩,
      .type false ⟨"Role", none, .enum [⟨"ADMIN", none⟩, ⟨"admin", none⟩]⟩,
      .type false ⟨"E", none, .enum [⟨"_", none⟩, ⟨"_1", none⟩]⟩]
  have read : Sdl.definitions text = .ok definitions := by decide +kernel
  let s := Schema.ofTypes (Sdl.describedTypes definitions) {}
  have described : Schema.ofDocument text = .ok s :=
    (Schema.ofDocument_eq read).trans (Schema.ofDefinitions_eq definitions)
  refine ⟨s, [⟨"Admin", "ADMIN"⟩, ⟨"Admin", "admin"⟩], [⟨"", "_"⟩, ⟨"1", "_1"⟩], described, rfl,
    (enumDeclarations_ofSchema described).trans rfl, rfl, ?_, rfl, ?_⟩
  · decide
  · decide

end ResolverTypes.Output
