import ResolverTypes.TypeScript.Basic

/-!
# What declarations refer to

The references of a type expression, read off its tree: named types, keys of named tables, and
texts. Those of a declaration come from its head, which is what its parameters and its base mention,
or from its body. Types that are taken over as they are given refer to nothing here.
-/

namespace ResolverTypes.TypeScript

/-- Something that a type expression refers to. -/
inductive Reference where
  /-- A named type without type arguments. -/
  | plain (name : String)
  /-- A named type with type arguments. -/
  | applied (name : String)
  /-- A key of a named type, with or without type arguments. -/
  | entry (table key : String)
  /-- A named type that is a type argument of a type whose key is looked up. -/
  | handed (name : String)
  /-- A text. -/
  | text (value : String)
deriving DecidableEq, Repr

namespace Reference

/-- The type that the reference names, if any. -/
def name? : Reference → Option String
  | plain name | applied name | entry name _ | handed name => some name
  | text _ => none

/-- The reference as it counts inside the type arguments of a type whose key is looked up. -/
def asHanded : Reference → Reference
  | plain name => handed name
  | r => r

end Reference

/-! ## References of type expressions -/

mutual

/-- The references of a type expression. -/
def TypeExpr.references : TypeExpr → List Reference
  | .reference name args =>
    (if args.isEmpty then .plain name else .applied name) :: referencesOfTypes args
  | .index (.reference table args) key =>
    .entry table key :: (referencesOfTypes args).map Reference.asHanded
  | .index target _ => target.references
  | .literal value => [.text value]
  | .quoted value => [.text value]
  | .union members => referencesOfTypes members
  | .group inner => inner.references
  | .object properties => referencesOfProperties properties
  | .inlineObject properties => referencesOfInline properties
  | .raw _ => []

/-- The references of several type expressions. -/
def referencesOfTypes : List TypeExpr → List Reference
  | [] => []
  | t :: rest => t.references ++ referencesOfTypes rest

/-- The references of the properties of an object type. -/
def referencesOfProperties : List (Property TypeExpr) → List Reference
  | [] => []
  | ⟨_, value, _, _⟩ :: rest => value.references ++ referencesOfProperties rest

/-- The references of the properties of an object type on a single line. -/
def referencesOfInline : List (String × TypeExpr) → List Reference
  | [] => []
  | (_, value) :: rest => value.references ++ referencesOfInline rest

end

theorem referencesOfTypes_eq (l : List TypeExpr) :
    referencesOfTypes l = l.flatMap (·.references) := by
  induction l with
  | nil => rfl
  | cons t rest ih =>
    show t.references ++ referencesOfTypes rest = _
    rw [ih, List.flatMap_cons]

theorem referencesOfProperties_eq (l : List (Property TypeExpr)) :
    referencesOfProperties l = l.flatMap (·.value.references) := by
  induction l with
  | nil => rfl
  | cons p rest ih =>
    show p.value.references ++ referencesOfProperties rest = _
    rw [ih, List.flatMap_cons]

namespace TypeExpr

@[simp] theorem references_name (name : String) :
    (TypeExpr.name name).references = [.plain name] := rfl

@[simp] theorem references_reference (name : String) (first : TypeExpr) (rest : List TypeExpr) :
    (TypeExpr.reference name (first :: rest)).references =
      .applied name :: (first :: rest).flatMap (·.references) :=
  congrArg (Reference.applied name :: ·) (referencesOfTypes_eq (first :: rest))

@[simp] theorem references_index_name (table key : String) :
    ((TypeExpr.name table).index key).references = [.entry table key] := rfl

@[simp] theorem references_union (members : List TypeExpr) :
    (TypeExpr.union members).references = members.flatMap (·.references) :=
  referencesOfTypes_eq members

@[simp] theorem references_object (properties : List (Property TypeExpr)) :
    (TypeExpr.object properties).references = properties.flatMap (·.value.references) :=
  referencesOfProperties_eq properties

@[simp] theorem references_group (inner : TypeExpr) : (TypeExpr.group inner).references =
    inner.references := rfl

@[simp] theorem references_literal (value : String) :
    (TypeExpr.literal value).references = [.text value] := rfl

@[simp] theorem references_quoted (value : String) :
    (TypeExpr.quoted value).references = [.text value] := rfl

@[simp] theorem references_raw (text : String) : (TypeExpr.raw text).references = [] := rfl

/-- A choice between texts refers to them and to nothing else. -/
theorem mem_references_literals {names : List String} {r : Reference} :
    r ∈ (TypeExpr.union (names.map .literal)).references ↔ ∃ name ∈ names, r = .text name := by
  rw [references_union, List.flatMap_map, List.mem_flatMap]
  simp

end TypeExpr

/-! ## References of declarations -/

/-- What a parameter mentions besides its name. -/
def TypeParam.types (p : TypeParam) : List TypeExpr := p.bound.toList ++ p.default.toList

namespace Declaration

/-- The parameters of a declaration. -/
def params (d : Declaration) : List TypeParam :=
  match d.form with
  | .typeAlias _ params _ | .interface _ params _ _ => params
  | _ => []

/-- The type expressions in front of the body: those of the parameters and the base. -/
def headTypes (d : Declaration) : List TypeExpr :=
  match d.form with
  | .typeAlias _ params _ => params.flatMap (·.types)
  | .interface _ params base _ => params.flatMap (·.types) ++ base.toList
  | _ => []

/-- The type expressions of the body. -/
def bodyTypes (d : Declaration) : List TypeExpr :=
  match d.form with
  | .typeAlias _ _ type => [type]
  | .interface _ _ _ properties => properties.map (·.value)
  | _ => []

/-- What the body of a declaration refers to. -/
def bodyReferences (d : Declaration) : List Reference := d.bodyTypes.flatMap (·.references)

/-- What a declaration refers to. -/
def references (d : Declaration) : List Reference :=
  d.headTypes.flatMap (·.references) ++ d.bodyReferences

/-- Whether a declaration refers to the named type in whatever way. -/
def Mentions (d : Declaration) (name : String) : Prop := ∃ r ∈ d.references, r.name? = some name

/-- Whether a declaration is an object type with the key, or an interface with it. -/
def HasKey (d : Declaration) (key : String) : Prop := ∃ keys, d.keys? = some keys ∧ key ∈ keys

/-- The names that a declaration takes from another module. -/
def importedNames (d : Declaration) : List String :=
  match d.form with
  | .imports names _ => names
  | _ => []

/-- An alias without parameters refers to what its type refers to. -/
@[simp] theorem references_typeAlias (name : String) (type : TypeExpr)
    (description : Option String) :
    (typeAlias name type description).references = type.references := by
  simp [references, bodyReferences, headTypes, bodyTypes, typeAlias]

end Declaration

namespace Document

/-- The names that the declarations of a document add to the module. -/
def declaredNames (d : Document) : List String := d.declarations.filterMap (·.declares?)

/-- The names that a document takes from other modules. -/
def importedNames (d : Document) : List String := d.declarations.flatMap (·.importedNames)

/-- Leaving empty sections out loses no declaration. -/
@[simp] theorem declarations_ofSections (sections : List Section) :
    (Document.ofSections sections).declarations = sections.flatMap (·.declarations) := by
  induction sections with
  | nil => rfl
  | cons s rest ih =>
    show ((s :: rest).filter fun s => !s.declarations.isEmpty).flatMap (·.declarations) = _
    rw [List.filter_cons, List.flatMap_cons, ← ih]
    split
    · rfl
    · next empty =>
      have none : s.declarations = [] := by simpa using empty
      rw [none]
      rfl

end Document

end ResolverTypes.TypeScript
