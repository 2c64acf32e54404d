/-!
# TypeScript declarations

As much of the language as the generated documents need: type expressions, declarations of them, and
documents made of sections. Names and keys are kept as data up to the point where a document is
written down, so what a document declares and what it refers to can be read off its tree.
-/

namespace ResolverTypes.TypeScript

structure Property (α : Type) where
  key : String
  value : α
  isOptional : Bool := false
  description : Option String := none

inductive TypeExpr where
  /-- A named type with type arguments, if any: `Name<A, B>`. -/
  | reference (name : String) (args : List TypeExpr)
  /-- The type of a property: `Target['key']`. -/
  | index (target : TypeExpr) (key : String)
  /-- The type of one text, in single quotes. -/
  | literal (value : String)
  /-- The type of one text, in double quotes. -/
  | quoted (value : String)
  /-- A choice: `A | B`. -/
  | union (members : List TypeExpr)
  | group (inner : TypeExpr)
  /-- An object type with one property on a line. -/
  | object (properties : List (Property TypeExpr))
  /-- An object type on a single line. -/
  | inlineObject (properties : List (String × TypeExpr))
  /-- A type expression that is taken over as it is given. -/
  | raw (text : String)

instance : Inhabited TypeExpr := ⟨.raw ""⟩

/-- A named type without type arguments. -/
def TypeExpr.name (name : String) : TypeExpr := .reference name []

structure TypeParam where
  name : String
  /-- What the parameter must extend. -/
  bound : Option TypeExpr := none
  /-- What the parameter is if it is not given. -/
  default : Option TypeExpr := none

structure EnumMember where
  name : String
  value : String
deriving DecidableEq, Repr

inductive Declaration.Form where
  | imports (names : List String) (source : String)
  | typeAlias (name : String) (params : List TypeParam) (type : TypeExpr)
  | enum (name : String) (members : List EnumMember)
  /-- An interface that extends another type, if any. -/
  | interface (name : String) (params : List TypeParam) (base : Option TypeExpr)
    (properties : List (Property TypeExpr))
  /-- A declaration that is taken over as it is given, with the name that it declares, if known. -/
  | verbatim (declares : Option String) (text : String)

structure Declaration where
  form : Declaration.Form
  description : Option String := none

namespace Declaration

/-- A name for a type, without parameters. -/
def typeAlias (name : String) (type : TypeExpr) (description : Option String := none) :
    Declaration :=
  { form := .typeAlias name [] type, description }

/-- The name under which a document finds the declaration. Declarations taken over as they are given
cannot be found. -/
def name? (d : Declaration) : Option String :=
  match d.form with
  | .imports .. => none
  | .typeAlias name .. => some name
  | .enum name _ => some name
  | .interface name .. => some name
  | .verbatim .. => none

/-- The name that the declaration adds to the module, also if it cannot be found under it. -/
def declares? (d : Declaration) : Option String :=
  match d.form with
  | .verbatim declares _ => declares
  | _ => d.name?

/-- The keys of an object type that is given a name, or of an interface. -/
def keys? (d : Declaration) : Option (List String) :=
  match d.form with
  | .typeAlias _ _ (.object properties) => some (properties.map (·.key))
  | .interface _ _ _ properties => some (properties.map (·.key))
  | _ => none

end Declaration

/-- A group of declarations. -/
structure Section where
  declarations : List Declaration := []
  /-- Whether the declarations stand on consecutive lines, without blank lines between them. -/
  isCompact : Bool := false

/-- A document: sections, none of which is empty. -/
structure Document where
  sections : List Section := []

namespace Document

/-- The document of the given sections, without the empty ones. -/
def ofSections (sections : List Section) : Document :=
  ⟨sections.filter fun s => !s.declarations.isEmpty⟩

def declarations (d : Document) : List Declaration := d.sections.flatMap (·.declarations)

def find? (d : Document) (name : String) : Option Declaration :=
  d.declarations.find? fun declaration => declaration.name? = some name

end Document

end ResolverTypes.TypeScript
