import ResolverTypes.TypeRef

/-!
# Type definitions

What a schema declares: named types of six kinds with their fields, arguments, members and values.
What every kind has, a name and a description, stands in `TypeDef`; what only one kind has stands in
the constructor of `TypeBody` for that kind.
-/

namespace ResolverTypes

/-- An argument of a field, or a field of an input object. -/
structure InputValue where
  name : String
  type : TypeRef
  description : Option String := none
  hasDefault : Bool := false
deriving DecidableEq, Repr

/-- Whether a caller must always provide the value: it excludes null and has no default. -/
def InputValue.isRequired (v : InputValue) : Bool := v.type.isNonNull && !v.hasDefault

/-- A field of an object or interface. -/
structure Field where
  name : String
  type : TypeRef
  description : Option String := none
  args : List InputValue := []
deriving DecidableEq, Repr

/-- The names of the arguments that a caller must always provide. -/
def Field.requiredArgs (f : Field) : List String := (f.args.filter (·.isRequired)).map (·.name)

structure EnumValue where
  name : String
  description : Option String := none
deriving DecidableEq, Repr

/-- The six kinds of named types. -/
inductive TypeKind where
  | object
  | interface
  | union
  | scalar
  | enum
  | inputObject
deriving DecidableEq, Repr

def TypeKind.text : TypeKind → String
  | object => "object"
  | interface => "interface"
  | union => "union"
  | scalar => "scalar"
  | enum => "enum"
  | inputObject => "input object"

/-- The part of a type definition that differs from kind to kind. -/
inductive TypeBody where
  | object (interfaces : List String) (fields : List Field)
  | interface (interfaces : List String) (fields : List Field)
  /-- A union with its members as declared, repeats included. -/
  | union (members : List String)
  | scalar
  | enum (values : List EnumValue)
  | inputObject (fields : List InputValue)
deriving DecidableEq, Repr

namespace TypeBody

def kind : TypeBody → TypeKind
  | object .. => .object
  | interface .. => .interface
  | union _ => .union
  | scalar => .scalar
  | enum _ => .enum
  | inputObject _ => .inputObject

def interfaces : TypeBody → List String
  | object interfaces _ => interfaces
  | interface interfaces _ => interfaces
  | _ => []

def fields : TypeBody → List Field
  | object _ fields => fields
  | interface _ fields => fields
  | _ => []

def members : TypeBody → List String
  | union members => members
  | _ => []

def values : TypeBody → List EnumValue
  | enum values => values
  | _ => []

def inputFields : TypeBody → List InputValue
  | inputObject fields => fields
  | _ => []

/-- The body followed by the content of another of the same kind, or `none` if the kinds differ. -/
def append? : TypeBody → TypeBody → Option TypeBody
  | object is fs, object is' fs' => some (object (is ++ is') (fs ++ fs'))
  | interface is fs, interface is' fs' => some (interface (is ++ is') (fs ++ fs'))
  | union ms, union ms' => some (union (ms ++ ms'))
  | scalar, scalar => some scalar
  | enum vs, enum vs' => some (enum (vs ++ vs'))
  | inputObject fs, inputObject fs' => some (inputObject (fs ++ fs'))
  | _, _ => none

/-- The body with one more field, or `none` if it is neither an object nor an interface. -/
def addField? (f : Field) : TypeBody → Option TypeBody
  | object is fs => some (object is (fs ++ [f]))
  | interface is fs => some (interface is (fs ++ [f]))
  | _ => none

/-- Bodies can be joined exactly when they are of one kind. -/
theorem append?_eq_none_iff {b c : TypeBody} : b.append? c = none ↔ b.kind ≠ c.kind := by
  cases b <;> cases c <;> simp [append?, kind]

/-- Joined bodies are of one kind, and so is what they are joined to. -/
theorem kinds_of_append? {b c d : TypeBody} (joined : b.append? c = some d) :
    b.kind = c.kind ∧ d.kind = b.kind := by
  cases b <;> cases c <;> cases joined <;> exact ⟨rfl, rfl⟩

end TypeBody

/-- The definition of a named type. -/
structure TypeDef where
  name : String
  description : Option String := none
  body : TypeBody
deriving DecidableEq, Repr

namespace TypeDef

def kind (d : TypeDef) : TypeKind := d.body.kind

def interfaces (d : TypeDef) : List String := d.body.interfaces

def fields (d : TypeDef) : List Field := d.body.fields

def members (d : TypeDef) : List String := d.body.members

/-- The names that a field refers to: its result type, then the types of its arguments. -/
def fieldReferences (f : Field) : List String :=
  f.type.innermost :: f.args.map fun a => a.type.innermost

/-- The names that the definition refers to, in the order in which a reader meets them: interfaces,
then what the fields refer to, or the members of a union, or the types of input fields. -/
def references (d : TypeDef) : List String :=
  d.body.interfaces ++ d.body.fields.flatMap fieldReferences ++ d.body.members ++
    d.body.inputFields.map fun v => v.type.innermost

end TypeDef

end ResolverTypes
