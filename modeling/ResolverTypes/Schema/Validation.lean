import ResolverTypes.Scalar
import ResolverTypes.Schema.Basic
import ResolverTypes.Schema.Error

/-!
# Validation

What the generated types rely on: every reference leads somewhere, unions have object members only,
explicit roots are objects, and no two parts of one owner share a name. `Schema.violations` lists
all that is wrong in the order in which a reader meets it, and `Schema.validate` reports the first
entry.

Roots come before types. Inside an object or interface the implemented interfaces come before the
fields; inside a field its name comes first, then its result type, then each argument.
-/

namespace ResolverTypes.Schema

/-- The path of a part of `owner` in messages. -/
def path (owner name : String) : String := owner ++ "." ++ name

/-- What is wrong with a reference to a type of any kind. -/
def referenceViolations (s : Schema) (name referencedBy : String) : List Error :=
  if s.contains name || (BuiltinScalar.ofName? name).isSome then []
  else [.typeNotFound name referencedBy]

/-- The repetition of a name that an earlier part of the owner has taken. -/
def repetitionViolations (owner kind name : String) (taken : List String) : List Error :=
  if name ∈ taken then [.duplicateMember owner kind name] else []

/-- What is wrong with arguments or input fields, where `taken` holds the names of earlier ones. -/
def inputViolations (s : Schema) (owner kind : String) (taken : List String) :
    List InputValue → List Error
  | [] => []
  | v :: rest =>
    repetitionViolations owner kind v.name taken ++
      s.referenceViolations v.type.innermost (path owner v.name) ++
        inputViolations s owner kind (v.name :: taken) rest

/-- What is wrong with fields, where `taken` holds the names of earlier ones. -/
def fieldViolations (s : Schema) (owner : String) (taken : List String) : List Field → List Error
  | [] => []
  | f :: rest =>
    repetitionViolations owner "field" f.name taken ++
      s.referenceViolations f.type.innermost (path owner f.name) ++
        s.inputViolations (path owner f.name) "argument" [] f.args ++
          fieldViolations s owner (f.name :: taken) rest

/-- What is wrong with the values of an enum, where `taken` holds the names of earlier ones. -/
def valueViolations (owner : String) (taken : List String) : List EnumValue → List Error
  | [] => []
  | v :: rest =>
    repetitionViolations owner "value" v.name taken ++ valueViolations owner (v.name :: taken) rest

def interfaceViolations (s : Schema) (owner interface : String) : List Error :=
  match s.find? interface with
  | none => [.typeNotFound interface owner]
  | some d => if d.kind = .interface then [] else [.invalidImplements owner interface]

def memberViolations (s : Schema) (union member : String) : List Error :=
  match s.find? member with
  | some d => if d.kind = .object then [] else [.invalidUnionMember union member d.kind.text]
  | none =>
    if (BuiltinScalar.ofName? member).isSome then
      [.invalidUnionMember union member TypeKind.scalar.text]
    else [.typeNotFound member union]

def definitionViolations (s : Schema) (d : TypeDef) : List Error :=
  match d.body with
  | .object interfaces fields | .interface interfaces fields =>
    interfaces.flatMap (s.interfaceViolations d.name) ++ s.fieldViolations d.name [] fields
  | .union members =>
    if members.isEmpty then [.emptyUnion d.name] else members.flatMap (s.memberViolations d.name)
  | .enum values => valueViolations d.name [] values
  | .inputObject fields => s.inputViolations d.name "input field" [] fields
  | .scalar => if (BuiltinScalar.ofName? d.name).isSome then [.builtinRedefined d.name] else []

/-- What is wrong with the explicit root type of an operation. -/
def rootViolations (s : Schema) (op : Operation) : List Error :=
  match s.roots.get? op with
  | some name => if s.isObject name then [] else [.invalidRootType op.text name]
  | none => []

/-- All that is wrong with the schema, in the order in which it is reported. -/
def violations (s : Schema) : List Error :=
  Operation.all.flatMap s.rootViolations ++ s.types.flatMap s.definitionViolations

/-- Accepts a schema with nothing wrong with it, and reports the first violation of any other. -/
def validate (s : Schema) : Except Error Unit :=
  match s.violations with
  | [] => .ok ()
  | e :: _ => .error e

theorem validate_eq_ok_iff {s : Schema} : s.validate = .ok () ↔ s.violations = [] := by
  rw [validate]
  cases s.violations with
  | nil => exact iff_of_true rfl rfl
  | cons e rest => exact iff_of_false nofun nofun

end ResolverTypes.Schema
