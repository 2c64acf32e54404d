/-!
# Scalars

The five scalars that every schema may use without declaring them, and what a scalar is represented
by in the generated types: one type for values that come in and one for values that go out.
-/

namespace ResolverTypes

/-- A scalar that needs no declaration. -/
inductive BuiltinScalar where
  /-- An opaque identifier, written as a string. -/
  | id
  | string
  | boolean
  | int
  | float
deriving DecidableEq, Repr

namespace BuiltinScalar

/-- The built-in scalars in the order in which they are emitted. -/
def all : List BuiltinScalar := [id, string, boolean, int, float]

/-- The name under which a schema refers to the scalar. -/
def name : BuiltinScalar → String
  | id => "ID"
  | string => "String"
  | boolean => "Boolean"
  | int => "Int"
  | float => "Float"

/-- The type that carries the values of the scalar. -/
def valueType : BuiltinScalar → String
  | id => "string"
  | string => "string"
  | boolean => "boolean"
  | int => "number"
  | float => "number"

def ofName? (name : String) : Option BuiltinScalar := all.find? fun scalar => scalar.name = name

/-- Whether every schema carries the scalar, referenced or not. Introspection answers with strings
and truth values, so these two are never absent. -/
def isAlwaysPresent : BuiltinScalar → Bool
  | string => true
  | boolean => true
  | _ => false

theorem mem_all (scalar : BuiltinScalar) : scalar ∈ all := by cases scalar <;> decide

@[simp] theorem ofName?_name (scalar : BuiltinScalar) : ofName? scalar.name = some scalar := by
  cases scalar <;> decide

theorem ofName?_eq_some_iff {name : String} {scalar : BuiltinScalar} :
    ofName? name = some scalar ↔ scalar.name = name := by
  constructor
  · intro h
    simpa using List.find?_some h
  · rintro rfl
    exact ofName?_name scalar

end BuiltinScalar

/-- What a scalar is represented by. -/
structure Representation where
  /-- The type of a value given in an argument or an input field. -/
  input : String
  /-- The type of a value returned from a field. -/
  output : String
deriving DecidableEq, Repr

namespace Representation

def uniform (type : String) : Representation := ⟨type, type⟩

end Representation

end ResolverTypes
