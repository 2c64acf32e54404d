import ResolverTypes.OrderedMap
import ResolverTypes.Scalar
import ResolverTypes.Text.Blank

/-!
# Configuration

The choices that a run of the generator leaves to its user: how scalars are represented, what the
context and the root values are, how resolver results may be wrapped, and whether every object type
gets a type-identity predicate or only those that belong to a union.
-/

namespace ResolverTypes

/-- What the user says a scalar is represented by. -/
inductive ScalarOverride where
  | uniform (type : String)
  | split (input output : String)
deriving DecidableEq, Repr

namespace ScalarOverride

/-- The representation that the override asks for. -/
def representation : ScalarOverride → Representation
  | uniform type => .uniform type
  | split input output => ⟨input, output⟩

/-- Whether some type of the override is blank. -/
def HasBlank (o : ScalarOverride) : Prop :=
  Text.IsBlank o.representation.input ∨ Text.IsBlank o.representation.output

instance (o : ScalarOverride) : Decidable o.HasBlank := instDecidableOr

end ScalarOverride

/-- The configuration of a run. -/
structure Config where
  /-- Whether the type-identity predicate is left out for objects that belong to no union. -/
  isTypeOfOnlyIfNeeded : Bool := false
  /-- What scalars are represented by, keyed by their names. -/
  scalars : OrderedMap ScalarOverride := ∅
  /-- What custom scalars without an override are represented by. -/
  defaultScalarType : String := "any"
  /-- The type of the context that resolvers are given, unless a contract says otherwise. -/
  contextType : String := "any"
  /-- What stands for the root types in both tables. -/
  rootValueType : String := "\x7b\x7d"
  /-- What a resolver may answer with for a value of type `T`. -/
  resolverTypeWrapperSignature : String := "Promise<T> | T"
  /-- What a value of type `T` is that may be null. -/
  maybeValue : String := "T | null"
deriving DecidableEq

namespace Config

instance : Inhabited Config := ⟨{}⟩

/-- Why a configuration is rejected. -/
inductive Error where
  /-- The document is no JSON text, or a value in it has another form than its option. -/
  | malformed
  | unreadable
  | invalidValue (option message : String)
deriving DecidableEq, Repr

def Error.message : Error → String
  | malformed => "invalid configuration document: malformed"
  | unreadable => "IO error: unreadable"
  | invalidValue option message => s!"invalid value for option '{option}': {message}"

/-- Adds an override, or replaces the one that is there in its place. -/
def withScalar (c : Config) (name : String) (value : ScalarOverride) : Config :=
  { c with scalars := c.scalars.insert name value }

/-- The options whose value is a type expression, with their names in documents. -/
def textOptions (c : Config) : List (String × String) :=
  [("defaultScalarType", c.defaultScalarType), ("contextType", c.contextType),
    ("rootValueType", c.rootValueType),
    ("resolverTypeWrapperSignature", c.resolverTypeWrapperSignature), ("maybeValue", c.maybeValue)]

/-- All that is wrong with the configuration: blank options first, then blank scalars, each in
order. -/
def violations (c : Config) : List Error :=
  (c.textOptions.filter fun (_, value) => Text.IsBlank value).map
      (fun (option, _) => .invalidValue option "must not be empty") ++
    (c.scalars.entries.filter fun (_, value) => value.HasBlank).map
      fun (name, _) => .invalidValue ("scalars." ++ name) "scalar representation must not be empty"

/-- Accepts a configuration with nothing wrong with it, and reports the first violation of any
other. -/
def validate (c : Config) : Except Error Unit :=
  match c.violations with
  | [] => .ok ()
  | e :: _ => .error e

/-- What the named scalar is represented by: what the override says, else what a built-in scalar
carries, else the default for custom scalars. -/
def representation (c : Config) (name : String) : Representation :=
  match c.scalars.get? name with
  | some value => value.representation
  | none =>
    match BuiltinScalar.ofName? name with
    | some scalar => .uniform scalar.valueType
    | none => .uniform c.defaultScalarType

/-- Whether two configurations agree on every option; the order of the overrides does not count. -/
def agrees (c d : Config) : Bool :=
  decide ({ c with scalars := ∅ } = { d with scalars := ∅ }) && c.scalars.sameBindings d.scalars

theorem validate_eq_ok_iff {c : Config} : c.validate = .ok () ↔ c.violations = [] := by
  rw [validate]
  cases c.violations with
  | nil => exact iff_of_true rfl rfl
  | cons e rest => exact iff_of_false nofun nofun

end Config

end ResolverTypes
