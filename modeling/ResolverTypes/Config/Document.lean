import ResolverTypes.Config.Basic
import ResolverTypes.Json.Parser
import ResolverTypes.Json.Printer

/-!
# Configuration documents

A configuration is written as a JSON object whose keys are the names of the options. Options that
are left out have their default values, and keys that name no option are passed over with whatever
is under them. Two more forms are accepted: where an object of options stands, a list may stand with
the values in the order of the options.

An option must not be given twice. Overrides are different: a scalar may be given twice, and then
keeps its first place and takes its last value.
-/

namespace ResolverTypes.Config

/-! ## Reading -/

/-- How a value changes the configuration, or `none` if it has not the form of the option. -/
abbrev Setter := Config → Json → Option Config

/-- The option that must be a text. -/
def textSetter (set : Config → String → Config) : Setter
  | c, .string (some text) => some (set c text)
  | _, _ => none

/-- The option that must be a truth value. -/
def boolSetter (set : Config → Bool → Config) : Setter
  | c, .bool value => some (set c value)
  | _, _ => none

/-- The options of an object, by name and in the order in which a list gives them. -/
abbrev Options := List (String × Setter)

/-- Gives the members of an object to the options that they name. `taken` holds the options that
earlier members have given. -/
def readMembers (options : Options) (taken : List String) (c : Config) :
    List (Option String × Json) → Option Config
  | [] => some c
  | (none, _) :: _ => none
  | (some name, value) :: rest =>
    match options.lookup name with
    | none => readMembers options taken c rest
    | some set =>
      if name ∈ taken then none
      else (set c value).bind fun c => readMembers options (name :: taken) c rest

/-- Gives the items of a list to the options in their order. -/
def readItems : Options → Config → List Json → Option Config
  | _, c, [] => some c
  | [], _, _ :: _ => none
  | (_, set) :: options, c, item :: rest => (set c item).bind fun c => readItems options c rest

/-- Reads an object of options, or a list of their values. -/
def readOptions (options : Options) : Setter
  | c, .object members => readMembers options [] c members
  | c, .array items => readItems options c items
  | _, _ => none

/-- The value of the one member of that name, or `none` if there is none or more than one. -/
def theMember? (name : String) (members : List (Option String × Json)) : Option Json :=
  match members.filter fun (n, _) => n = some name with
  | [(_, value)] => some value
  | _ => none

/-- How many levels deep an override may nest. -/
def overrideDepth : Nat := 125

/-- Reads an override: a text, or an object with an input and an output type. What else the object
holds is passed over, but has to be plain. -/
def readOverride (value : Json) : Option ScalarOverride :=
  if value.isPlainWithin overrideDepth then
    match value with
    | .string (some type) => some (.uniform type)
    | .object members =>
      match theMember? "input" members, theMember? "output" members with
      | some (.string (some input)), some (.string (some output)) => some (.split input output)
      | _, _ => none
    | _ => none
  else none

/-- Reads overrides on top of those there are. -/
def readScalars (scalars : OrderedMap ScalarOverride) :
    List (Option String × Json) → Option (OrderedMap ScalarOverride)
  | [] => some scalars
  | (none, _) :: _ => none
  | (some name, value) :: rest =>
    (readOverride value).bind fun o => readScalars (scalars.insert name o) rest

/-- The options about internal resolvers. -/
def internalOptions : Options :=
  [("__isTypeOf", boolSetter fun c value => { c with isTypeOfOnlyIfNeeded := value })]

/-- The options of a document. -/
def options : Options :=
  [("generateInternalResolversIfNeeded", readOptions internalOptions),
    ("scalars", fun c value => match value with
      | .object members => (readScalars ∅ members).map fun scalars => { c with scalars }
      | _ => none),
    ("defaultScalarType", textSetter fun c text => { c with defaultScalarType := text }),
    ("contextType", textSetter fun c text => { c with contextType := text }),
    ("rootValueType", textSetter fun c text => { c with rootValueType := text }),
    ("resolverTypeWrapperSignature",
      textSetter fun c text => { c with resolverTypeWrapperSignature := text }),
    ("maybeValue", textSetter fun c text => { c with maybeValue := text })]

/-- The configuration that a JSON value describes. -/
def ofJson? (value : Json) : Option Config := readOptions options {} value

/-- The valid configuration that a document describes. -/
def ofDocument (text : String) : Except Error Config :=
  match (Json.parse? text).bind ofJson? with
  | none => .error .malformed
  | some c => c.validate.map fun _ => c

/-- The valid configuration that the bytes of a file describe, where `none` stands for a file that
is not there. -/
def ofFile (content : Option ByteArray) : Except Error Config :=
  match content.bind String.fromUTF8? with
  | none => .error .unreadable
  | some text => ofDocument text

/-! ## Writing -/

/-- An override as documents spell it. -/
def overrideJson : ScalarOverride → Json
  | .uniform type => .ofString type
  | .split input output => .ofMembers [("input", .ofString input), ("output", .ofString output)]

/-- The configuration as a JSON value with all options. -/
def toJson (c : Config) : Json :=
  .ofMembers
    [("generateInternalResolversIfNeeded",
        .ofMembers [("__isTypeOf", .bool c.isTypeOfOnlyIfNeeded)]),
      ("scalars", .ofMembers (c.scalars.entries.map fun (name, o) => (name, overrideJson o))),
      ("defaultScalarType", .ofString c.defaultScalarType),
      ("contextType", .ofString c.contextType),
      ("rootValueType", .ofString c.rootValueType),
      ("resolverTypeWrapperSignature", .ofString c.resolverTypeWrapperSignature),
      ("maybeValue", .ofString c.maybeValue)]

/-- The document that describes the configuration. -/
def document (c : Config) : String := c.toJson.render

/-- Whether the document of the configuration describes the same choices. -/
def roundTrips (c : Config) : Bool :=
  match ofDocument c.document with
  | .ok d => c.agrees d
  | .error _ => false

end ResolverTypes.Config
