import ResolverTypes.Sdl.Definition
import ResolverTypes.Sdl.Token

/-!
# The grammar of schema documents

One parser per rule of the grammar, down to `definitions`, which reads a whole document. Directives
and default values leave no trace in a definition but their numbers, so a parser of something that
may hold them answers with a pair: what was read, and the numbers in it.
-/

namespace ResolverTypes.Sdl

open ResolverTypes.Parser

variable {α : Type}

/-! ## Constants and directives -/

/-- Reads a constant whose brackets nest less than `depth` levels deep, and answers with its
numbers. -/
def constantWithin : Nat → Parser (List Decimal)
  | 0 => failure
  | depth + 1 =>
    (do return [← number]) <|>
    (do let _ ← string; return []) <|>
    (do keyword "true" <|> keyword "false"; return []) <|>
    (do keyword "null"; return []) <|>
    (do let _ ← enumValue; return []) <|>
    (do
      mark '['
      let items ← many (constantWithin depth)
      mark ']'
      return items.flatten) <|>
    (do
      mark '{'
      let members ← many do
        let _ ← name
        mark ':'
        constantWithin depth
      mark '}'
      return members.flatten)

/-- Reads a constant and answers with its numbers. There are fewer brackets than characters, plus
one. -/
def constant : Parser (List Decimal) := fun s => constantWithin (s.length + 1) s

def directiveArgument : Parser (List Decimal) := do
  let _ ← name
  mark ':'
  constant

def directiveArguments : Parser (List Decimal) := do
  mark '('
  let args ← many1 directiveArgument
  mark ')'
  return args.flatten

def directive : Parser (List Decimal) := do
  mark '@'
  let _ ← name
  let args ← optional directiveArguments
  return args.getD []

/-- Reads one directive or more. -/
def directives : Parser (List Decimal) := do
  let all ← many1 directive
  return all.flatten

/-- Reads directives, if there are any. -/
def directives? : Parser (List Decimal) := do
  let all ← optional directives
  return all.getD []

def defaultValue : Parser (List Decimal) := do
  mark '='
  constant

/-! ## Parts of types -/

def inputValue : Parser (InputValue × List Decimal) := do
  let description ← optional string
  let name ← name
  mark ':'
  let type ← typeRef
  let default ← optional defaultValue
  let numbers ← directives?
  return ({ name, type, description, hasDefault := default.isSome }, default.getD [] ++ numbers)

/-- Separates what was read from the numbers in it. -/
def gather (parts : List (α × List Decimal)) : List α × List Decimal :=
  (parts.map Prod.fst, parts.flatMap Prod.snd)

def argumentsDefinition : Parser (List InputValue × List Decimal) := do
  mark '('
  let args ← many1 inputValue
  mark ')'
  return gather args

def field : Parser (Field × List Decimal) := do
  let description ← optional string
  let name ← name
  let args ← optional argumentsDefinition
  mark ':'
  let type ← typeRef
  let numbers ← directives?
  let (args, argNumbers) := args.getD ([], [])
  return ({ name, type, description, args }, argNumbers ++ numbers)

/-- Reads one part of a type or more, between braces. -/
def braced (part : Parser (α × List Decimal)) : Parser (List α × List Decimal) := do
  mark '{'
  let parts ← many1 part
  mark '}'
  return gather parts

/-- Reads names with a separator between them, and perhaps one in front. -/
def separatedNames (separator : Char) : Parser (List String) := do
  let _ ← optional (mark separator)
  let first ← name
  let rest ← many (do mark separator; name)
  return first :: rest

def implementsClause : Parser (List String) := do
  keyword "implements"
  separatedNames '&'

def unionMembers : Parser (List String × List Decimal) := do
  mark '='
  return (← separatedNames '|', [])

def enumValueDefinition : Parser (EnumValue × List Decimal) := do
  let description ← optional string
  let name ← enumValue
  let numbers ← directives?
  return ({ name, description }, numbers)

/-! ## Types -/

/-- Reads directives and then content, both of which may be missing. -/
def contents (content : Parser (List α × List Decimal)) : Parser (List α × List Decimal) := do
  let numbers ← directives?
  let parts ← optional content
  let (parts, partNumbers) := parts.getD ([], [])
  return (parts, numbers ++ partNumbers)

/-- Reads directives and then content, one of which may be missing. -/
def addedContents (content : Parser (List α × List Decimal)) : Parser (List α × List Decimal) :=
  (do
    let numbers ← directives?
    let (parts, partNumbers) ← content
    return (parts, numbers ++ partNumbers)) <|>
  (do return ([], ← directives))

/-- What an extension of an object may add besides directives and fields is interfaces, and they may
be all that it adds. -/
def addedObject : Parser ((List String × List Field) × List Decimal) :=
  (do
    let interfaces ← optional implementsClause
    let (fields, numbers) ← addedContents (braced field)
    return ((interfaces.getD [], fields), numbers)) <|>
  (do return ((← implementsClause, []), []))

/-- Reads the body of a type, from the keyword for its kind on, with the name of the type. -/
def typeBody : Parser (String × TypeBody × List Decimal) :=
  (do
    keyword "scalar"
    let name ← name
    return (name, .scalar, ← directives?)) <|>
  (do
    keyword "type"
    let name ← name
    let interfaces ← optional implementsClause
    let (fields, numbers) ← contents (braced field)
    return (name, .object (interfaces.getD []) fields, numbers)) <|>
  (do
    keyword "interface"
    let name ← name
    let interfaces ← optional implementsClause
    let (fields, numbers) ← contents (braced field)
    return (name, .interface (interfaces.getD []) fields, numbers)) <|>
  (do
    keyword "union"
    let name ← name
    let (members, numbers) ← contents unionMembers
    return (name, .union members, numbers)) <|>
  (do
    keyword "enum"
    let name ← name
    let (values, numbers) ← contents (braced enumValueDefinition)
    return (name, .enum values, numbers)) <|>
  (do
    keyword "input"
    let name ← name
    let (fields, numbers) ← contents (braced inputValue)
    return (name, .inputObject fields, numbers))

/-- Reads the body of an extension, from the keyword for its kind on, with the name of the type that
it extends. Unlike a definition, an extension must add something. -/
def addedBody : Parser (String × TypeBody × List Decimal) :=
  (do
    keyword "scalar"
    let name ← name
    return (name, .scalar, ← directives)) <|>
  (do
    keyword "type"
    let name ← name
    let ((interfaces, fields), numbers) ← addedObject
    return (name, .object interfaces fields, numbers)) <|>
  (do
    keyword "interface"
    let name ← name
    let interfaces ← optional implementsClause
    let (fields, numbers) ← addedContents (braced field)
    return (name, .interface (interfaces.getD []) fields, numbers)) <|>
  (do
    keyword "union"
    let name ← name
    let (members, numbers) ← addedContents unionMembers
    return (name, .union members, numbers)) <|>
  (do
    keyword "enum"
    let name ← name
    let (values, numbers) ← addedContents (braced enumValueDefinition)
    return (name, .enum values, numbers)) <|>
  (do
    keyword "input"
    let name ← name
    let (fields, numbers) ← addedContents (braced inputValue)
    return (name, .inputObject fields, numbers))

/-- Reads a definition or an extension of a type. Only a definition may be described. -/
def typeDefinition : Parser Draft :=
  (do
    let description ← optional string
    let (name, body, numbers) ← typeBody
    return { content := .type false { name, description, body }, numbers }) <|>
  (do
    keyword "extend"
    let (name, body, numbers) ← addedBody
    return { content := .type true { name, body }, numbers })

/-! ## Schema definitions -/

def operation : Parser Operation :=
  (do keyword "query"; return .query) <|>
  (do keyword "mutation"; return .mutation) <|>
  (do keyword "subscription"; return .subscription)

def rootAssignment : Parser (Operation × String) := do
  let op ← operation
  mark ':'
  return (op, ← name)

/-- Reads one assignment of a root type or more, between braces. -/
def rootAssignments : Parser (List (Operation × String)) := do
  mark '{'
  let assignments ← many1 rootAssignment
  mark '}'
  return assignments

/-- Reads a schema definition or an extension of one. -/
def schemaDefinition : Parser Draft :=
  (do
    keyword "schema"
    let numbers ← directives?
    return { content := .schema false (← rootAssignments), numbers }) <|>
  (do
    keyword "extend"
    keyword "schema"
    (do
      let numbers ← directives?
      return { content := .schema true (← rootAssignments), numbers }) <|>
    (do return { content := .schema true [], numbers := ← directives }))

/-! ## Directive definitions -/

/-- The places where a directive may stand. A place whose name begins with that of another comes
first, since the first name that fits is taken. -/
def directivePlaces : List String :=
  ["QUERY", "MUTATION", "SUBSCRIPTION", "FIELD_DEFINITION", "FIELD", "FRAGMENT_DEFINITION",
    "FRAGMENT_SPREAD", "INLINE_FRAGMENT", "VARIABLE_DEFINITION", "SCHEMA", "SCALAR", "OBJECT",
    "ARGUMENT_DEFINITION", "INTERFACE", "UNION", "ENUM_VALUE", "ENUM", "INPUT_OBJECT",
    "INPUT_FIELD_DEFINITION"]

/-- Reads a place where a directive may stand. -/
def directivePlace : Parser Unit :=
  directivePlaces.foldr (fun place others => keyword place <|> others) failure

def directiveDefinition : Parser Draft := do
  let _ ← optional string
  keyword "directive"
  mark '@'
  let _ ← name
  let args ← optional argumentsDefinition
  let _ ← optional (keyword "repeatable")
  keyword "on"
  let _ ← optional (mark '|')
  directivePlace
  let _ ← many (do mark '|'; directivePlace)
  return { content := .directive, numbers := (args.getD ([], [])).2 }

/-! ## Documents -/

def definition : Parser Draft := schemaDefinition <|> typeDefinition <|> directiveDefinition

/-- Reads one definition or more, with what may be skipped before the first. -/
def document : Parser (List Draft) := do
  skip
  many1 definition

/-- The definitions of a document in the order in which it gives them. A text that does not follow
the grammar is rejected before anything in it is looked at. -/
def definitions (text : String) : Except Error (List Definition) :=
  match document.parse? text with
  | none => .error .malformed
  | some drafts => drafts.mapM Draft.check

end ResolverTypes.Sdl
