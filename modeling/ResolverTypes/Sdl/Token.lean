import ResolverTypes.Decimal
import ResolverTypes.Sdl.BlockString
import ResolverTypes.Text.Quoted
import ResolverTypes.TypeRef

/-!
# Tokens of schema documents

Names, punctuation, strings, numbers and type references. Blanks, commas, byte order marks and
comments between tokens mean nothing; a token is read together with those that follow it. Inside a
token, and a type reference with all its brackets is one token, nothing may be skipped.

A keyword is read wherever its letters stand, also at the start of a longer name.
-/

namespace ResolverTypes.Sdl

open ResolverTypes.Parser

variable {α : Type}

/-! ## What lies between tokens -/

/-- Whether the character ends a line. -/
def isLineEnd (c : Char) : Bool := c = '\n' || c = '\r'

/-- Whether the character may stand between tokens. -/
def isIgnored (c : Char) : Bool := c = ' ' || c = ',' || c = '\t' || c = '\ufeff' || isLineEnd c

/-- The input without what may be skipped at its start. Inside a comment, everything up to the end
of the line may be. -/
def skipFrom (inComment : Bool) : List Char → List Char
  | [] => []
  | c :: rest =>
    if inComment then skipFrom (!isLineEnd c) rest
    else if c = '#' then skipFrom true rest
    else if isIgnored c then skipFrom false rest
    else c :: rest

/-- Skips what may stand between tokens. -/
def skip : Parser Unit := fun s => some ((), skipFrom false s)

/-- Reads a token and what may be skipped after it. -/
def token (p : Parser α) : Parser α := do
  let a ← p
  skip
  return a

/-- Reads a keyword. -/
def keyword (text : String) : Parser Unit := token (literal text)

/-- Reads a punctuation mark. -/
def mark (c : Char) : Parser Unit := token (char c)

/-! ## Names and type references -/

/-- Whether a name may begin with the character. -/
def isNameStart (c : Char) : Bool := c.isAlpha || c = '_'

/-- Whether a name may go on with the character. -/
def isNameRest (c : Char) : Bool := c.isAlphanum || c = '_'

/-- Reads the characters of a name. -/
def nameText : Parser String := do
  let first ← satisfy isNameStart
  let rest ← takeWhile isNameRest
  return String.ofList (first :: rest)

/-- Reads a name. -/
def name : Parser String := token nameText

/-- The reference as it is, or without the null value if an exclamation mark follows. -/
def withMark (t : TypeRef) : List Char → TypeRef × List Char
  | '!' :: rest => (t.nonNull, rest)
  | s => (t, s)

/-- Reads the characters of a type reference. -/
def typeText : Parser TypeRef
  | '[' :: rest =>
    match typeText rest with
    | some (t, ']' :: rest) => some (withMark t.list rest)
    | _ => none
  | s => (nameText s).map fun (name, rest) => withMark (.named name) rest

/-- Reads a type reference. -/
def typeRef : Parser TypeRef := token typeText

/-! ## Strings -/

/-- The raw text up to triple quotes that are not escaped, and what follows them. The escape stays
in the text. -/
def blockText : List Char → Option (List Char × List Char)
  | '"' :: '"' :: '"' :: rest => some ([], rest)
  | '\\' :: '"' :: '"' :: '"' :: rest =>
    (blockText rest).map fun (raw, rest) => ('\\' :: '"' :: '"' :: '"' :: raw, rest)
  | c :: rest => (blockText rest).map fun (raw, rest) => (c :: raw, rest)
  | [] => none

/-- Reads a block string. -/
def blockString : Parser (List Char) := do
  literal "\"\"\""
  return BlockString.value (← (blockText : Parser (List Char)))

/-- Reads a string on one line. Half of a surrogate pair is no character and has no place in it. -/
def lineString : Parser (List Char) := do
  let pieces ← Text.quoted fun c => !isLineEnd c
  match pieces.mapM Text.Piece.char? with
  | some text => return text
  | none => failure

/-- Reads a string. Triple quotes that are never closed are an empty string and a quote. -/
def string : Parser String := token do
  return String.ofList (← blockString <|> lineString)

/-- Reads a number. A name must not follow it without a gap. -/
def number : Parser Decimal := token do
  let d ← Decimal.literal
  notFollowedBy isNameStart
  return d

/-- Reads the characters of an enum value: a name that does not begin with a word for a truth value
or for null. -/
def enumText : Parser String := fun s =>
  match (literal "true" <|> literal "false" <|> literal "null" : Parser Unit) s with
  | some _ => none
  | none => nameText s

/-- Reads an enum value. -/
def enumValue : Parser String := token enumText

end ResolverTypes.Sdl
