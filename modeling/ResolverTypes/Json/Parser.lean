import ResolverTypes.Json.Basic
import ResolverTypes.Text.Quoted

/-!
# Reading JSON

The strict grammar: no comments, no trailing commas, nothing before or after the value but blanks,
and no control characters inside quotes. Brackets may nest to any depth; the reader recurses on a
bound that the length of the text always meets.
-/

namespace ResolverTypes.Json

open ResolverTypes.Parser

/-- Skips blanks. -/
def blanks : Parser Unit := do
  let _ ← takeWhile fun c => c = ' ' || c = '\t' || c = '\n' || c = '\r'
  return ()

/-- Reads a text that stands for itself, and the blanks after it. -/
def symbol (text : String) : Parser Unit := do
  literal text
  blanks

/-! ## Texts -/

/-- The characters of a text, or `none` if a surrogate has no partner. -/
def joinPieces? : List Text.Piece → Option (List Char)
  | [] => some []
  | .char c :: rest => (joinPieces? rest).map (c :: ·)
  | .surrogate high :: .surrogate low :: rest =>
    if high < 0xdc00 ∧ 0xdc00 ≤ low then
      (joinPieces? rest).map (Char.ofNat (0x10000 + (high - 0xd800) * 0x400 + (low - 0xdc00)) :: ·)
    else none
  | .surrogate _ :: _ => none

/-- Reads a quoted text and the blanks after it. -/
def quoted : Parser (Option String) := do
  let pieces ← Text.quoted fun c => 0x20 ≤ c.toNat
  blanks
  return (joinPieces? pieces).map String.ofList

/-! ## Values -/

/-- Reads any number of items with commas between them. -/
def separated {α : Type} (item : Parser α) : Parser (List α) :=
  (do
    let first ← item
    let rest ← many (do symbol ","; item)
    return first :: rest) <|>
  return []

/-- Reads a number and the blanks after it. -/
def numberValue : Parser Json := do
  let d ← Decimal.literal
  blanks
  return .number d

/-- Reads a value whose brackets nest less than `depth` levels deep, and the blanks after it. -/
def valueWithin : Nat → Parser Json
  | 0 => failure
  | depth + 1 =>
    (do symbol "null"; return .null) <|>
    (do symbol "true"; return .bool true) <|>
    (do symbol "false"; return .bool false) <|>
    (do return .string (← quoted)) <|>
    numberValue <|>
    (do
      symbol "["
      let items ← separated (valueWithin depth)
      symbol "]"
      return .array items) <|>
    (do
      symbol "\x7b"
      let members ← separated do
        let name ← quoted
        symbol ":"
        let value ← valueWithin depth
        return (name, value)
      symbol "\x7d"
      return .object members)

/-- The value that the text spells. A text has fewer brackets than it has characters, plus one. -/
def parse? (text : String) : Option Json :=
  Parser.parse? (do blanks; valueWithin (text.length + 1)) text

end ResolverTypes.Json
