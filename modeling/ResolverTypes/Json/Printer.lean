import ResolverTypes.Json.Basic
import ResolverTypes.Text.Quoted

/-!
# Writing JSON

The value on one line without blanks. Inside quotes, the quote, the backslash and the control
characters are escaped and all other characters stand for themselves.
-/

namespace ResolverTypes.Json

/-- One character of a text as it stands inside quotes. -/
def escape (c : Char) : List Char :=
  match c with
  | '"' => ['\\', '"']
  | '\\' => ['\\', '\\']
  | '\x08' => ['\\', 'b']
  | '\x0c' => ['\\', 'f']
  | '\n' => ['\\', 'n']
  | '\r' => ['\\', 'r']
  | '\t' => ['\\', 't']
  | c =>
    if c.toNat < 0x20 then
      ['\\', 'u', '0', '0', Text.hexChar (c.toNat / 16), Text.hexChar (c.toNat % 16)]
    else [c]

/-- A text in quotes. A text without characters is an unpaired surrogate and nothing else. -/
def quote : Option String → String
  | some text => String.ofList ('"' :: text.toList.flatMap escape ++ ['"'])
  | none => "\"\\ud800\""

/-- A number as its digits and a power of ten. -/
def numeral (d : Decimal) : String := toString d.mantissa ++ "e" ++ toString d.exponent

mutual

/-- The value as a document spells it. -/
def render : Json → String
  | null => "null"
  | bool true => "true"
  | bool false => "false"
  | number d => numeral d
  | string text => quote text
  | array items => "[" ++ ",".intercalate (renderItems items) ++ "]"
  | object members => "\x7b" ++ ",".intercalate (renderMembers members) ++ "\x7d"

/-- The values of a list as a document spells them. -/
def renderItems : List Json → List String
  | [] => []
  | item :: rest => render item :: renderItems rest

/-- The members of an object as a document spells them. -/
def renderMembers : List (Option String × Json) → List String
  | [] => []
  | (name, value) :: rest => (quote name ++ ":" ++ render value) :: renderMembers rest

end

end ResolverTypes.Json
