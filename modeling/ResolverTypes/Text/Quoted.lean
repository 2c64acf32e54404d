import ResolverTypes.Text.Parser

/-!
# Quoted text

Schema documents and configuration documents quote a text on one line alike: special characters are
written as a backslash and a letter, or as a backslash, `u` and four hexadecimal digits. The number
that such digits spell may be half of a surrogate pair and so no character by itself. What to make
of that, and which characters may stand for themselves, is for each kind of document to say.
-/

namespace ResolverTypes.Text

/-! ## Escapes -/

/-- The character that a backslash and the given character stand for. -/
def escaped? : Char → Option Char
  | '"' => some '"'
  | '\\' => some '\\'
  | '/' => some '/'
  | 'b' => some '\x08'
  | 'f' => some '\x0c'
  | 'n' => some '\n'
  | 'r' => some '\r'
  | 't' => some '\t'
  | _ => none

/-- The value of a hexadecimal digit of either case. -/
def hexValue? (c : Char) : Option Nat :=
  if c.isDigit then some (c.toNat - '0'.toNat)
  else if 'a' ≤ c ∧ c ≤ 'f' then some (c.toNat - 'a'.toNat + 10)
  else if 'A' ≤ c ∧ c ≤ 'F' then some (c.toNat - 'A'.toNat + 10)
  else none

/-- The hexadecimal digit of a number below sixteen. -/
def hexChar (n : Nat) : Char := Char.ofNat (if n < 10 then '0'.toNat + n else 'a'.toNat + (n - 10))

theorem hexValue?_hexChar {n : Nat} (h : n < 16) : hexValue? (hexChar n) = some n := by
  have all : ∀ n : Fin 16, hexValue? (hexChar n) = some n.val := by decide
  exact all ⟨n, h⟩

/-- The number that four hexadecimal digits spell. -/
def hexNumber? (a b c d : Char) : Option Nat := do
  return (((← hexValue? a) * 16 + (← hexValue? b)) * 16 + (← hexValue? c)) * 16 + (← hexValue? d)

/-- Whether the number is half of a surrogate pair. -/
def isSurrogate (n : Nat) : Bool := 0xd800 ≤ n && n ≤ 0xdfff

/-! ## Pieces -/

/-- What one character or escape of a quoted text contributes. -/
inductive Piece where
  | char (c : Char)
  | surrogate (n : Nat)
deriving DecidableEq, Repr

namespace Piece

/-- What the escape of a number contributes. -/
def ofNumber (n : Nat) : Piece := if isSurrogate n then surrogate n else char (Char.ofNat n)

/-- The character that the piece is. -/
def char? : Piece → Option Char
  | char c => some c
  | surrogate _ => none

end Piece

/-- The pieces up to the closing quote, and what follows the quote. Besides escapes, characters with
the property `plain` may stand there. -/
def piecesFrom (plain : Char → Bool) : List Char → Option (List Piece × List Char)
  | '"' :: rest => some ([], rest)
  | '\\' :: 'u' :: a :: b :: c :: d :: rest => do
    let n ← hexNumber? a b c d
    let (pieces, rest) ← piecesFrom plain rest
    return (.ofNumber n :: pieces, rest)
  | '\\' :: c :: rest => do
    let d ← escaped? c
    let (pieces, rest) ← piecesFrom plain rest
    return (.char d :: pieces, rest)
  | c :: rest =>
    if c ≠ '\\' ∧ plain c then do
      let (pieces, rest) ← piecesFrom plain rest
      return (.char c :: pieces, rest)
    else none
  | [] => none

/-- Reads a quoted text. -/
def quoted (plain : Char → Bool) : Parser (List Piece)
  | '"' :: rest => piecesFrom plain rest
  | _ => none

end ResolverTypes.Text
