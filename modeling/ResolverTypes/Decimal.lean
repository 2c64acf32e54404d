import ResolverTypes.Text.Parser

/-!
# Decimal literals

The numbers of schema and configuration documents: an integer without superfluous zeros, then
perhaps a fraction, then perhaps an exponent. Their values are used for nothing but one question:
whether the number is finite as a 64-bit floating-point number.

The number is not rounded once, from its exact value. The leading digits that fit a 64-bit word are
rounded, the power of ten that remains is rounded, and then their product is. Near the largest
finite number this decides otherwise than the exact value would: `17976931348623158e292` is not
finite, but `1.79769313486231581e308`, which is a little more, is.
-/

namespace ResolverTypes

/-- The magnitude `mantissa * 10 ^ exponent` of a decimal literal. -/
structure Decimal where
  /-- The digits of the literal, read as one number. -/
  mantissa : Nat
  /-- The power of ten that the digits are scaled by. -/
  exponent : Int
deriving DecidableEq, Repr

namespace Decimal

def digitCount (n : Nat) : Nat := (Nat.toDigits 10 n).length

/-- The decimal without its last digits. The power of ten makes up for them. -/
def dropDigits (count : Nat) (d : Decimal) : Decimal :=
  ⟨d.mantissa / Nat.pow 10 count, d.exponent + count⟩

/-- The decimal with no more of its leading digits than fit a 64-bit word. Twenty digits may fit,
and nineteen always do. -/
def leading (d : Decimal) : Decimal :=
  let twenty := d.dropDigits (digitCount d.mantissa - 20)
  if twenty.mantissa < Nat.pow 2 64 then twenty else twenty.dropDigits 1

/-- The nearest number whose binary digits are all zero after the first 53, and of two equally near
ones the one that is even in its 53rd digit. That is the nearest 64-bit floating-point number, were
there no largest one. -/
def nearestFloat (n : Nat) : Nat :=
  let unit := Nat.pow 2 (n.log2 - 52)
  let quotient := n / unit
  let twice := 2 * (n % unit)
  if twice < unit || (twice = unit && quotient % 2 = 0) then quotient * unit
  else (quotient + 1) * unit

/-- The least magnitude that rounds to infinity: halfway between the largest finite 64-bit
floating-point number and the next power of two. -/
def overflow : Nat := Nat.pow 2 1024 - Nat.pow 2 970

/-- Whether the number is finite as a 64-bit floating-point number. A division by a power of ten
never leaves the finite numbers, and `10 ^ 308` is the last power of ten among them. -/
def isFinite (d : Decimal) : Bool :=
  let ⟨word, exponent⟩ := d.leading
  word = 0 || exponent < 0 ||
    (exponent ≤ 308 && nearestFloat word * nearestFloat (Nat.pow 10 exponent.toNat) < overflow)

/-- The value of a list of decimal digits. -/
def ofDigits (digits : List Char) : Nat :=
  digits.foldl (fun n c => 10 * n + (c.toNat - '0'.toNat)) 0

def digits1 : Parser (List Char) := Parser.takeWhile1 Char.isDigit

/-- Reads the digits of an integer: a single zero, or digits that begin with another one. -/
def integerDigits : Parser (List Char) :=
  (do Parser.char '0'; return ['0']) <|> digits1

/-- Reads a point and the digits after it. -/
def fraction : Parser (List Char) := do
  Parser.char '.'
  digits1

/-- Reads the sign of an exponent and answers whether it is negative. -/
def exponentSign : Parser Bool :=
  (do Parser.char '+'; return false) <|> (do Parser.char '-'; return true) <|> return false

def exponentPart : Parser Int := do
  let _ ← Parser.satisfy fun c => c = 'e' || c = 'E'
  let negative ← exponentSign
  let digits ← digits1
  return if negative then -(ofDigits digits : Int) else ofDigits digits

/-- Reads a decimal literal. Its sign has no bearing on its magnitude. -/
def literal : Parser Decimal := do
  let _ ← optional (Parser.char '-')
  let whole ← integerDigits
  let part ← optional fraction
  let scale ← optional exponentPart
  let part := part.getD []
  return ⟨ofDigits (whole ++ part), scale.getD 0 - part.length⟩

end Decimal

end ResolverTypes
