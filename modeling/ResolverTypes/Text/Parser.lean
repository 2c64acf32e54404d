/-!
# Parsers

A parser reads a prefix of a list of characters and leaves the rest, or fails and leaves nothing. A
choice `p <|> q` is ordered: `q` is tried, from where `p` began, only if `p` fails, and a choice
that was made is never taken back. `many p` repeats `p` as often as it succeeds and moves on.

No parser here reports where it failed: a document that does not follow its grammar is rejected as a
whole.
-/

namespace ResolverTypes

universe u

/-- A parser over a list of characters. -/
abbrev Parser := StateT (List Char) Option

namespace Parser

variable {α : Type}

/-- Reads one character with the property. -/
def satisfy (p : Char → Bool) : Parser Char
  | c :: rest => if p c then some (c, rest) else none
  | [] => none

/-- Reads the given character. -/
def char (c : Char) : Parser Unit
  | d :: rest => if d = c then some ((), rest) else none
  | [] => none

/-- Reads the given text. -/
def literal (text : String) : Parser Unit := fun s =>
  (text.toList.isPrefixOf? s).map fun rest => ((), rest)

/-- Reads the longest prefix of characters with the property. -/
def takeWhile (p : Char → Bool) : Parser (List Char) := fun s =>
  some (s.takeWhile p, s.dropWhile p)

/-- Reads the longest prefix of characters with the property, which must not be empty. -/
def takeWhile1 (p : Char → Bool) : Parser (List Char) := do
  let first ← satisfy p
  let rest ← takeWhile p
  return first :: rest

/-- Reads nothing, and fails if the next character has the property. -/
def notFollowedBy (p : Char → Bool) : Parser Unit
  | c :: rest => if p c then none else some ((), c :: rest)
  | [] => some ((), [])

/-- The repetition behind `many`: what was read, and the rest. -/
def manyFrom (p : Parser α) (s : List Char) : List α × List Char :=
  match p s with
  | none => ([], s)
  | some (a, rest) =>
    if rest.length < s.length then
      let (as, rest') := manyFrom p rest
      (a :: as, rest')
    else ([], s)
termination_by s.length

/-- Repeats `p` as long as it succeeds and consumes something. -/
def many (p : Parser α) : Parser (List α) := fun s => some (manyFrom p s)

/-- Repeats `p` as long as it succeeds and consumes something, but once at least. -/
def many1 (p : Parser α) : Parser (List α) := do
  let first ← p
  let rest ← many p
  return first :: rest

/-- What the parser makes of the whole text, if it reads all of it. -/
def parse? (p : Parser α) (text : String) : Option α :=
  match p text.toList with
  | some (a, []) => some a
  | _ => none

theorem manyFrom_of_none {p : Parser α} {s : List Char} (h : p s = none) :
    manyFrom p s = ([], s) := by
  rw [manyFrom, h]

theorem manyFrom_of_some {p : Parser α} {s rest : List Char} {a : α} (h : p s = some (a, rest))
    (hlt : rest.length < s.length) :
    manyFrom p s = (a :: (manyFrom p rest).1, (manyFrom p rest).2) := by
  rw [manyFrom, h]
  simp only [if_pos hlt]

end Parser

end ResolverTypes
