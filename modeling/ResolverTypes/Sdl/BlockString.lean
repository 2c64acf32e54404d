/-!
# Block strings

A description between triple quotes may be indented along with what it describes. The indentation
that all lines after the first have in common is not part of the text, and neither are blank lines
before and after it. Here only tabs and spaces count as blank.
-/

namespace ResolverTypes.Sdl.BlockString

/-- Puts a character in front of the first line. -/
def consFirst (c : Char) : List (List Char) → List (List Char)
  | [] => [[c]]
  | line :: rest => (c :: line) :: rest

/-- The lines of a text. A line ends at a carriage return, a line feed, or the one after the
other. -/
def lines : List Char → List (List Char)
  | [] => [[]]
  | '\r' :: '\n' :: rest => [] :: lines rest
  | c :: rest => if c = '\r' ∨ c = '\n' then [] :: lines rest else consFirst c (lines rest)

/-- Whether the character may indent a line. -/
def isIndent (c : Char) : Bool := c = ' ' || c = '\t'

/-- Whether there is something on the line besides indentation. -/
def hasContent (line : List Char) : Bool := line.any fun c => !isIndent c

/-- How far the line is indented. -/
def indentation (line : List Char) : Nat := (line.takeWhile isIndent).length

/-- The least indentation of the lines with content, or zero if there are none. -/
def commonIndentation (lines : List (List Char)) : Nat :=
  ((lines.filter hasContent).map indentation).min?.getD 0

/-- The line without so much indentation. A line that is shorter stays as it is. -/
def outdent (n : Nat) (line : List Char) : List Char :=
  if n ≤ line.length then line.drop n else line

/-- The lines without those at the end that have no content. -/
def dropTrailing (lines : List (List Char)) : List (List Char) :=
  (lines.reverse.dropWhile fun line => !hasContent line).reverse

/-- The text that the raw text between triple quotes stands for. -/
def value (raw : List Char) : List Char :=
  match lines raw with
  | [] => []
  | first :: rest =>
    let outdented := first :: rest.map (outdent (commonIndentation rest))
    ['\n'].intercalate (dropTrailing (outdented.dropWhile fun line => !hasContent line))

end ResolverTypes.Sdl.BlockString
