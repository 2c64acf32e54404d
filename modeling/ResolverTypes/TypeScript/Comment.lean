import ResolverTypes.Text.Blank

/-!
# Comments

A description is written as a documentation comment: on one line if it has one, and otherwise line
by line with a star in front of each. Descriptions are arbitrary text, so whatever would close the
comment early is broken up first.
-/

namespace ResolverTypes.TypeScript

/-- The text with a backslash inside each end-of-comment mark. -/
def breakCommentEnds : List Char → List Char
  | '*' :: '/' :: rest => '*' :: '\\' :: '/' :: breakCommentEnds rest
  | c :: rest => c :: breakCommentEnds rest
  | [] => []

/-- One line of a comment that has several. -/
def commentLine (line : List Char) : List Char := ' ' :: '*' :: ' ' :: Text.trimEnd line ++ ['\n']

/-- The characters of the comment that says what the description says. -/
def commentText (description : List Char) : List Char :=
  let text := breakCommentEnds (Text.trim description)
  if '\n' ∈ text then
    "/**\n".toList ++ (text.splitOn '\n').flatMap commentLine ++ " */".toList
  else "/** ".toList ++ text ++ " */".toList

/-- The comment that says what the description says. -/
def comment (description : String) : String := String.ofList (commentText description.toList)

end ResolverTypes.TypeScript
