/-!
# Pascal case

A name is cut into words at `_` and `-`, and each word is written with a capital first letter. A
word without a lowercase ASCII letter is taken to be shouted and lowered after its first letter
(`ADMIN_USER` gives `AdminUser`); any other word keeps its inner casing (`fullName` gives
`FullName`). Only ASCII letters change case.
-/

namespace ResolverTypes.Text

/-- Whether the character separates the words of a name. -/
def isWordSeparator (c : Char) : Bool := c == '_' || c == '-'

/-- Whether a word has no lowercase ASCII letter. -/
def isShouted (word : List Char) : Bool := word.all fun c => !c.isLower

/-- A word with a capital first letter, the rest lowered if the word is shouted. -/
def capitalize (word : List Char) : List Char :=
  match word with
  | [] => []
  | c :: rest => c.toUpper :: if isShouted word then rest.map Char.toLower else rest

/-- The words of a name: its nonempty pieces between separators. -/
def words (name : List Char) : List (List Char) :=
  (name.splitOnP isWordSeparator).filter fun word => !word.isEmpty

/-- The name in Pascal case. -/
def pascalCase (name : String) : String :=
  String.ofList ((words name.toList).flatMap capitalize)

end ResolverTypes.Text
