import Mathlib.Data.List.Forall2
import ResolverTypes.Json.Parser

/-!
# How JSON values are spelled

The grammar of JSON, said as a relation between texts and values and without regard to how texts are
read. A value has many spellings: blanks may stand around it, around its items and members, and in
front of a colon; a character inside quotes stands for itself or is escaped in one of three ways;
and a number may have zeros at its end.

A text with half of a surrogate pair in it is spelled correctly and still stands for no characters.
-/

namespace ResolverTypes.Json

open Text

/-! ## Blanks -/

/-- Whether the character may stand between tokens. -/
def isGap (c : Char) : Bool := c = ' ' || c = '\t' || c = '\n' || c = '\r'

def IsGap (g : List Char) : Prop := ∀ c ∈ g, isGap c = true

instance (g : List Char) : Decidable (IsGap g) := List.decidableBAll _ _

theorem isGap_nil : IsGap [] := List.forall_mem_nil _

/-! ## Texts -/

/-- Whether what stands inside quotes is the character: as it is, escaped by a letter or by its
number, or as a surrogate pair. -/
inductive SpellsChar : List Char → Char → Prop
  | plain {c : Char} (printable : 0x20 ≤ c.toNat) (quote : c ≠ '"') (backslash : c ≠ '\\') :
    SpellsChar [c] c
  | letter {e c : Char} (escaped : escaped? e = some c) : SpellsChar ['\\', e] c
  | number {i j k l c : Char} (digits : hexNumber? i j k l = some c.toNat) :
    SpellsChar ['\\', 'u', i, j, k, l] c
  | pair {i j k l i' j' k' l' c : Char} {high low : Nat}
    (first : hexNumber? i j k l = some high) (second : hexNumber? i' j' k' l' = some low)
    (isHigh : 0xd800 ≤ high ∧ high < 0xdc00) (isLow : 0xdc00 ≤ low ∧ low < 0xe000)
    (joined : c.toNat = 0x10000 + (high - 0xd800) * 0x400 + (low - 0xdc00)) :
    SpellsChar ['\\', 'u', i, j, k, l, '\\', 'u', i', j', k', l'] c

/-- Whether what stands inside quotes is a character, or an escape of any number, by itself. -/
inductive SpellsPiece : List Char → Piece → Prop
  | plain {c : Char} (printable : 0x20 ≤ c.toNat) (quote : c ≠ '"') (backslash : c ≠ '\\') :
    SpellsPiece [c] (.char c)
  | letter {e c : Char} (escaped : escaped? e = some c) : SpellsPiece ['\\', e] (.char c)
  | number {i j k l : Char} {n : Nat} (digits : hexNumber? i j k l = some n) :
    SpellsPiece ['\\', 'u', i, j, k, l] (.ofNumber n)

/-- What stands inside quotes, in quotes. -/
def inQuotes (units : List (List Char)) : List Char := '"' :: (units.flatten ++ ['"'])

/-- Whether the quoted text has these characters, or none at all. -/
inductive SpellsText : List Char → Option String → Prop
  | text {units : List (List Char)} {s : String} (chars : List.Forall₂ SpellsChar units s.toList) :
    SpellsText (inQuotes units) (some s)
  | unpaired {units : List (List Char)} {pieces : List Piece}
    (spelled : List.Forall₂ SpellsPiece units pieces) (alone : joinPieces? pieces = none) :
    SpellsText (inQuotes units) none

/-! ## Numbers -/

def IsDigits (l : List Char) : Prop := l ≠ [] ∧ ∀ c ∈ l, c.isDigit = true

/-- Whether the characters are digits, the first of which is no superfluous zero. -/
def IsWhole (l : List Char) : Prop := IsDigits l ∧ (l.head? = some '0' → l = ['0'])

/-- Whether the text is a fraction with these digits, or is missing and so are the digits. -/
inductive SpellsFraction : List Char → List Char → Prop
  | none : SpellsFraction [] []
  | part {digits : List Char} (isDigits : IsDigits digits) :
    SpellsFraction ('.' :: digits) digits

/-- Whether the text is an exponent with this value, or is missing. -/
inductive SpellsExponent : List Char → Int → Prop
  | none : SpellsExponent [] 0
  | unsigned {e : Char} {digits : List Char} (isMark : e = 'e' ∨ e = 'E')
    (isDigits : IsDigits digits) : SpellsExponent (e :: digits) (Decimal.ofDigits digits)
  | plus {e : Char} {digits : List Char} (isMark : e = 'e' ∨ e = 'E')
    (isDigits : IsDigits digits) : SpellsExponent (e :: '+' :: digits) (Decimal.ofDigits digits)
  | minus {e : Char} {digits : List Char} (isMark : e = 'e' ∨ e = 'E')
    (isDigits : IsDigits digits) : SpellsExponent (e :: '-' :: digits) (-Decimal.ofDigits digits)

/-- Whether the text is a number of this magnitude. -/
inductive SpellsNumber : List Char → Decimal → Prop
  | mk {sign whole fraction part exponent : List Char} {scale : Int}
    (signed : sign = [] ∨ sign = ['-']) (isWhole : IsWhole whole)
    (fractional : SpellsFraction fraction part) (scaled : SpellsExponent exponent scale) :
    SpellsNumber (sign ++ (whole ++ (fraction ++ exponent)))
      ⟨Decimal.ofDigits (whole ++ part), scale - part.length⟩

/-! ## Values -/

/-- Texts with commas between them. -/
def withCommas (texts : List (List Char)) : List Char := [','].intercalate texts

mutual

/-- Whether the text is the value. -/
inductive Spells : List Char → Json → Prop
  | null : Spells ['n', 'u', 'l', 'l'] .null
  | true : Spells ['t', 'r', 'u', 'e'] (.bool true)
  | false : Spells ['f', 'a', 'l', 's', 'e'] (.bool false)
  | number {t : List Char} {d : Decimal} (spelled : SpellsNumber t d) : Spells t (.number d)
  | string {t : List Char} {text : Option String} (spelled : SpellsText t text) :
    Spells t (.string text)
  | noItems {g : List Char} (gap : IsGap g) : Spells ('[' :: (g ++ [']'])) (.array [])
  | items {texts : List (List Char)} {items : List Json}
    (spelled : List.Forall₂ SpellsItem texts items) :
    Spells ('[' :: (withCommas texts ++ [']'])) (.array items)
  | noMembers {g : List Char} (gap : IsGap g) : Spells ('{' :: (g ++ ['}'])) (.object [])
  | members {texts : List (List Char)} {members : List (Option String × Json)}
    (spelled : List.Forall₂ SpellsMember texts members) :
    Spells ('{' :: (withCommas texts ++ ['}'])) (.object members)

/-- Whether the text is the value, perhaps with blanks around it. So are the items of a list and the
text of a document. -/
inductive SpellsItem : List Char → Json → Prop
  | mk {g t g' : List Char} {value : Json} (before : IsGap g) (spelled : Spells t value)
    (behind : IsGap g') : SpellsItem (g ++ (t ++ g')) value

/-- Whether the text is a name and a value, with a colon between them and perhaps with blanks. -/
inductive SpellsMember : List Char → Option String × Json → Prop
  | mk {g t g' u : List Char} {name : Option String} {value : Json} (before : IsGap g)
    (named : SpellsText t name) (behind : IsGap g') (spelled : SpellsItem u value) :
    SpellsMember (g ++ (t ++ (g' ++ ':' :: u))) (name, value)

end

theorem spellsItem_of_spells {t : List Char} {v : Json} (spelled : Spells t v) :
    SpellsItem t v := by
  have bare := SpellsItem.mk isGap_nil spelled isGap_nil
  rwa [List.nil_append, List.append_nil] at bare

/-- Whether the text of a document is the value. -/
def Describes (text : String) (value : Json) : Prop := SpellsItem text.toList value

end ResolverTypes.Json
