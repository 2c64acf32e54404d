import ResolverTypes.Decimal

/-!
# JSON values

The tree of a configuration document. Two things are kept that a value need not have a meaning for:
a text with an unpaired surrogate escape, which stands for no characters, and a number of any size.
Whether they matter is for the reader of the value to decide.
-/

namespace ResolverTypes

inductive Json where
  | null
  | bool (value : Bool)
  | number (magnitude : Decimal)
  /-- A text, or `none` if an escape in it is an unpaired surrogate. -/
  | string (text : Option String)
  | array (items : List Json)
  /-- Members in the order written, repeats included. A name is a text like any other. -/
  | object (members : List (Option String × Json))

namespace Json

instance : Inhabited Json := ⟨null⟩

def ofString (text : String) : Json := string (some text)

def ofMembers (members : List (String × Json)) : Json :=
  object (members.map fun (name, value) => (some name, value))

mutual

/-- Whether the value is plain and nests at most `depth` levels deep: every text in it has
characters, and every number is finite. -/
def isPlainWithin (depth : Nat) : Json → Bool
  | null => true
  | bool _ => true
  | number d => d.isFinite
  | string text => text.isSome
  | array items => 0 < depth && itemsPlainWithin (depth - 1) items
  | object members => 0 < depth && membersPlainWithin (depth - 1) members

/-- Whether all values of a list are plain within the depth. -/
def itemsPlainWithin (depth : Nat) : List Json → Bool
  | [] => true
  | item :: rest => isPlainWithin depth item && itemsPlainWithin depth rest

/-- Whether all members are plain within the depth, names included. -/
def membersPlainWithin (depth : Nat) : List (Option String × Json) → Bool
  | [] => true
  | (name, value) :: rest =>
    name.isSome && isPlainWithin depth value && membersPlainWithin depth rest

end

end Json

end ResolverTypes
