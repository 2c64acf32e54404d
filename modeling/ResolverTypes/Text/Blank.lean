/-!
# Blank characters

The Unicode property `White_Space` and trimming by it. A text option counts as empty when nothing is
left of it after trimming, and the text of a comment is trimmed before it is laid out.
-/

namespace ResolverTypes.Text

/-- Whether the character has the Unicode property `White_Space`. -/
def isBlank (c : Char) : Bool :=
  let n := c.toNat
  (0x09 ≤ n && n ≤ 0x0d) || n == 0x20 || n == 0x85 || n == 0xa0 || n == 0x1680 ||
    (0x2000 ≤ n && n ≤ 0x200a) || n == 0x2028 || n == 0x2029 || n == 0x202f || n == 0x205f ||
    n == 0x3000

/-- The characters without the blank ones at the start. -/
def trimStart (l : List Char) : List Char := l.dropWhile isBlank

/-- The characters without the blank ones at the end. -/
def trimEnd (l : List Char) : List Char := (l.reverse.dropWhile isBlank).reverse

/-- The characters without the blank ones at either end. -/
def trim (l : List Char) : List Char := trimEnd (trimStart l)

/-- Whether every character of the text is blank, the empty text included. -/
def IsBlank (s : String) : Prop := ∀ c ∈ s.toList, isBlank c = true

instance (s : String) : Decidable (IsBlank s) :=
  decidable_of_iff (s.toList.all isBlank = true) List.all_eq_true

/-- Trimming leaves nothing of a text exactly when the text is blank. -/
theorem trim_eq_nil_iff {s : String} : trim s.toList = [] ↔ IsBlank s := by
  have hd : ∀ l : List Char, l.dropWhile isBlank = [] ↔ ∀ c ∈ l, isBlank c = true := by
    intro l
    induction l with
    | nil => simp
    | cons a l ih => by_cases ha : isBlank a = true <;> simp [ha, ih]
  constructor
  · intro h
    rw [trim, trimEnd, List.reverse_eq_nil_iff, hd] at h
    rw [IsBlank, ← hd]
    -- a trimmed start is empty or begins with a character that is not blank
    cases hs : s.toList.dropWhile isBlank with
    | nil => rfl
    | cons a r =>
      have ha := h a (by simp [trimStart, hs])
      have := List.head_dropWhile_not (p := isBlank) (l := s.toList) (by simp [hs])
      simp [hs, ha] at this
  · intro h
    rw [IsBlank, ← hd] at h
    simp [trim, trimStart, trimEnd, h]

end ResolverTypes.Text
