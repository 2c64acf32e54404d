import Mathlib
import ResolverTypes.Text.PascalCase

/-!
# What Pascal case keeps of a name

Pascal case takes the separators out of a name and changes the case of letters, and does nothing
else to it: with all letters lowered it is the name without separators (`map_toLower_pascalCase`).
So names with the same Pascal case differ in separators and case at most.

Names in constant case, which are words in capitals with one underscore between them, lose nothing.
Every word begins with a capital and has no other one in Pascal case, so the words can be told apart
and with them the names (`eq_of_pascalCase_eq`).
-/

namespace ResolverTypes.Text

/-! ## The name underneath -/

/-- The characters of a name that are no separators, with all letters lowered. -/
def folded (name : String) : List Char :=
  (name.toList.filter fun c => !isWordSeparator c).map Char.toLower

/-- The pieces between separators have all other elements of the list, in order. -/
theorem flatten_splitOnP {α : Type} (p : α → Bool) (l : List α) :
    (l.splitOnP p).flatten = l.filter fun a => !p a := by
  induction l with
  | nil => rfl
  | cons a l ih =>
    rw [List.splitOnP_cons_eq_if_modifyHead, List.filter_cons, ← ih]
    cases p a with
    | true => rfl
    | false =>
      -- what is no separator goes in front of the first piece
      obtain ⟨first, rest, pieces⟩ := List.exists_cons_of_ne_nil (List.splitOnP_ne_nil p l)
      rw [pieces]
      rfl

theorem flatten_words (name : List Char) :
    (words name).flatten = name.filter fun c => !isWordSeparator c := by
  rw [words, List.flatten_filter_not_isEmpty, flatten_splitOnP]

theorem map_toLower_capitalize (word : List Char) :
    (capitalize word).map Char.toLower = word.map Char.toLower := by
  cases word with
  | nil => rfl
  | cons c rest =>
    rw [capitalize, List.map_cons, List.map_cons, Char.toLower_toUpper_eq_toLower]
    split
    · rw [List.map_map]
      exact congrArg _ (List.map_congr_left fun d _ => Char.toLower_toLower_eq_toLower d)
    · rfl

/-- Up to the case of letters, a name in Pascal case is the name without separators. -/
theorem map_toLower_pascalCase (name : String) :
    (pascalCase name).toList.map Char.toLower = folded name := by
  rw [pascalCase, String.toList_ofList, List.map_flatMap]
  simp only [map_toLower_capitalize]
  rw [folded, ← flatten_words, List.map_flatten, List.flatMap_def]

/-- Every character of a name in Pascal case is one of the name, perhaps in another case. -/
theorem mem_pascalCase {name : String} {c : Char} (h : c ∈ (pascalCase name).toList) :
    ∃ d ∈ name.toList, isWordSeparator d = false ∧ d.toLower = c.toLower := by
  have lowered := List.mem_map_of_mem (f := Char.toLower) h
  rw [map_toLower_pascalCase, folded] at lowered
  obtain ⟨d, hd, same⟩ := List.mem_map.mp lowered
  obtain ⟨member, kept⟩ := List.mem_filter.mp hd
  exact ⟨d, member, by simpa using kept, same⟩

theorem toLower_of_isAlpha_eq_false {c : Char} (letter : c.isAlpha = false) : c.toLower = c := by
  refine Char.toLower_eq_of_not_isUpper fun upper => ?_
  rw [Char.isAlpha, upper, Bool.true_or] at letter
  cases letter

/-- A character that is no letter is no other character in another case. -/
theorem eq_of_toLower_eq {c d : Char} (letter : c.isAlpha = false)
    (same : d.toLower = c.toLower) : d = c := by
  have other : d.isAlpha = false := by
    rw [← Char.isAlpha_toLower_eq_isAlpha, same, Char.isAlpha_toLower_eq_isAlpha, letter]
  rwa [toLower_of_isAlpha_eq_false letter, toLower_of_isAlpha_eq_false other] at same

/-- What is no letter in a name in Pascal case is in the name as it is, and separates no words. -/
theorem mem_of_mem_pascalCase {name : String} {c : Char} (letter : c.isAlpha = false)
    (h : c ∈ (pascalCase name).toList) : c ∈ name.toList ∧ isWordSeparator c = false := by
  obtain ⟨d, hd, kept, same⟩ := mem_pascalCase h
  obtain rfl := eq_of_toLower_eq letter same
  exact ⟨hd, kept⟩

/-- Pascal case puts no slash into a name. -/
theorem slash_of_pascalCase {name : String} (h : '/' ∈ (pascalCase name).toList) :
    '/' ∈ name.toList :=
  (mem_of_mem_pascalCase (by decide) h).1

/-- Pascal case leaves no separator in a name. -/
theorem not_mem_pascalCase {name : String} {c : Char} (separator : c = '_' ∨ c = '-') :
    c ∉ (pascalCase name).toList := by
  intro h
  rcases separator with rfl | rfl
  · exact absurd (mem_of_mem_pascalCase (by decide) h).2 (by decide)
  · exact absurd (mem_of_mem_pascalCase (by decide) h).2 (by decide)

/-- Names with the same Pascal case differ in separators and case at most. -/
theorem folded_eq_of_pascalCase_eq {a b : String} (same : pascalCase a = pascalCase b) :
    folded a = folded b := by
  rw [← map_toLower_pascalCase, same, map_toLower_pascalCase]

/-! ## Letters and digits -/

theorem isDigit_of_isAlpha {c : Char} (letter : c.isAlpha = true) : c.isDigit = false := by
  simp only [Char.isAlpha, Char.isUpper, Char.isLower, Bool.or_eq_true, Bool.and_eq_true,
    decide_eq_true_eq, ge_iff_le, UInt32.le_iff_toNat_le] at letter
  simp only [Char.isDigit, Bool.and_eq_false_iff, decide_eq_false_iff_not, ge_iff_le,
    UInt32.le_iff_toNat_le]
  simp only [Char.reduceVal, UInt32.reduceToNat] at letter ⊢
  omega

theorem isAlpha_eq_not_isDigit {c : Char} (alphanum : c.isAlphanum = true) :
    c.isAlpha = !c.isDigit := by
  cases letter : c.isAlpha with
  | true => rw [isDigit_of_isAlpha letter, Bool.not_false]
  | false =>
    rw [Char.isAlphanum, letter, Bool.false_or] at alphanum
    rw [alphanum, Bool.not_true]

theorem isDigit_toLower (c : Char) : c.toLower.isDigit = c.isDigit := by
  by_cases upper : c.isUpper = true
  · have letter : c.isAlpha = true := by rw [Char.isAlpha, upper, Bool.true_or]
    rw [isDigit_of_isAlpha letter, isDigit_of_isAlpha]
    rw [Char.isAlpha_toLower_eq_isAlpha, letter]
  · rw [Char.toLower_eq_of_not_isUpper upper]

theorem isAlphanum_toLower (c : Char) : c.toLower.isAlphanum = c.isAlphanum := by
  rw [Char.isAlphanum, Char.isAlpha_toLower_eq_isAlpha, isDigit_toLower, Char.isAlphanum]

/-- Whether the first character of a name that is no separator is a letter. -/
def beginsWithLetter (name : String) : Bool :=
  (name.toList.find? fun c => !isWordSeparator c).any (·.isAlpha)

theorem head?_pascalCase (name : String) :
    (pascalCase name).toList.head?.map Char.toLower =
      (name.toList.find? fun c => !isWordSeparator c).map Char.toLower := by
  rw [← List.head?_map, map_toLower_pascalCase, folded, List.head?_map, List.head?_filter]

/-! ## Constant case -/

/-- Whether a word is in capitals: a capital letter, and then capital letters and digits. -/
def isCapitals : List Char → Bool
  | [] => false
  | first :: rest => first.isUpper && rest.all fun c => c.isUpper || c.isDigit

/-- Whether a name is in constant case: words in capitals with one underscore between them. -/
def isConstantCase (name : String) : Bool := (name.toList.splitOn '_').all isCapitals

theorem not_isLower_of_capital {c : Char} (h : (c.isUpper || c.isDigit) = true) :
    ¬c.isLower = true := by
  intro lower
  rcases Bool.or_eq_true_iff.mp h with upper | digit
  · exact Char.not_isLower_of_isUpper upper lower
  · rw [isDigit_of_isAlpha (by rw [Char.isAlpha, lower, Bool.or_true])] at digit
    cases digit

theorem exists_of_isCapitals {word : List Char} (capitals : isCapitals word = true) :
    ∃ first rest, word = first :: rest ∧ first.isUpper = true ∧
      ∀ c ∈ rest, (c.isUpper || c.isDigit) = true := by
  cases word with
  | nil => cases capitals
  | cons first rest =>
    obtain ⟨upper, others⟩ := (Bool.and_eq_true _ _).mp capitals
    exact ⟨first, rest, rfl, upper, List.all_eq_true.mp others⟩

theorem mem_of_isCapitals {word : List Char} (capitals : isCapitals word = true) {c : Char}
    (hc : c ∈ word) : (c.isUpper || c.isDigit) = true := by
  obtain ⟨first, rest, rfl, upper, others⟩ := exists_of_isCapitals capitals
  rcases List.mem_cons.mp hc with rfl | hc
  · rw [upper, Bool.true_or]
  · exact others c hc

theorem capitalize_of_isCapitals {first : Char} {rest : List Char}
    (capitals : isCapitals (first :: rest) = true) :
    capitalize (first :: rest) = first :: rest.map Char.toLower := by
  have notLower : ∀ c ∈ first :: rest, ¬c.isLower = true := fun c hc =>
    not_isLower_of_capital (mem_of_isCapitals capitals hc)
  have shouted : isShouted (first :: rest) = true := by
    rw [isShouted, List.all_eq_true]
    intro c hc
    simpa using notLower c hc
  rw [capitalize, if_pos shouted,
    Char.toUpper_eq_of_not_isLower (notLower first List.mem_cons_self)]

/-- Capitals can be read back from the word with all of them lowered. -/
theorem eq_of_map_toLower_eq {l m : List Char} (hl : ∀ c ∈ l, (c.isUpper || c.isDigit) = true)
    (hm : ∀ c ∈ m, (c.isUpper || c.isDigit) = true)
    (same : l.map Char.toLower = m.map Char.toLower) : l = m := by
  have back {l : List Char} (hl : ∀ c ∈ l, (c.isUpper || c.isDigit) = true) :
      (l.map Char.toLower).map Char.toUpper = l := by
    rw [List.map_map]
    refine (List.map_congr_left (g := id) ?_).trans (List.map_id l)
    intro c hc
    rw [Function.comp_apply, Char.toUpper_toLower_eq_toUpper,
      Char.toUpper_eq_of_not_isLower (not_isLower_of_capital (hl c hc))]
    rfl
  rw [← back hl, same, back hm]

/-- Words in capitals that follow each other in Pascal case begin where a capital is. -/
theorem takeWhile_flatMap_capitalize {l : List Char} {ws : List (List Char)}
    (hws : ∀ w ∈ ws, isCapitals w = true) :
    (l.map Char.toLower ++ ws.flatMap capitalize).takeWhile (fun c => !c.isUpper) =
      l.map Char.toLower := by
  have lowered : ∀ c ∈ l.map Char.toLower, (!c.isUpper) = true := by
    intro c hc
    obtain ⟨d, -, rfl⟩ := List.mem_map.mp hc
    rw [Char.isUpper_toLower_eq_false, Bool.not_false]
  rw [List.takeWhile_append_of_pos lowered]
  cases ws with
  | nil => exact List.append_nil _
  | cons w ws =>
    have capitals := hws w List.mem_cons_self
    obtain ⟨first, rest, rfl, upper, -⟩ := exists_of_isCapitals capitals
    rw [List.flatMap_cons, capitalize_of_isCapitals capitals, List.cons_append,
      List.takeWhile_cons_of_neg (by simp [upper]), List.append_nil]

/-- Words in capitals can be told apart when they follow each other in Pascal case. -/
theorem eq_of_flatMap_capitalize_eq {ws vs : List (List Char)}
    (hws : ∀ w ∈ ws, isCapitals w = true) (hvs : ∀ v ∈ vs, isCapitals v = true)
    (same : ws.flatMap capitalize = vs.flatMap capitalize) : ws = vs := by
  induction ws generalizing vs with
  | nil =>
    cases vs with
    | nil => rfl
    | cons v vs =>
      obtain ⟨first, rest, rfl, -⟩ := exists_of_isCapitals (hvs v List.mem_cons_self)
      cases same
  | cons w ws ih =>
    have capitals := hws w List.mem_cons_self
    obtain ⟨first, rest, rfl, -, others⟩ := exists_of_isCapitals capitals
    cases vs with
    | nil => cases same
    | cons v vs =>
      have capitals' := hvs v List.mem_cons_self
      obtain ⟨first', rest', rfl, -, others'⟩ := exists_of_isCapitals capitals'
      rw [List.flatMap_cons, List.flatMap_cons, capitalize_of_isCapitals capitals,
        capitalize_of_isCapitals capitals', List.cons_append, List.cons_append] at same
      obtain ⟨rfl, behind⟩ := List.cons.inj same
      have later := fun x hx => hws x (List.mem_cons_of_mem _ hx)
      have later' := fun x hx => hvs x (List.mem_cons_of_mem _ hx)
      -- up to the next capital both sides have the rest of their first words
      have word : rest.map Char.toLower = rest'.map Char.toLower := by
        rw [← takeWhile_flatMap_capitalize later, behind, takeWhile_flatMap_capitalize later']
      rw [word] at behind
      rw [eq_of_map_toLower_eq others others' word, ih later later' (List.append_cancel_left behind)]

theorem splitOnP_congr {α : Type} {p q : α → Bool} {l : List α} (agree : ∀ a ∈ l, p a = q a) :
    l.splitOnP p = l.splitOnP q := by
  induction l with
  | nil => rfl
  | cons a l ih =>
    rw [List.splitOnP_cons_eq_if_modifyHead, List.splitOnP_cons_eq_if_modifyHead,
      agree a List.mem_cons_self, ih fun b hb => agree b (List.mem_cons_of_mem _ hb)]

/-- The words of a name in constant case are what stands between its underscores. -/
theorem words_of_isConstantCase {name : String} (constant : isConstantCase name = true) :
    words name.toList = name.toList.splitOn '_' := by
  have capitals := List.all_eq_true.mp constant
  have separators : ∀ c ∈ name.toList, isWordSeparator c = (c == '_') := by
    intro c hc
    by_cases underscore : c = '_'
    · subst underscore
      rfl
    · -- anything else is in a word in capitals, and a hyphen is in none
      have kept : c ∈ (name.toList.splitOn '_').flatten := by
        rw [List.splitOn_eq_splitOnP, flatten_splitOnP, List.mem_filter]
        exact ⟨hc, by simpa using underscore⟩
      obtain ⟨word, hw, member⟩ := List.mem_flatten.mp kept
      have capital := mem_of_isCapitals (capitals word hw) member
      have hyphen : c ≠ '-' := by
        rintro rfl
        cases capital
      simp [isWordSeparator, hyphen]
  rw [words, splitOnP_congr separators, ← List.splitOn_eq_splitOnP, List.filter_eq_self]
  intro word hw
  cases word with
  | nil => exact absurd (capitals [] hw) (by decide)
  | cons => rfl

theorem beginsWithLetter_of_isConstantCase {name : String}
    (constant : isConstantCase name = true) : beginsWithLetter name = true := by
  have capitals := List.all_eq_true.mp constant
  obtain ⟨word, others, pieces⟩ := List.exists_cons_of_ne_nil (List.splitOn_ne_nil '_' name.toList)
  obtain ⟨first, rest, rfl, upper, -⟩ :=
    exists_of_isCapitals (capitals word (pieces ▸ List.mem_cons_self))
  rw [beginsWithLetter, ← List.head?_filter, ← flatten_words, words_of_isConstantCase constant,
    pieces, List.flatten_cons, List.cons_append, List.head?_cons, Option.any_some, Char.isAlpha,
    upper, Bool.true_or]

/-- Names in constant case are equal if they have the same Pascal case. -/
theorem eq_of_pascalCase_eq {a b : String} (ha : isConstantCase a = true)
    (hb : isConstantCase b = true) (same : pascalCase a = pascalCase b) : a = b := by
  have forms := String.ofList_injective same
  rw [words_of_isConstantCase ha, words_of_isConstantCase hb] at forms
  have pieces := eq_of_flatMap_capitalize_eq (List.all_eq_true.mp ha) (List.all_eq_true.mp hb) forms
  have joined (name : String) : ['_'].intercalate (name.toList.splitOn '_') = name.toList :=
    List.intercalate_splitOn '_'
  apply String.toList_injective
  rw [← joined a, pieces, joined b]

end ResolverTypes.Text
