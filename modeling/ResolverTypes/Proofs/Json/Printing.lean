import ResolverTypes.Json.Printer
import ResolverTypes.Proofs.Json.Reading

/-!
# What is written can be read

The text that is written for a JSON value is one of its spellings (`describes_render`), so reading
gives the value back.
-/

namespace ResolverTypes.Json

open Text

/-! ## Texts -/

theorem spellsChar_control {c : Char} (control : c.toNat < 0x20) :
    SpellsChar ['\\', 'u', '0', '0', hexChar (c.toNat / 16), hexChar (c.toNat % 16)] c := by
  have zero : hexValue? '0' = some 0 := by decide
  have value : hexNumber? '0' '0' (hexChar (c.toNat / 16)) (hexChar (c.toNat % 16)) =
      some c.toNat := by
    rw [hexNumber?, zero, hexValue?_hexChar (by omega), hexValue?_hexChar (by omega)]
    show some (((0 * 16 + 0) * 16 + c.toNat / 16) * 16 + c.toNat % 16) = _
    rw [Option.some.injEq]
    omega
  exact .number value

theorem spellsChar_escape (c : Char) : SpellsChar (escape c) c := by
  unfold escape
  split
  all_goals first
    | exact .letter rfl
    | skip
  next quote backslash _ _ _ _ _ =>
    split
    · next control => exact spellsChar_control control
    · next printable => exact .plain (by omega) quote backslash

theorem spellsText_quote (text : Option String) : SpellsText (quote text).toList text := by
  cases text with
  | none =>
    have half : SpellsPiece ['\\', 'u', 'd', '8', '0', '0'] (.ofNumber 0xd800) := .number rfl
    exact .unpaired (.cons half .nil) rfl
  | some s =>
    have units : List.Forall₂ SpellsChar (s.toList.map escape) s.toList := by
      rw [List.forall₂_map_left_iff, List.forall₂_same]
      exact fun c _ => spellsChar_escape c
    have letters : (quote (some s)).toList = inQuotes (s.toList.map escape) := by
      rw [quote, String.toList_ofList, inQuotes, List.flatMap_def, List.cons_append]
    rw [letters]
    exact .text units

/-! ## Numbers -/

theorem isDigits_toDigits (n : Nat) : IsDigits (Nat.toDigits 10 n) :=
  ⟨Nat.toDigits_ne_nil, fun _ digit => Nat.isDigit_of_mem_toDigits (by decide) (by decide) digit⟩

theorem ofDigits_toDigits (n : Nat) : Decimal.ofDigits (Nat.toDigits 10 n) = n :=
  Nat.ofDigitChars_toDigits (by decide) (by decide)

theorem isWhole_toDigits (n : Nat) : IsWhole (Nat.toDigits 10 n) := by
  refine ⟨isDigits_toDigits n, ?_⟩
  induction n using Nat.strongRecOn with
  | ind n ih =>
    by_cases small : n < 10
    · rw [Nat.toDigits_of_lt_base small]
      intro zero
      rw [Option.some.inj zero]
    · intro zero
      -- the first digit is that of a tenth, which would have to be zero
      rw [Nat.toDigits_of_base_le (by decide) (by omega),
        List.head?_append_of_ne_nil _ Nat.toDigits_ne_nil] at zero
      have tenth := congrArg Decimal.ofDigits (ih (n / 10) (by omega) zero)
      rw [ofDigits_toDigits] at tenth
      have none : n / 10 = 0 := tenth
      omega

theorem spellsExponent_toString (n : Int) : SpellsExponent ('e' :: (toString n).toList) n := by
  cases n with
  | ofNat n =>
    have letters : (toString (Int.ofNat n)).toList = Nat.toDigits 10 n := Nat.toList_repr
    have spelled := SpellsExponent.unsigned (.inl rfl) (isDigits_toDigits n)
    rwa [ofDigits_toDigits, ← letters] at spelled
  | negSucc n =>
    have letters : (toString (Int.negSucc n)).toList = '-' :: Nat.toDigits 10 (n + 1) := by
      show ("-" ++ (n + 1).repr).toList = _
      rw [String.toList_append, Nat.toList_repr]
      rfl
    have spelled := SpellsExponent.minus (.inl rfl) (isDigits_toDigits (n + 1))
    rwa [ofDigits_toDigits, ← letters] at spelled

theorem spellsNumber_numeral (d : Decimal) : SpellsNumber (numeral d).toList d := by
  obtain ⟨mantissa, exponent⟩ := d
  have letters : (numeral ⟨mantissa, exponent⟩).toList =
      [] ++ (Nat.toDigits 10 mantissa ++ ([] ++ 'e' :: (toString exponent).toList)) := by
    show (mantissa.repr ++ "e" ++ toString exponent).toList = _
    rw [String.toList_append, String.toList_append, Nat.toList_repr, List.append_assoc]
    rfl
  have spelled := SpellsNumber.mk (.inl rfl) (isWhole_toDigits mantissa) .none
    (spellsExponent_toString exponent)
  have scale : exponent - (([] : List Char).length : Int) = exponent := Int.sub_zero exponent
  rw [List.append_nil, ofDigits_toDigits, scale] at spelled
  rwa [letters]

/-! ## Values -/

theorem toList_intercalate_commas (texts : List String) :
    (",".intercalate texts).toList = withCommas (texts.map String.toList) :=
  String.toList_intercalate

mutual

theorem spells_render : (v : Json) → Spells (render v).toList v
  | .null => .null
  | .bool true => .true
  | .bool false => .false
  | .number d => .number (spellsNumber_numeral d)
  | .string text => .string (spellsText_quote text)
  | .array items => by
    have letters : (render (.array items)).toList =
        '[' :: (withCommas ((renderItems items).map String.toList) ++ [']']) := by
      rw [render, String.toList_append, String.toList_append, toList_intercalate_commas]
      rfl
    rw [letters]
    exact .items (spellsItems_render items)
  | .object members => by
    have letters : (render (.object members)).toList =
        '{' :: (withCommas ((renderMembers members).map String.toList) ++ ['}']) := by
      rw [render, String.toList_append, String.toList_append, toList_intercalate_commas]
      rfl
    rw [letters]
    exact .members (spellsMembers_render members)

theorem spellsItems_render : (items : List Json) →
    List.Forall₂ SpellsItem ((renderItems items).map String.toList) items
  | [] => .nil
  | item :: rest => .cons (spellsItem_of_spells (spells_render item)) (spellsItems_render rest)

theorem spellsMembers_render : (members : List (Option String × Json)) →
    List.Forall₂ SpellsMember ((renderMembers members).map String.toList) members
  | [] => .nil
  | (name, value) :: rest => by
    have letters : (quote name ++ ":" ++ render value).toList =
        [] ++ ((quote name).toList ++ ([] ++ ':' :: (render value).toList)) := by
      rw [String.toList_append, String.toList_append, List.append_assoc]
      rfl
    have spelled := spellsItem_of_spells (spells_render value)
    refine .cons ?_ (spellsMembers_render rest)
    rw [letters]
    exact .mk isGap_nil (spellsText_quote name) isGap_nil spelled

end

theorem describes_render (v : Json) : Describes (render v) v :=
  spellsItem_of_spells (spells_render v)

end ResolverTypes.Json
