import ResolverTypes.Proofs.Json.Spelling
import ResolverTypes.Proofs.Text.Reading

/-!
# Every spelling of a JSON value is read

The reader makes of every text that spells a value that value (`parse?_of_describes`). What comes
after a value is a blank, a comma or a closing bracket, or the text ends; a number could not do
with less, since it would go on. The reader's bound on brackets is met by the length of the text.
-/

namespace ResolverTypes.Json

open Text ResolverTypes.Parser

variable {α : Type} {p : Parser α} {a : α} {t rest : List Char}

/-! ## Blanks -/

/-- Whether the parser reads the text in front of the rest, blanks aside. -/
abbrev Reads (p : Parser α) (text : List Char) (a : α) (rest : List Char) : Prop :=
  Parser.Reads (List.dropWhile isGap) p text a rest

theorem dropWhile_solid {c : Char} (solid : isGap c = false) (rest : List Char) :
    (c :: rest).dropWhile isGap = c :: rest := by
  rw [List.dropWhile_cons_of_neg (by simp [solid])]

theorem dropWhile_gap {g : List Char} (gap : IsGap g) (rest : List Char) :
    (g ++ rest).dropWhile isGap = rest.dropWhile isGap :=
  List.dropWhile_append_of_pos gap

theorem length_dropWhile_le (s : List Char) : (s.dropWhile isGap).length ≤ s.length :=
  (List.dropWhile_suffix isGap).length_le

theorem reads_symbol {text : String} {c : Char} {l : List Char} (letters : text.toList = c :: l)
    (solid : isGap c = false) (rest : List Char) : Reads (symbol text) (c :: l) () rest := by
  show symbol text ((c :: l ++ rest).dropWhile isGap) = _
  rw [List.cons_append, dropWhile_solid solid, ← List.cons_append, ← letters]
  exact bind_of_some (literal_append text rest)

theorem begins_symbol {text : String} {c : Char} {l : List Char} (letters : text.toList = c :: l) :
    (symbol text).Begins (· = c) := (begins_literal letters).bind

/-! ## Texts -/

/-- The characters that may stand for themselves inside quotes. -/
def isPlain (c : Char) : Bool := 0x20 ≤ c.toNat

theorem piecesFrom_cons {unit rest' : List Char} {piece : Piece} {pieces : List Piece}
    (spelled : SpellsPiece unit piece) (others : piecesFrom isPlain rest = some (pieces, rest')) :
    piecesFrom isPlain (unit ++ rest) = some (piece :: pieces, rest') := by
  cases spelled with
  | @plain c printable quote backslash =>
    have allowed : c ≠ '\\' ∧ isPlain c = true := ⟨backslash, decide_eq_true printable⟩
    have step : piecesFrom isPlain (c :: rest) =
        if c ≠ '\\' ∧ isPlain c = true then
          (piecesFrom isPlain rest).bind fun found => some (.char c :: found.1, found.2)
        else none := by
      rw [piecesFrom]
      · rfl
      · exact quote
      · exact fun _ _ _ _ _ same => absurd same backslash
      · exact fun _ _ same => absurd same backslash
    rw [List.singleton_append, step, if_pos allowed, others]
    rfl
  | @letter e c escaped =>
    have other : e ≠ 'u' := by
      rintro rfl
      cases escaped
    have step : piecesFrom isPlain ('\\' :: e :: rest) =
        (escaped? e).bind fun d => (piecesFrom isPlain rest).bind
          fun found => some (.char d :: found.1, found.2) := by
      rw [piecesFrom]
      · rfl
      · exact fun _ _ _ _ _ same => absurd same other
    show piecesFrom isPlain ('\\' :: e :: rest) = _
    rw [step, escaped, Option.bind_some, others]
    rfl
  | @number i j k l n digits =>
    show piecesFrom isPlain ('\\' :: 'u' :: i :: j :: k :: l :: rest) = _
    rw [piecesFrom, digits, others]
    rfl

theorem piecesFrom_inQuotes {units : List (List Char)} {pieces : List Piece}
    (spelled : List.Forall₂ SpellsPiece units pieces) (rest : List Char) :
    piecesFrom isPlain (units.flatten ++ ('"' :: rest)) = some (pieces, rest) := by
  induction spelled with
  | nil => rfl
  | cons first _ ih =>
    rw [List.flatten_cons, List.append_assoc]
    exact piecesFrom_cons first ih

theorem reads_pieces {units : List (List Char)} {pieces : List Piece}
    (spelled : List.Forall₂ SpellsPiece units pieces) (rest : List Char) :
    Reads quoted (inQuotes units) ((joinPieces? pieces).map String.ofList) rest := by
  have reads : Text.quoted isPlain (inQuotes units ++ rest) = some (pieces, rest) := by
    rw [inQuotes, List.cons_append, List.append_assoc]
    exact piecesFrom_inQuotes spelled rest
  show quoted ((inQuotes units ++ rest).dropWhile isGap) = _
  rw [inQuotes, List.cons_append, dropWhile_solid (by decide)]
  exact bind_of_some reads

theorem ofNumber_toNat (c : Char) : Piece.ofNumber c.toNat = .char c := by
  have valid : c.toNat < 0xd800 ∨ 0xdfff < c.toNat ∧ c.toNat < 0x110000 := c.valid
  have apart : isSurrogate c.toNat = false := by
    simp only [isSurrogate, Bool.and_eq_false_iff, decide_eq_false_iff_not]
    omega
  rw [Piece.ofNumber, if_neg (by simp [apart]), Char.ofNat_toNat]

theorem ofNumber_of_surrogate {n : Nat} (half : 0xd800 ≤ n ∧ n < 0xe000) :
    Piece.ofNumber n = .surrogate n := by
  have surrogate : isSurrogate n = true := by
    simp only [isSurrogate, Bool.and_eq_true, decide_eq_true_eq]
    omega
  rw [Piece.ofNumber, if_pos surrogate]

/-- A character is spelled by pieces that are joined to it. -/
theorem exists_pieces_of_char {unit : List Char} {c : Char} (spelled : SpellsChar unit c) :
    ∃ units pieces, units.flatten = unit ∧ List.Forall₂ SpellsPiece units pieces ∧
      ∀ others, joinPieces? (pieces ++ others) = (joinPieces? others).map (c :: ·) := by
  cases spelled with
  | plain printable quote backslash =>
    exact ⟨[_], [_], List.flatten_singleton, .cons (.plain printable quote backslash) .nil,
      fun _ => rfl⟩
  | letter escaped =>
    exact ⟨[_], [_], List.flatten_singleton, .cons (.letter escaped) .nil, fun _ => rfl⟩
  | number digits =>
    refine ⟨[_], [_], List.flatten_singleton, .cons (.number digits) .nil, fun _ => ?_⟩
    rw [ofNumber_toNat]
    rfl
  | pair first second isHigh isLow joined =>
    refine ⟨[_, _], [_, _], rfl, .cons (.number first) (.cons (.number second) .nil), fun _ => ?_⟩
    rw [ofNumber_of_surrogate (by omega), ofNumber_of_surrogate (by omega)]
    simp only [List.cons_append, List.nil_append, joinPieces?]
    rw [if_pos ⟨isHigh.2, isLow.1⟩, ← joined, Char.ofNat_toNat]

theorem exists_pieces {units : List (List Char)} {chars : List Char}
    (spelled : List.Forall₂ SpellsChar units chars) :
    ∃ units' pieces, units'.flatten = units.flatten ∧ List.Forall₂ SpellsPiece units' pieces ∧
      joinPieces? pieces = some chars := by
  induction spelled with
  | nil => exact ⟨[], [], rfl, .nil, rfl⟩
  | cons first _ ih =>
    obtain ⟨units, pieces, same, spelled, joined⟩ := exists_pieces_of_char first
    obtain ⟨others, morePieces, same', spelled', joined'⟩ := ih
    refine ⟨units ++ others, pieces ++ morePieces, ?_, List.rel_append spelled spelled', ?_⟩
    · rw [List.flatten_append, same, same', List.flatten_cons]
    · rw [joined, joined']
      rfl

theorem reads_quoted {text : Option String} (spelled : SpellsText t text) (rest : List Char) :
    Reads quoted t text rest := by
  cases spelled with
  | @text units s chars =>
    obtain ⟨units', pieces, same, spelled, joined⟩ := exists_pieces chars
    have reads := reads_pieces spelled rest
    rwa [joined, Option.map_some, String.ofList_toList, inQuotes, same] at reads
  | unpaired spelled alone =>
    have reads := reads_pieces spelled rest
    rwa [alone] at reads

theorem begins_quoted : quoted.Begins (· = '"') := by
  intro s other
  have fails : Text.quoted isPlain s = none := by
    unfold Text.quoted
    split
    · exact absurd rfl (other '"' rfl)
    · rfl
  exact bind_eq_none (f := fun pieces => do
    blanks
    return (joinPieces? pieces).map String.ofList) fails

/-! ## Numbers -/

/-- Whether a number would not go on. -/
def Stops (rest : List Char) : Prop :=
  ∀ c ∈ rest.head?, c.isDigit = false ∧ c ≠ '.' ∧ c ≠ 'e' ∧ c ≠ 'E'

variable {digits whole fraction exponent part : List Char} {scale : Int}

theorem reads_digits1 (isDigits : IsDigits digits)
    (ends : ∀ c ∈ rest.head?, c.isDigit = false) :
    Parser.Reads id Decimal.digits1 digits digits rest := by
  obtain ⟨some, all⟩ := isDigits
  cases digits with
  | nil => exact absurd rfl some
  | cons first others =>
    obtain ⟨isDigit, all⟩ := List.forall_mem_cons.mp all
    exact (bind_of_some (reads_satisfy isDigit _)).trans
      (bind_of_some (takeWhile_append all ends))

theorem reads_integerDigits (isWhole : IsWhole whole)
    (ends : ∀ c ∈ rest.head?, c.isDigit = false) :
    Parser.Reads id Decimal.integerDigits whole whole rest := by
  obtain ⟨isDigits, alone⟩ := isWhole
  by_cases zero : whole.head? = some '0'
  · rw [alone zero]
    exact Reads.orElse_left (reads_char '0' rest).map
  · refine Reads.orElse_right (reads_digits1 isDigits ends) ?_
    refine (begins_char '0').bind _ ?_
    cases whole with
    | nil => exact absurd rfl isDigits.1
    | cons first others =>
      rintro _ ⟨⟩ rfl
      exact zero rfl

theorem head_of_exponent (scaled : SpellsExponent exponent scale) (stops : Stops rest) :
    ∀ c ∈ (exponent ++ rest).head?, c.isDigit = false ∧ c ≠ '.' := by
  have mark {e : Char} (isMark : e = 'e' ∨ e = 'E') (l : List Char) :
      ∀ c ∈ (e :: l).head?, c.isDigit = false ∧ c ≠ '.' := by
    rintro _ ⟨⟩
    rcases isMark with rfl | rfl <;> decide
  cases scaled with
  | none => exact fun c hc => ⟨(stops c hc).1, (stops c hc).2.1⟩
  | unsigned isMark | plus isMark | minus isMark => exact mark isMark _

theorem head_of_fraction (fractional : SpellsFraction fraction part)
    (scaled : SpellsExponent exponent scale) (stops : Stops rest) :
    ∀ c ∈ (fraction ++ (exponent ++ rest)).head?, c.isDigit = false := by
  cases fractional with
  | none => exact fun c hc => (head_of_exponent scaled stops c hc).1
  | part =>
    rintro _ ⟨⟩
    rfl

theorem exists_reads_fraction (fractional : SpellsFraction fraction part)
    (ends : ∀ c ∈ rest.head?, c.isDigit = false ∧ c ≠ '.') :
    ∃ o, o.getD [] = part ∧ Parser.Reads id (optional Decimal.fraction) fraction o rest := by
  cases fractional with
  | none =>
    refine ⟨none, rfl, reads_optional_none ?_⟩
    exact (begins_char '.').bind _ fun c hc => (ends c hc).2
  | part isDigits =>
    have digits := reads_digits1 isDigits fun c hc => (ends c hc).1
    exact ⟨some part, rfl, ((reads_char '.' _).bind digits).optional⟩

theorem isDigit_head_of_isDigits (isDigits : IsDigits digits) (rest : List Char) :
    ∀ c ∈ (digits ++ rest).head?, c.isDigit = true := by
  cases digits with
  | nil => exact absurd rfl isDigits.1
  | cons first others =>
    rintro _ ⟨⟩
    exact isDigits.2 first List.mem_cons_self

theorem reads_exponentSign_none (digit : ∀ c ∈ rest.head?, c.isDigit = true) :
    Parser.Reads id Decimal.exponentSign [] false rest := by
  have signless (sign : Char) (other : sign.isDigit = false) : ∀ c ∈ rest.head?, ¬c = sign := by
    rintro _ hc rfl
    rw [digit _ hc] at other
    cases other
  refine Reads.orElse_right (Reads.orElse_right (reads_pure false rest) ?_) ?_
  · exact (begins_char '-').bind _ (signless '-' rfl)
  · exact (begins_char '+').bind _ (signless '+' rfl)

theorem reads_exponentSign_plus (rest : List Char) :
    Parser.Reads id Decimal.exponentSign ['+'] false rest :=
  Reads.orElse_left (reads_char '+' rest).map

theorem reads_exponentSign_minus (rest : List Char) :
    Parser.Reads id Decimal.exponentSign ['-'] true rest := by
  refine Reads.orElse_right (Reads.orElse_left (reads_char '-' rest).map) ?_
  refine (begins_char '+').bind _ ?_
  rintro c ⟨⟩
  decide

theorem exists_reads_exponent (scaled : SpellsExponent exponent scale) (stops : Stops rest) :
    ∃ o, o.getD 0 = scale ∧
      Parser.Reads id (optional Decimal.exponentPart) exponent o rest := by
  have mark {e : Char} (isMark : e = 'e' ∨ e = 'E') (rest : List Char) :
      Parser.Reads id (satisfy fun c => c = 'e' || c = 'E') [e] e rest :=
    reads_satisfy (by simpa using isMark) rest
  have last {digits : List Char} (isDigits : IsDigits digits) :=
    reads_digits1 isDigits fun c hc => (stops c hc).1
  cases scaled with
  | none =>
    refine ⟨none, rfl, reads_optional_none ?_⟩
    refine (begins_satisfy _).bind _ fun c hc => ?_
    simpa using (stops c hc).2.2
  | unsigned isMark isDigits =>
    have sign := reads_exponentSign_none (isDigit_head_of_isDigits isDigits rest)
    exact ⟨some _, rfl, ((mark isMark _).bind (sign.bind (last isDigits).map)).optional⟩
  | plus isMark isDigits =>
    have sign := reads_exponentSign_plus
    exact ⟨some _, rfl, ((mark isMark _).bind ((sign _).bind (last isDigits).map)).optional⟩
  | minus isMark isDigits =>
    have sign := reads_exponentSign_minus
    exact ⟨some _, rfl, ((mark isMark _).bind ((sign _).bind (last isDigits).map)).optional⟩

theorem exists_reads_sign {sign : List Char} (signed : sign = [] ∨ sign = ['-'])
    (digit : ∀ c ∈ rest.head?, c.isDigit = true) :
    ∃ o, Parser.Reads id (optional (char '-')) sign o rest := by
  rcases signed with rfl | rfl
  · refine ⟨none, reads_optional_none ((begins_char '-') _ ?_)⟩
    rintro c hc rfl
    cases digit _ hc
  · exact ⟨some (), (reads_char '-' rest).optional⟩

theorem reads_literal {d : Decimal} (spelled : SpellsNumber t d) (stops : Stops rest) :
    Parser.Reads id Decimal.literal t d rest := by
  obtain @⟨sign, whole, fraction, part, exponent, scale, signed, isWhole, fractional, scaled⟩ :=
    spelled
  obtain ⟨power, rfl, readsExponent⟩ := exists_reads_exponent scaled stops
  obtain ⟨point, rfl, readsFraction⟩ :=
    exists_reads_fraction fractional (head_of_exponent scaled stops)
  have ends := head_of_fraction fractional scaled stops
  rw [← List.append_assoc] at ends
  obtain ⟨minus, readsSign⟩ := exists_reads_sign signed
    (isDigit_head_of_isDigits isWhole.1 (fraction ++ exponent ++ rest))
  rw [← List.append_assoc] at readsSign
  refine readsSign.bind ((reads_integerDigits isWhole ends).bind (readsFraction.bind ?_))
  exact readsExponent.map

/-- A number begins with its sign or with a digit. -/
def BeginsNumber (c : Char) : Prop := c = '-' ∨ c.isDigit = true

instance : DecidablePred BeginsNumber := fun _ => instDecidableOr

theorem exists_head_of_number {d : Decimal} (spelled : SpellsNumber t d) :
    ∃ c l, t = c :: l ∧ BeginsNumber c := by
  obtain @⟨sign, whole, fraction, part, exponent, scale, signed, ⟨isDigits, -⟩, -, -⟩ := spelled
  rcases signed with rfl | rfl
  · cases whole with
    | nil => exact absurd rfl isDigits.1
    | cons c others => exact ⟨c, _, rfl, .inr (isDigits.2 c List.mem_cons_self)⟩
  · exact ⟨'-', _, rfl, .inl rfl⟩

theorem solid_of_beginsNumber {c : Char} (begins : BeginsNumber c) : isGap c = false := by
  rcases begins with rfl | digit
  · rfl
  · by_contra gap
    have gap : isGap c = true := by simpa using gap
    simp only [isGap, Bool.or_eq_true, decide_eq_true_eq] at gap
    rcases gap with ((rfl | rfl) | rfl) | rfl <;> cases digit

theorem reads_numberValue {d : Decimal} (spelled : SpellsNumber t d) (stops : Stops rest) :
    Reads numberValue t (.number d) rest := by
  have reads := reads_literal spelled stops
  obtain ⟨c, l, rfl, begins⟩ := exists_head_of_number spelled
  show numberValue ((c :: l ++ rest).dropWhile isGap) = _
  rw [List.cons_append, dropWhile_solid (solid_of_beginsNumber begins)]
  exact bind_of_some reads

theorem begins_integerDigits : Decimal.integerDigits.Begins fun c => c.isDigit = true := by
  refine ((begins_char '0').bind.orElse (begins_satisfy Char.isDigit).bind).mono ?_
  rintro c (rfl | digit)
  · rfl
  · exact digit

theorem begins_numberValue : numberValue.Begins BeginsNumber :=
  ((begins_char '-').optional_bind begins_integerDigits.bind).bind

/-! ## Lists -/

/-- Whether a value may end here. -/
def Ends (rest : List Char) : Prop :=
  ∀ c ∈ rest.head?, isGap c = true ∨ c = ',' ∨ c = ']' ∨ c = '}'

theorem Ends.stops (ends : Ends rest) : Stops rest := by
  intro c hc
  rcases ends c hc with gap | rfl | rfl | rfl
  · simp only [isGap, Bool.or_eq_true, decide_eq_true_eq] at gap
    rcases gap with ((rfl | rfl) | rfl) | rfl <;> decide
  all_goals decide

theorem Ends.gap_append (ends : Ends rest) {g : List Char} (gap : IsGap g) : Ends (g ++ rest) := by
  cases g with
  | nil => exact ends
  | cons c g =>
    rintro _ ⟨⟩
    exact .inl (gap c List.mem_cons_self)

theorem ends_cons {c : Char} (mark : c = ',' ∨ c = ']' ∨ c = '}') (l : List Char) :
    Ends (c :: l) := by
  rintro _ ⟨⟩
  exact .inr mark

/-- Whether the parser reads the text as an item of a list. -/
def ReadsIn (item : Parser α) (text : List Char) (a : α) : Prop :=
  ∀ rest, Ends rest → Reads item text a rest

variable {item : Parser α} {texts : List (List Char)} {as : List α}

theorem withCommas_cons (t : List Char) (texts : List (List Char)) :
    withCommas (t :: texts) = t ++ (texts.map (',' :: ·)).flatten := by
  unfold withCommas
  induction texts generalizing t with
  | nil => simp
  | cons u texts ih => simp [List.intercalate_cons_cons, ih]

theorem readsItem_comma (reads : ReadsIn item t a) :
    ReadsItem (List.dropWhile isGap) (do symbol ","; item) Ends (',' :: t) a where
  reads rest ends := Reads.bind (t := [',']) (reads_symbol rfl rfl _) (reads rest ends)
  follows rest _ := ends_cons (.inl rfl) _
  advances rest := by
    rw [List.cons_append, dropWhile_solid rfl, List.length_cons, List.length_append]
    have := length_dropWhile_le rest
    omega

theorem reads_separated (items : List.Forall₂ (ReadsIn item) texts as) (ends : Ends rest)
    (closed : ∀ c ∈ (rest.dropWhile isGap).head?, c ≠ ',')
    (fails : item (rest.dropWhile isGap) = none) :
    Reads (separated item) (withCommas texts) as rest := by
  cases items with
  | nil => exact Reads.orElse_right (reads_pure [] rest) (bind_eq_none fails)
  | @cons t a texts as first others =>
    have others : List.Forall₂ (ReadsItem (List.dropWhile isGap) (do symbol ","; item) Ends)
        (texts.map (',' :: ·)) as := by
      rw [List.forall₂_map_left_iff]
      exact others.imp fun _ _ => readsItem_comma
    obtain ⟨reads, follows⟩ := reads_many others ends ((begins_symbol rfl).bind _ closed)
    rw [withCommas_cons]
    exact Reads.orElse_left ((first _ follows).bind reads.map)

/-! ## Values -/

/-- Reads a member of an object. -/
def memberWithin (depth : Nat) : Parser (Option String × Json) := do
  let name ← quoted
  symbol ":"
  let value ← valueWithin depth
  return (name, value)

variable {depth : Nat} {body : List Char}

theorem fails_at {first : Char → Prop} (begins : p.Begins first) {c : Char}
    (solid : isGap c = false) (other : ¬first c) (l : List Char) :
    p ((c :: l).dropWhile isGap) = none := by
  rw [dropWhile_solid solid]
  refine begins _ ?_
  rintro _ ⟨⟩
  exact other

theorem begins_null : (symbol "null").Begins (· = 'n') := begins_symbol (l := "ull".toList) rfl

theorem begins_true : (symbol "true").Begins (· = 't') := begins_symbol (l := "rue".toList) rfl

theorem begins_false : (symbol "false").Begins (· = 'f') := begins_symbol (l := "alse".toList) rfl

theorem begins_list : (symbol "[").Begins (· = '[') := begins_symbol (l := []) rfl

theorem begins_object : (symbol "\x7b").Begins (· = '{') := begins_symbol (l := []) rfl

theorem reads_null (rest : List Char) :
    Reads (valueWithin (depth + 1)) ['n', 'u', 'l', 'l'] .null rest :=
  Reads.orElse_left (reads_symbol rfl rfl rest).map

theorem reads_true (rest : List Char) :
    Reads (valueWithin (depth + 1)) ['t', 'r', 'u', 'e'] (.bool true) rest := by
  refine Reads.orElse_right (Reads.orElse_left (reads_symbol rfl rfl rest).map) ?_
  exact fails_at begins_null.bind rfl (by decide) _

theorem reads_false (rest : List Char) :
    Reads (valueWithin (depth + 1)) ['f', 'a', 'l', 's', 'e'] (.bool false) rest := by
  refine .orElse_right (.orElse_right (.orElse_left (reads_symbol rfl rfl rest).map) ?_) ?_
  · exact fails_at begins_true.bind rfl (by decide) _
  · exact fails_at begins_null.bind rfl (by decide) _

/-- What does not begin like a word is read by what comes after the words. -/
theorem reads_wordless {q : Parser Json} {c : Char} {l : List Char} {v : Json}
    (reads : Reads q (c :: l) v rest) (solid : isGap c = false)
    (other : c ≠ 'n' ∧ c ≠ 't' ∧ c ≠ 'f') :
    Reads ((do symbol "null"; return .null) <|> (do symbol "true"; return .bool true) <|>
      (do symbol "false"; return .bool false) <|> q) (c :: l) v rest := by
  refine .orElse_right (.orElse_right (.orElse_right reads ?_) ?_) ?_
  · exact fails_at begins_false.bind solid other.2.2 _
  · exact fails_at begins_true.bind solid other.2.1 _
  · exact fails_at begins_null.bind solid other.1 _

theorem reads_string {text : Option String} (spelled : SpellsText t text) (rest : List Char) :
    Reads (valueWithin (depth + 1)) t (.string text) rest := by
  have reads := (reads_quoted spelled rest).map (g := Json.string)
  obtain ⟨l, rfl⟩ : ∃ l, t = '"' :: l := by cases spelled <;> exact ⟨_, rfl⟩
  exact reads_wordless (.orElse_left reads) rfl (by decide)

theorem reads_number {d : Decimal} (spelled : SpellsNumber t d) (ends : Ends rest) :
    Reads (valueWithin (depth + 1)) t (.number d) rest := by
  have reads := reads_numberValue spelled ends.stops
  obtain ⟨c, l, rfl, begins⟩ := exists_head_of_number spelled
  have solid := solid_of_beginsNumber begins
  have apart {other : Char} (none : ¬BeginsNumber other) : c ≠ other := by
    rintro rfl
    exact none begins
  refine reads_wordless (.orElse_right (.orElse_left reads) ?_) solid ?_
  · exact fails_at begins_quoted.bind solid (apart (by decide)) _
  · exact ⟨apart (by decide), apart (by decide), apart (by decide)⟩

/-- What begins like neither a word, a text nor a number is a list or an object. -/
theorem reads_bracketed {q : Parser Json} {c : Char} {l : List Char} {v : Json}
    (reads : Reads q (c :: l) v rest) (bracket : c = '[' ∨ c = '{') :
    Reads ((do symbol "null"; return .null) <|> (do symbol "true"; return .bool true) <|>
      (do symbol "false"; return .bool false) <|> (do return .string (← quoted)) <|>
      numberValue <|> q) (c :: l) v rest := by
  have solid : isGap c = false := by rcases bracket with rfl | rfl <;> rfl
  have wordless : c ≠ 'n' ∧ c ≠ 't' ∧ c ≠ 'f' := by rcases bracket with rfl | rfl <;> decide
  have quoteless : c ≠ '"' := by rcases bracket with rfl | rfl <;> decide
  have numberless : ¬BeginsNumber c := by rcases bracket with rfl | rfl <;> decide
  refine reads_wordless (.orElse_right (.orElse_right reads ?_) ?_) solid wordless
  · exact fails_at begins_numberValue solid numberless _
  · exact fails_at begins_quoted.bind solid quoteless _

theorem reads_array {items : List Json}
    (reads : Reads (separated (valueWithin depth)) body items (']' :: rest)) :
    Reads (valueWithin (depth + 1)) ('[' :: (body ++ [']'])) (.array items) rest := by
  refine reads_bracketed (.orElse_left ?_) (.inl rfl)
  refine Reads.bind (t := ['[']) (reads_symbol rfl rfl _) ?_
  exact reads.bind (reads_symbol rfl rfl _).map

theorem reads_object {members : List (Option String × Json)}
    (reads : Reads (separated (memberWithin depth)) body members ('}' :: rest)) :
    Reads (valueWithin (depth + 1)) ('{' :: (body ++ ['}'])) (.object members) rest := by
  refine reads_bracketed (.orElse_right ?_ ?_) (.inr rfl)
  · refine Reads.bind (t := ['{']) (reads_symbol rfl rfl _) ?_
    exact reads.bind (reads_symbol rfl rfl _).map
  · exact fails_at begins_list.bind rfl (by decide) _

theorem begins_value : (valueWithin (depth + 1)).Begins fun c =>
    c = 'n' ∨ c = 't' ∨ c = 'f' ∨ c = '"' ∨ BeginsNumber c ∨ c = '[' ∨ c = '{' :=
  begins_null.bind.orElse <| begins_true.bind.orElse <| begins_false.bind.orElse <|
    begins_quoted.bind.orElse <| begins_numberValue.orElse <|
      begins_list.bind.orElse begins_object.bind

theorem fails_valueWithin {c : Char} (closing : c = ']' ∨ c = '}') (l : List Char) :
    valueWithin depth ((c :: l).dropWhile isGap) = none := by
  have solid : isGap c = false := by rcases closing with rfl | rfl <;> rfl
  cases depth with
  | zero => rfl
  | succ depth =>
    refine fails_at begins_value solid ?_ l
    rcases closing with rfl | rfl <;> decide

theorem fails_memberWithin {c : Char} (closing : c = ']' ∨ c = '}') (l : List Char) :
    memberWithin depth ((c :: l).dropWhile isGap) = none := by
  have solid : isGap c = false := by rcases closing with rfl | rfl <;> rfl
  exact fails_at begins_quoted.bind solid (by rcases closing with rfl | rfl <;> decide) _

/-- Items are read up to a closing bracket. -/
theorem reads_closed {c : Char} (closing : c = ']' ∨ c = '}')
    (items : List.Forall₂ (ReadsIn item) texts as)
    (fails : item ((c :: rest).dropWhile isGap) = none) :
    Reads (separated item) (withCommas texts) as (c :: rest) := by
  refine reads_separated items (ends_cons (.inr closing) rest) ?_ fails
  rcases closing with rfl | rfl
  all_goals
    rintro _ ⟨⟩
    decide

theorem reads_closed_gap {c : Char} (closing : c = ']' ∨ c = '}') {g : List Char} (gap : IsGap g)
    (fails : item ((c :: rest).dropWhile isGap) = none) :
    Reads (separated item) g [] (c :: rest) := by
  have reads := (reads_closed closing .nil fails).skip_append (dropWhile_gap gap)
  rwa [withCommas, List.intercalate_nil, List.append_nil] at reads

/-! ## All spellings -/

theorem length_le_withCommas (member : t ∈ texts) : t.length ≤ (withCommas texts).length := by
  cases texts with
  | nil => cases member
  | cons first others =>
    rw [withCommas_cons, List.length_append]
    rcases List.mem_cons.mp member with rfl | member
    · exact Nat.le_add_right _ _
    · have inner : ',' :: t ∈ others.map (',' :: ·) := List.mem_map_of_mem member
      have longer := (List.sublist_flatten_of_mem inner).length_le
      rw [List.length_cons] at longer
      omega

/-- What is left of a bound on brackets inside of brackets. -/
theorem bound_inside {c d : Char} (bound : (c :: (withCommas texts ++ [d])).length < depth + 1) :
    ∀ t ∈ texts, t.length < depth := by
  intro t member
  have := length_le_withCommas member
  rw [List.length_cons, List.length_append] at bound
  omega

mutual

/-- A spelling of a value is read as the value, with the length of the spelling as a bound on
brackets. -/
theorem reads_of_spells {t : List Char} {v : Json} :
    Spells t v → ∀ depth, t.length < depth → ReadsIn (valueWithin depth) t v
  | .null, _ + 1, _, rest, _ => reads_null rest
  | .true, _ + 1, _, rest, _ => reads_true rest
  | .false, _ + 1, _, rest, _ => reads_false rest
  | .number spelled, _ + 1, _, _, ends => reads_number spelled ends
  | .string spelled, _ + 1, _, rest, _ => reads_string spelled rest
  | .noItems gap, _ + 1, _, rest, _ =>
    reads_array (reads_closed_gap (.inl rfl) gap (fails_valueWithin (.inl rfl) rest))
  | .items spelled, depth + 1, bound, rest, _ => by
    have items := reads_of_spellsItems spelled depth (bound_inside bound)
    exact reads_array (reads_closed (.inl rfl) items (fails_valueWithin (.inl rfl) rest))
  | .noMembers gap, _ + 1, _, rest, _ =>
    reads_object (reads_closed_gap (.inr rfl) gap (fails_memberWithin (.inr rfl) rest))
  | .members spelled, depth + 1, bound, rest, _ => by
    have members := reads_of_spellsMembers spelled depth (bound_inside bound)
    exact reads_object (reads_closed (.inr rfl) members (fails_memberWithin (.inr rfl) rest))

theorem reads_of_spellsItem {t : List Char} {v : Json} :
    SpellsItem t v → ∀ depth, t.length < depth → ReadsIn (valueWithin depth) t v
  | @SpellsItem.mk g t g' v before spelled behind, depth, bound, rest, ends => by
    have inner : t.length < depth := by
      rw [List.length_append, List.length_append] at bound
      omega
    have reads := reads_of_spells spelled depth inner _ (ends.gap_append behind)
    exact (reads.append_skip (dropWhile_gap behind)).skip_append (dropWhile_gap before)

theorem reads_of_spellsMember {t : List Char} {m : Option String × Json} :
    SpellsMember t m → ∀ depth, t.length < depth → ReadsIn (memberWithin depth) t m
  | @SpellsMember.mk g t g' u name v before named behind spelled, depth, bound, rest, ends => by
    have inner : u.length < depth := by
      rw [List.length_append, List.length_append, List.length_append, List.length_cons] at bound
      omega
    have value := reads_of_spellsItem spelled depth inner rest ends
    have colon : Reads (symbol ":") (g' ++ [':']) () (u ++ rest) :=
      (reads_symbol rfl rfl _).skip_append (dropWhile_gap behind)
    refine Parser.Reads.skip_append ?_ (dropWhile_gap before)
    refine (reads_quoted named _).bind ?_
    rw [← List.singleton_append, ← List.append_assoc]
    exact colon.bind value.map

theorem reads_of_spellsItems {texts : List (List Char)} {items : List Json} :
    List.Forall₂ SpellsItem texts items → ∀ depth, (∀ t ∈ texts, t.length < depth) →
    List.Forall₂ (ReadsIn (valueWithin depth)) texts items
  | .nil, _, _ => .nil
  | .cons first others, depth, bound => by
    obtain ⟨here, rest⟩ := List.forall_mem_cons.mp bound
    exact .cons (reads_of_spellsItem first depth here) (reads_of_spellsItems others depth rest)

theorem reads_of_spellsMembers {texts : List (List Char)} {members : List (Option String × Json)} :
    List.Forall₂ SpellsMember texts members → ∀ depth, (∀ t ∈ texts, t.length < depth) →
    List.Forall₂ (ReadsIn (memberWithin depth)) texts members
  | .nil, _, _ => .nil
  | .cons first others, depth, bound => by
    obtain ⟨here, rest⟩ := List.forall_mem_cons.mp bound
    exact .cons (reads_of_spellsMember first depth here) (reads_of_spellsMembers others depth rest)

end

theorem parse?_of_describes {text : String} {v : Json} (described : Describes text v) :
    parse? text = some v := by
  have bound : text.toList.length < text.length + 1 := Nat.lt_succ_self _
  have reads := reads_of_spellsItem described _ bound [] nofun
  unfold Reads Parser.Reads at reads
  rw [List.append_nil] at reads
  have whole : (do blanks; valueWithin (text.length + 1) : Parser Json) text.toList =
      some (v, []) := reads
  rw [parse?, Parser.parse?, whole]

end ResolverTypes.Json
