import ResolverTypes.Proofs.Sdl.Names
import ResolverTypes.Proofs.Text.Reading

/-!
# What the grammar reads

For the parts of a schema document that are written with no more than names, punctuation and type
references, what the rules of the grammar read. Gaps may stand before every token and behind it. A
rule has to know the next token at its end, if that could be a part which is missing here: a field
ends in front of anything but a directive, a list of members in front of anything but a bar.

A type reference is one token. Its text determines it (`typeText_text`), so long as no two marks are
put behind one type.
-/

namespace ResolverTypes.Sdl

open ResolverTypes.Parser

variable {α : Type} {p : Parser α} {a : α} {t rest : List Char}

/-! ## Gaps -/

/-- Whether the characters are nothing that means anything between tokens. -/
def IsGap (g : List Char) : Prop := ∀ c ∈ g, isIgnored c = true

instance (g : List Char) : Decidable (IsGap g) := List.decidableBAll _ _

theorem isGap_nil : IsGap [] := List.forall_mem_nil _

/-- Whether a token may begin with the character. -/
def isSolid (c : Char) : Bool := !isIgnored c && c ≠ '#'

/-- The first character of the next token. -/
def next (rest : List Char) : Option Char := (skipFrom false rest).head?

/-- Whether the parser reads the text in front of the rest, gaps aside. -/
abbrev Reads (p : Parser α) (text : List Char) (a : α) (rest : List Char) : Prop :=
  Parser.Reads (skipFrom false) p text a rest

theorem skipFrom_solid {c : Char} (solid : isSolid c = true) (rest : List Char) :
    skipFrom false (c :: rest) = c :: rest := by
  simp only [isSolid, Bool.and_eq_true, Bool.not_eq_true', decide_eq_true_eq] at solid
  simp [skipFrom, solid.1, solid.2]

theorem skipFrom_gap {g : List Char} (gap : IsGap g) (rest : List Char) :
    skipFrom false (g ++ rest) = skipFrom false rest := by
  induction g with
  | nil => rfl
  | cons c g ih =>
    obtain ⟨ignored, gap⟩ := List.forall_mem_cons.mp gap
    have comment : c ≠ '#' := by
      rintro rfl
      cases ignored
    rw [List.cons_append, skipFrom, if_neg Bool.false_ne_true, if_neg comment, if_pos ignored]
    exact ih gap

theorem length_skipFrom_le (inComment : Bool) (s : List Char) :
    (skipFrom inComment s).length ≤ s.length := by
  induction s generalizing inComment with
  | nil => exact Nat.le_refl _
  | cons c rest ih =>
    rw [skipFrom]
    split
    · exact Nat.le_succ_of_le (ih _)
    · split
      · exact Nat.le_succ_of_le (ih _)
      · split
        · exact Nat.le_succ_of_le (ih _)
        · exact Nat.le_refl _

theorem next_solid {c : Char} (solid : isSolid c = true) (rest : List Char) :
    next (c :: rest) = some c := by
  rw [next, skipFrom_solid solid]
  rfl

theorem next_gap {g : List Char} (gap : IsGap g) (rest : List Char) :
    next (g ++ rest) = next rest := by
  rw [next, skipFrom_gap gap, ← next]

theorem Reads.gap_append {g : List Char} (h : Reads p t a rest) (gap : IsGap g) :
    Reads p (g ++ t) a rest := h.skip_append (skipFrom_gap gap)

theorem Reads.append_gap {g : List Char} (h : Reads p t a (g ++ rest)) (gap : IsGap g) :
    Reads p (t ++ g) a rest := h.append_skip (skipFrom_gap gap)

/-- Something that begins with a token is longer than what follows it. -/
theorem advances_solid {g t : List Char} {c : Char} (gap : IsGap g) (solid : isSolid c = true)
    (rest : List Char) :
    (skipFrom false rest).length < (skipFrom false (g ++ c :: t ++ rest)).length := by
  rw [List.append_assoc, skipFrom_gap gap, List.cons_append, skipFrom_solid solid,
    List.length_cons, List.length_append]
  have := length_skipFrom_le false rest
  omega

/-! ## Tokens -/

theorem isSolid_of_isNameStart {c : Char} (start : isNameStart c = true) : isSolid c = true := by
  have gaps : [' ', ',', '\t', '\ufeff', '\n', '\r', '#'].all (!isNameStart ·) = true := rfl
  by_contra hard
  have gap : c ∈ [' ', ',', '\t', '\ufeff', '\n', '\r', '#'] := by
    by_contra other
    simp only [List.mem_cons, List.not_mem_nil, or_false, not_or] at other
    simp [isSolid, isIgnored, isLineEnd, other] at hard
  have none := List.all_eq_true.mp gaps c gap
  rw [start] at none
  cases none

theorem reads_token {c : Char} (solid : isSolid c = true)
    (reads : p (c :: t ++ rest) = some (a, rest)) : Reads (token p) (c :: t) a rest := by
  show token p (skipFrom false (c :: t ++ rest)) = _
  rw [List.cons_append, skipFrom_solid solid, ← List.cons_append]
  exact bind_of_some reads

theorem reads_mark {c : Char} (solid : isSolid c = true) (rest : List Char) :
    Reads (mark c) [c] () rest :=
  reads_token solid (if_pos rfl)

theorem begins_mark (c : Char) : (mark c).Begins (· = c) := (begins_char c).bind

theorem reads_keyword {text : String} {c : Char} {l : List Char} (letters : text.toList = c :: l)
    (solid : isSolid c = true) (rest : List Char) :
    Reads (keyword text) text.toList () rest := by
  rw [letters]
  refine reads_token solid ?_
  rw [← letters]
  exact literal_append text rest

theorem begins_keyword {text : String} {c : Char} {l : List Char} (letters : text.toList = c :: l) :
    (keyword text).Begins (· = c) := (begins_literal letters).bind

theorem isName_of_toList {n : String} {c : Char} {l : List Char} (letters : n.toList = c :: l)
    (all : (isNameStart c && l.all isNameRest) = true) : IsName n := by
  obtain ⟨start, others⟩ := (Bool.and_eq_true _ _).mp all
  exact ⟨c, l, letters, start, List.all_eq_true.mp others⟩

theorem nameText_append {n : String} (isName : IsName n)
    (ends : ∀ c ∈ rest.head?, isNameRest c = false) :
    nameText (n.toList ++ rest) = some (n, rest) := by
  obtain ⟨first, others, letters, start, all⟩ := isName
  have name : String.ofList (first :: others) = n := by
    rw [← letters]
    exact String.ofList_toList
  have here : satisfy isNameStart (first :: (others ++ rest)) = some (first, others ++ rest) :=
    if_pos start
  rw [letters, ← name]
  exact (bind_of_some here).trans (bind_of_some (takeWhile_append all ends))

theorem reads_name {n : String} (isName : IsName n)
    (ends : ∀ c ∈ rest.head?, isNameRest c = false) : Reads name n.toList n rest := by
  have reads := nameText_append isName ends
  obtain ⟨first, others, letters, start, -⟩ := isName
  rw [letters] at reads ⊢
  exact reads_token (isSolid_of_isNameStart start) reads

theorem begins_name : name.Begins fun c => isNameStart c = true :=
  (begins_satisfy isNameStart).bind.bind

theorem begins_string : string.Begins (· = '"') := by
  have block : blockString.Begins (· = '"') := (begins_literal (l := ['"', '"']) rfl).bind
  have line : lineString.Begins (· = '"') := by
    refine Begins.bind ?_
    intro s other
    cases s with
    | nil => rfl
    | cons c rest =>
      have apart : c ≠ '"' := other c rfl
      unfold Text.quoted
      split
      · next same => exact absurd (List.cons.inj same).1 apart
      · rfl
  refine Begins.bind (Begins.bind ?_)
  exact (block.orElse line).mono fun c => or_self_iff.mp

/-! ## Type references -/

/-- Whether the reference is made of a name by list and non-null modifiers, without a second mark
directly behind a first one. -/
inductive IsWritten : TypeRef → Prop
  | named {name : String} (isName : IsName name) : IsWritten (.named name)
  | list {t : TypeRef} (element : IsWritten t) : IsWritten t.list
  | required {t : TypeRef} (inner : IsWritten t) : IsWritten t.required

theorem toList_text_list (t : TypeRef) :
    t.list.text.toList = '[' :: (t.text.toList ++ [']']) := by
  simp [TypeRef.text]

theorem toList_text_nonNull (t : TypeRef) : t.nonNull.text.toList = t.text.toList ++ ['!'] := by
  simp [TypeRef.text]

theorem required_of_isNonNull {t : TypeRef} (marked : t.isNonNull = true) : t.required = t := by
  cases t with
  | nonNull t => rfl
  | named | list => cases marked

theorem required_of_nullable {t : TypeRef} (nullable : ¬t.isNonNull = true) :
    t.required = t.nonNull := by
  cases t with
  | nonNull t => exact absurd rfl nullable
  | named | list => rfl

/-- A reference begins with a bracket or with its name. -/
theorem exists_head_text {t : TypeRef} (written : IsWritten t) :
    ∃ c l, t.text.toList = c :: l ∧ isSolid c = true := by
  induction written with
  | named isName =>
    obtain ⟨first, others, letters, start, -⟩ := isName
    exact ⟨first, others, letters, isSolid_of_isNameStart start⟩
  | @list t element ih => exact ⟨'[', _, toList_text_list t, by decide⟩
  | @required t element ih =>
    obtain ⟨c, l, letters, solid⟩ := ih
    by_cases marked : t.isNonNull = true
    · rw [required_of_isNonNull marked]
      exact ⟨c, l, letters, solid⟩
    · refine ⟨c, l ++ ['!'], ?_, solid⟩
      rw [required_of_nullable marked, toList_text_nonNull, letters, List.cons_append]

theorem withMark_of_ne {s : List Char} (t : TypeRef) (other : ∀ c ∈ s.head?, c ≠ '!') :
    withMark t s = (t, s) := by
  unfold withMark
  split
  · exact absurd rfl (other '!' rfl)
  · rfl

/-- A reference without a mark takes one that follows it, and any other reference is complete. -/
theorem typeText_text {t : TypeRef} (written : IsWritten t) (rest : List Char)
    (ends : ∀ c ∈ rest.head?, isNameRest c = false) :
    typeText (t.text.toList ++ rest) =
      some (if t.isNonNull then (t, rest) else withMark t rest) := by
  -- brackets come off at the outside, so the rest is different at every step
  induction written generalizing rest with
  | @named n isName =>
    have reads := nameText_append isName ends
    obtain ⟨first, others, letters, start, -⟩ := isName
    have bracket : first ≠ '[' := by
      rintro rfl
      cases start
    show typeText (n.toList ++ rest) = _
    rw [letters, List.cons_append] at reads ⊢
    unfold typeText
    split
    · next same => exact absurd (List.cons.inj same).1 bracket
    · rw [reads]
      rfl
  | @list t element ih =>
    have inner := ih (']' :: rest) (by simp; decide)
    have closed : (if t.isNonNull then (t, ']' :: rest) else withMark t (']' :: rest)) =
        (t, ']' :: rest) := by
      split <;> rfl
    rw [closed] at inner
    rw [toList_text_list, List.cons_append, List.append_assoc, List.singleton_append, typeText,
      inner]
    rfl
  | @required t element ih =>
    by_cases marked : t.isNonNull = true
    · rw [required_of_isNonNull marked]
      exact ih rest ends
    · have inner := ih ('!' :: rest) (by simp; decide)
      rw [if_neg marked] at inner
      rw [required_of_nullable marked, toList_text_nonNull, List.append_assoc,
        List.singleton_append, inner]
      rfl

theorem reads_typeRef {t : TypeRef} (written : IsWritten t)
    (ends : ∀ c ∈ rest.head?, isNameRest c = false ∧ c ≠ '!') :
    Reads typeRef t.text.toList t rest := by
  have reads := typeText_text written rest fun c hc => (ends c hc).1
  rw [withMark_of_ne t fun c hc => (ends c hc).2, ite_self] at reads
  obtain ⟨c, l, letters, solid⟩ := exists_head_text written
  rw [letters] at reads ⊢
  exact reads_token solid reads

/-! ## Parts of types -/

theorem fails_of_next {first : Char → Prop} (h : p.Begins first)
    (other : ∀ c ∈ next rest, ¬first c) : p (skipFrom false rest) = none :=
  h _ other

theorem reads_absent {first : Char → Prop} (h : p.Begins first)
    (other : ∀ c ∈ next rest, ¬first c) : Reads (optional p) [] none rest :=
  reads_optional_none (fails_of_next h other)

theorem begins_directives : directives.Begins (· = '@') := (begins_mark '@').bind.bind.bind

theorem reads_directives?_none (undirected : next rest ≠ some '@') :
    Reads directives? [] [] rest :=
  (reads_absent begins_directives (by rintro c hc rfl; exact undirected hc)).map

theorem forall_head? {P : Char → Prop} {c : Char} (holds : P c) (l : List Char) :
    ∀ d ∈ (c :: l).head?, P d := by
  rintro _ ⟨⟩
  exact holds

/-- Whether the next token is a name or a keyword. -/
def NameNext (rest : List Char) : Prop := ∃ c, next rest = some c ∧ isNameStart c = true

theorem nameNext_append {n : String} (isName : IsName n) (rest : List Char) :
    NameNext (n.toList ++ rest) := by
  obtain ⟨first, others, letters, start, -⟩ := isName
  refine ⟨first, ?_, start⟩
  rw [letters, List.cons_append, next_solid (isSolid_of_isNameStart start)]

/-- A parser that begins with another character fails in front of a name. -/
theorem NameNext.forall_ne (named : NameNext rest) {d : Char} (other : isNameStart d = false) :
    ∀ c ∈ next rest, ¬c = d := by
  obtain ⟨first, begins, start⟩ := named
  rintro c hc rfl
  rw [begins] at hc
  cases hc
  rw [other] at start
  cases start

section Parts

variable {n : String} {type : TypeRef}

/-- An argument or input field, where the text of its default value, if any, is read as it is. -/
theorem reads_inputValue (isName : IsName n) (written : IsWritten type) {default : List Char}
    {value : Option (List Decimal)} (valued : Reads (optional defaultValue) default value rest)
    (ends : ∀ c ∈ (default ++ rest).head?, isNameRest c = false ∧ c ≠ '!')
    (undirected : next rest ≠ some '@') :
    Reads inputValue (n.toList ++ (':' :: ' ' :: (type.text.toList ++ default)))
      ({ name := n, type, hasDefault := value.isSome }, value.getD []) rest := by
  have text : n.toList ++ (':' :: ' ' :: (type.text.toList ++ default)) =
      [] ++ (n.toList ++ ([':'] ++ (([' '] ++ type.text.toList) ++ (default ++ [])))) := by simp
  have named : NameNext (n.toList ++ ([':'] ++ (([' '] ++ type.text.toList) ++ (default ++ []))) ++
      rest) := by
    rw [List.append_assoc]
    exact nameNext_append isName _
  rw [text]
  refine (reads_absent begins_string (named.forall_ne (by decide))).bind ?_
  refine (reads_name isName (forall_head? (by decide) _)).bind ?_
  refine (reads_mark (c := ':') (by decide) _).bind ?_
  refine ((reads_typeRef written ?_).gap_append (by decide)).bind ?_
  · rwa [List.append_nil]
  refine valued.bind ?_
  have last := (reads_directives?_none undirected).map (g := fun numbers =>
    (({ name := n, type, hasDefault := value.isSome } : InputValue), value.getD [] ++ numbers))
  rwa [List.append_nil] at last

theorem begins_argumentsDefinition : argumentsDefinition.Begins (· = '(') := (begins_mark '(').bind

/-- A field, where the text of its arguments, if any, is read as it is. -/
theorem reads_field (isName : IsName n) (written : IsWritten type) (arguments : List Char)
    (value : Option (List InputValue × List Decimal))
    (given : Reads (optional argumentsDefinition) arguments value
      (':' :: ' ' :: (type.text.toList ++ rest)))
    (apart : ∀ c ∈ (arguments ++ [':']).head?, isNameRest c = false)
    (ends : ∀ c ∈ rest.head?, isNameRest c = false ∧ c ≠ '!') (undirected : next rest ≠ some '@') :
    Reads field (n.toList ++ (arguments ++ (':' :: ' ' :: type.text.toList)))
      ({ name := n, type, args := (value.getD ([], [])).1 }, (value.getD ([], [])).2) rest := by
  have text : n.toList ++ (arguments ++ (':' :: ' ' :: type.text.toList)) =
      [] ++ (n.toList ++ (arguments ++ ([':'] ++ (([' '] ++ type.text.toList) ++ [])))) := by simp
  have named : NameNext
      (n.toList ++ (arguments ++ ([':'] ++ (([' '] ++ type.text.toList) ++ []))) ++ rest) := by
    rw [List.append_assoc]
    exact nameNext_append isName _
  rw [text]
  refine (reads_absent begins_string (named.forall_ne (by decide))).bind ?_
  refine (reads_name isName ?_).bind ?_
  · cases arguments with
    | nil => exact apart
    | cons c l => exact apart
  refine Reads.bind (by simpa using given) ?_
  refine (reads_mark (c := ':') (by decide) _).bind ?_
  refine ((reads_typeRef written ends).gap_append (by decide)).bind ?_
  rw [← List.append_nil (value.getD ([], [])).2]
  exact (reads_directives?_none undirected).map

theorem begins_field : field.Begins fun c => c = '"' ∨ isNameStart c = true :=
  begins_string.optional_bind begins_name.bind

theorem reads_field_bare (isName : IsName n) (written : IsWritten type)
    (ends : ∀ c ∈ rest.head?, isNameRest c = false ∧ c ≠ '!') (undirected : next rest ≠ some '@') :
    Reads field (n.toList ++ (':' :: ' ' :: type.text.toList)) ({ name := n, type }, []) rest := by
  refine reads_field isName written [] none ?_ (forall_head? (by decide) []) ends undirected
  refine reads_absent begins_argumentsDefinition ?_
  rw [next_solid (by decide)]
  rintro c ⟨⟩
  decide

end Parts

/-! ## Definitions -/

/-- Whether a field comes next, or the end of the fields. -/
def FieldNext (rest : List Char) : Prop := NameNext rest ∨ next rest = some '}'

theorem FieldNext.undirected (h : FieldNext rest) : next rest ≠ some '@' := by
  rcases h with named | closing
  · exact fun directive => named.forall_ne (by decide) '@' directive rfl
  · rw [closing]
    decide

/-- A text that begins with a name, with gaps around it, may follow another such text. -/
theorem readsItem_named {Follows : List Char → Prop} {g g' core l : List Char} {n : String}
    (before : IsGap g) (behind : IsGap g') (isName : IsName n) (begins : core = n.toList ++ l)
    (named : ∀ rest, NameNext rest → Follows rest)
    (reads : ∀ rest, Follows rest → Reads p core a (g' ++ rest)) :
    ReadsItem (skipFrom false) p Follows (g ++ (core ++ g')) a where
  reads rest follows := ((reads rest follows).append_gap behind).gap_append before
  follows rest _ := by
    have here := nameNext_append isName (l ++ (g' ++ rest))
    refine named _ ?_
    rw [begins]
    unfold NameNext at *
    simpa only [List.append_assoc, next_gap before] using here
  advances rest := by
    obtain ⟨first, others, letters, start, -⟩ := isName
    have solid := isSolid_of_isNameStart start
    have longer := advances_solid (t := others ++ l ++ g') before solid rest
    rw [begins, letters]
    simpa using longer

/-- A field without arguments, with gaps around it. -/
theorem readsItem_field_bare {n : String} {type : TypeRef} {g l : List Char} {c : Char}
    (isName : IsName n) (written : IsWritten type) (before : IsGap g) (behind : IsGap (c :: l))
    (ends : isNameRest c = false ∧ c ≠ '!') :
    ReadsItem (skipFrom false) field FieldNext
      (g ++ (n.toList ++ (':' :: ' ' :: type.text.toList) ++ c :: l))
      ({ name := n, type }, []) := by
  refine readsItem_named before behind isName rfl (fun _ => .inl) ?_
  intro rest follows
  refine reads_field_bare isName written (forall_head? ends _) ?_
  rw [next_gap behind]
  exact follows.undirected

/-- Fields, if there are any, are read up to the brace behind them. -/
theorem reads_fieldList {texts : List (List Char)} {parts : List (Field × List Decimal)}
    (items : List.Forall₂ (ReadsItem (skipFrom false) field FieldNext) texts parts)
    (some : texts ≠ []) (rest : List Char) :
    Reads (many1 field) texts.flatten parts ('}' :: rest) := by
  have closing : next ('}' :: rest) = Option.some '}' := rfl
  cases items with
  | nil => exact absurd rfl some
  | cons item items =>
    refine reads_many1 item items (.inr closing) (fails_of_next begins_field ?_)
    rw [closing]
    rintro c ⟨⟩
    decide

theorem begins_schemaDefinition : schemaDefinition.Begins fun c => c = 's' ∨ c = 'e' :=
  ((begins_keyword (l := "chema".toList) rfl).bind).orElse
    ((begins_keyword (l := "xtend".toList) rfl).bind)

theorem begins_implementsClause : implementsClause.Begins (· = 'i') :=
  (begins_keyword (l := "mplements".toList) rfl).bind

variable {n : String}

theorem reads_fields {body : List Char} {parts : List (Field × List Decimal)}
    (fields : Reads (many1 field) body parts ('}' :: rest)) :
    Reads (contents (braced field)) (' ' :: '{' :: (body ++ ['}']))
      (parts.map Prod.fst, parts.flatMap Prod.snd) rest := by
  have opened : Reads (braced field) ([' '] ++ (['{'] ++ (body ++ ['}'])))
      (parts.map Prod.fst, parts.flatMap Prod.snd) rest := by
    refine Reads.gap_append ?_ (by decide)
    refine (reads_mark (c := '{') (by decide) _).bind ?_
    exact fields.bind (reads_mark (c := '}') (by decide) _).map
  have undirected : next (' ' :: '{' :: (body ++ ['}']) ++ rest) ≠ some '@' := by
    show some '{' ≠ some '@'
    decide
  exact (reads_directives?_none undirected).bind opened.optional.map

/-- A definition of a type is one without a description, if it begins with the keyword for its
kind. -/
theorem reads_definition {text : List Char} {c : Char} (begins : next (text ++ rest) = some c)
    (keyword : c ≠ '"' ∧ c ≠ 's' ∧ c ≠ 'e') {body : TypeBody} {numbers : List Decimal}
    (reads : Reads typeBody text (n, body, numbers) rest) :
    Reads definition text { content := .type false { name := n, body }, numbers } rest := by
  have apart {d : Char} (other : c ≠ d) : ∀ d' ∈ next (text ++ rest), ¬d' = d := by
    rw [begins]
    rintro _ ⟨⟩
    exact other
  have undescribed : Reads (optional string) [] none (text ++ rest) :=
    reads_absent begins_string (apart keyword.1)
  refine Reads.orElse_right (Reads.orElse_left (Reads.orElse_left ?_)) ?_
  · exact undescribed.bind reads.map
  · refine fails_of_next begins_schemaDefinition ?_
    intro d hd same
    exact same.elim (apart keyword.2.1 d hd) (apart keyword.2.2 d hd)

/-- The text of the definition of an object with the text between its braces. -/
def objectText (n : String) (body : List Char) : List Char :=
  "type".toList ++ (' ' :: n.toList ++ ' ' :: '{' :: (body ++ ['}']))

theorem reads_object (isName : IsName n) {body : List Char} {parts : List (Field × List Decimal)}
    (fields : Reads (many1 field) body parts ('}' :: rest)) :
    Reads definition (objectText n body)
      { content := .type false { name := n, body := .object [] (parts.map Prod.fst) },
        numbers := parts.flatMap Prod.snd } rest := by
  have named : Reads name ([' '] ++ n.toList) n (' ' :: '{' :: (body ++ ['}']) ++ rest) :=
    (reads_name isName (forall_head? (by decide) _)).gap_append (by decide)
  refine reads_definition rfl (by decide) (Reads.orElse_right (Reads.orElse_left ?_) ?_)
  · refine (reads_keyword rfl (by decide) _).bind (named.bind ?_)
    refine Reads.bind (t := []) (reads_absent begins_implementsClause ?_) (reads_fields fields).map
    exact forall_head? (by decide) []
  · refine fails_of_next (begins_keyword (c := 's') rfl).bind ?_
    exact forall_head? (by decide) []

/-- A member of a union behind the first one. -/
def memberText (m : String) : List Char := ' ' :: '|' :: ' ' :: m.toList

/-- The text of the definition of a union. -/
def unionText (n first : String) (others : List String) : List Char :=
  "union".toList ++ (' ' :: n.toList ++
    ' ' :: '=' :: ' ' :: (first.toList ++ (others.map memberText).flatten))

theorem readsItem_member {m : String} (isName : IsName m) :
    ReadsItem (skipFrom false) (do mark '|'; name)
      (fun rest => ∀ c ∈ rest.head?, isNameRest c = false) (memberText m) m where
  reads rest ends := by
    have named : Reads name ([' '] ++ m.toList) m rest :=
      (reads_name isName ends).gap_append (by decide)
    refine Reads.gap_append (g := [' ']) ?_ (by decide)
    exact (reads_mark (c := '|') (by decide) _).bind named
  follows rest _ := forall_head? (by decide) _
  advances rest := advances_solid (g := [' ']) (by decide) (by decide) rest

theorem reads_members {first : String} {others : List String} (isName : IsName first)
    (isNames : ∀ m ∈ others, IsName m) (ends : ∀ c ∈ rest.head?, isNameRest c = false)
    (unbarred : next rest ≠ some '|') :
    Reads unionMembers (' ' :: '=' :: ' ' :: (first.toList ++ (others.map memberText).flatten))
      (first :: others, []) rest := by
  have items : List.Forall₂ (ReadsItem (skipFrom false) (do mark '|'; name)
      fun rest => ∀ c ∈ rest.head?, isNameRest c = false) (others.map memberText) others := by
    rw [List.forall₂_map_left_iff, List.forall₂_same]
    exact fun m hm => readsItem_member (isNames m hm)
  obtain ⟨more, follows⟩ := reads_many items ends
    (fails_of_next (begins_mark '|').bind (by rintro c hc rfl; exact unbarred hc))
  have all : Reads (separatedNames '|')
      ([] ++ (first.toList ++ (others.map memberText).flatten)) (first :: others) rest := by
    refine (reads_absent (begins_mark '|') ?_).bind ?_
    · rw [List.append_assoc]
      exact (nameNext_append isName _).forall_ne (by decide)
    · exact (reads_name isName follows).bind more.map
  refine Reads.gap_append (g := [' ']) ?_ (by decide)
  refine (reads_mark (c := '=') (by decide) _).bind ?_
  exact (all.gap_append (g := [' ']) (by decide)).map

theorem reads_union {first : String} {others : List String} (isName : IsName n)
    (isFirst : IsName first) (isNames : ∀ m ∈ others, IsName m)
    (ends : ∀ c ∈ rest.head?, isNameRest c = false) (unbarred : next rest ≠ some '|') :
    Reads definition (unionText n first others)
      { content := .type false { name := n, body := .union (first :: others) } } rest := by
  have named : Reads name ([' '] ++ n.toList) n
      (' ' :: '=' :: ' ' :: (first.toList ++ (others.map memberText).flatten) ++ rest) :=
    (reads_name isName (forall_head? (by decide) _)).gap_append (by decide)
  have undirected : next (' ' :: '=' :: ' ' ::
      (first.toList ++ (others.map memberText).flatten) ++ rest) ≠ some '@' := by
    show some '=' ≠ some '@'
    decide
  have content : Reads (contents unionMembers)
      (' ' :: '=' :: ' ' :: (first.toList ++ (others.map memberText).flatten))
      (first :: others, []) rest :=
    (reads_directives?_none undirected).bind
      (reads_members isFirst isNames ends unbarred).optional.map
  refine reads_definition rfl (by decide) ?_
  refine .orElse_right (.orElse_right (.orElse_right (.orElse_left ?_) ?_) ?_) ?_
  · exact (reads_keyword rfl (by decide) _).bind (named.bind content.map)
  · refine fails_of_next (begins_keyword (c := 'i') rfl).bind ?_
    exact forall_head? (by decide) []
  · refine fails_of_next (begins_keyword (c := 't') rfl).bind ?_
    exact forall_head? (by decide) []
  · refine fails_of_next (begins_keyword (c := 's') rfl).bind ?_
    exact forall_head? (by decide) []

/-! ## Documents -/

/-- Whether another definition comes next, or the end of the document. -/
def DefinitionNext (rest : List Char) : Prop := rest = [] ∨ NameNext rest

theorem DefinitionNext.unbarred (h : DefinitionNext rest) : next rest ≠ some '|' := by
  rcases h with rfl | named
  · nofun
  · exact fun bar => named.forall_ne (by decide) '|' bar rfl

theorem isName_type : IsName "type" := isName_of_toList rfl rfl

theorem isName_union : IsName "union" := isName_of_toList rfl rfl

theorem readsItem_object (isName : IsName n) {body g : List Char}
    {parts : List (Field × List Decimal)}
    (fields : ∀ rest, Reads (many1 field) body parts ('}' :: rest)) (behind : IsGap g) :
    ReadsItem (skipFrom false) definition DefinitionNext (objectText n body ++ g)
      { content := .type false { name := n, body := .object [] (parts.map Prod.fst) },
        numbers := parts.flatMap Prod.snd } :=
  readsItem_named isGap_nil behind isName_type rfl (fun _ => .inr) fun rest _ =>
    reads_object isName (fields (g ++ rest))

theorem readsItem_union {first : String} {others : List String} (isName : IsName n)
    (isFirst : IsName first) (isNames : ∀ m ∈ others, IsName m) {c : Char} {g : List Char}
    (behind : IsGap (c :: g)) (ends : isNameRest c = false) :
    ReadsItem (skipFrom false) definition DefinitionNext (unionText n first others ++ c :: g)
      { content := .type false { name := n, body := .union (first :: others) } } := by
  refine readsItem_named isGap_nil behind isName_union rfl (fun _ => .inr) ?_
  intro rest follows
  refine reads_union isName isFirst isNames (forall_head? ends _) ?_
  rw [next_gap behind]
  exact follows.unbarred

/-- A document is read as its definitions, one after the other. -/
theorem parse?_document {text : String} {first : List Char} {texts : List (List Char)}
    {draft : Draft} {drafts : List Draft} (letters : text.toList = first ++ texts.flatten)
    (item : ReadsItem (skipFrom false) definition DefinitionNext first draft)
    (items : List.Forall₂ (ReadsItem (skipFrom false) definition DefinitionNext) texts drafts) :
    document.parse? text = some (draft :: drafts) := by
  have fails : definition (skipFrom false []) = none := rfl
  have reads := reads_many1 item items (.inl rfl) fails
  rw [← letters] at reads
  unfold Parser.Reads at reads
  rw [List.append_nil] at reads
  have whole : document text.toList = some (draft :: drafts, []) := reads
  rw [parse?, whole]

end ResolverTypes.Sdl
