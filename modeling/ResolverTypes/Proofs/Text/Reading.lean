import Mathlib.Data.List.Forall2
import ResolverTypes.Text.Parser

/-!
# What parsers read

That a parser reads a text as a value is said in front of some rest, which the parser leaves alone
(`Parser.Reads`). A grammar skips over gaps between its tokens, before a parser begins and after it
ends; what is skipped is left to the grammar, so that a text may have its gaps wherever they are
convenient. Such facts go through a grammar rule by rule: a sequence reads what its steps read one
after the other, and a repetition reads a list of items (`reads_many`).

A choice and an optional part have to fail first to come to what is left. Most parsers of a grammar
fail on account of the first character that they see (`Parser.Begins`).
-/

namespace ResolverTypes.Parser

variable {α β : Type} {p q : Parser α} {f : α → Parser β} {a : α} {b : β}
variable {skip : List Char → List Char} {t u rest : List Char}

/-- Whether the parser, having skipped, reads the text as the value and leaves the rest, having
skipped again. -/
def Reads (skip : List Char → List Char) (p : Parser α) (text : List Char) (a : α)
    (rest : List Char) : Prop :=
  p (skip (text ++ rest)) = some (a, skip rest)

/-- Whether the parser fails on everything that does not begin with such a character. -/
def Begins (p : Parser α) (first : Char → Prop) : Prop :=
  ∀ s : List Char, (∀ c ∈ s.head?, ¬first c) → p s = none

/-! ## Steps -/

theorem bind_of_some {s s' : List Char} (h : p s = some (a, s')) : (p >>= f) s = f a s' := by
  show (p s).bind _ = _
  rw [h]
  rfl

theorem bind_eq_none {s : List Char} (h : p s = none) : (p >>= f) s = none := by
  show (p s).bind _ = none
  rw [h]
  rfl

theorem orElse_of_none {s : List Char} (h : p s = none) : (p <|> q) s = q s := by
  show (p s <|> q s) = q s
  rw [h]
  rfl

theorem orElse_of_some {s : List Char} {r : α × List Char} (h : p s = some r) :
    (p <|> q) s = some r := by
  show (p s <|> q s) = some r
  rw [h]
  rfl

/-! ## Failure -/

theorem begins_satisfy (holds : Char → Bool) : Begins (satisfy holds) fun c => holds c = true := by
  intro s other
  cases s with
  | nil => rfl
  | cons c rest => exact if_neg (other c rfl)

theorem begins_char (c : Char) : Begins (char c) (· = c) := by
  intro s other
  cases s with
  | nil => rfl
  | cons d rest => exact if_neg (other d rfl)

theorem begins_literal {text : String} {c : Char} {l : List Char} (letters : text.toList = c :: l) :
    Begins (literal text) (· = c) := by
  intro s other
  rw [literal, letters]
  cases s with
  | nil => rfl
  | cons d rest =>
    have apart : (c == d) = false := by simpa using fun h : c = d => other d rfl h.symm
    simp [List.isPrefixOf?, apart]

theorem Begins.bind {first : Char → Prop} (h : p.Begins first) : (p >>= f).Begins first :=
  fun s other => bind_eq_none (h s other)

theorem Begins.orElse {first second : Char → Prop} (hp : p.Begins first) (hq : q.Begins second) :
    (p <|> q).Begins fun c => first c ∨ second c := by
  intro s other
  rw [orElse_of_none (hp s fun c hc h => other c hc (.inl h))]
  exact hq s fun c hc h => other c hc (.inr h)

/-- What may be missing counts as well as what comes after it. -/
theorem Begins.optional_bind {f : Option α → Parser β} {first second : Char → Prop}
    (hp : p.Begins first) (hf : (f none).Begins second) :
    (optional p >>= f).Begins fun c => first c ∨ second c := by
  intro s other
  have absent : (optional p) s = some (none, s) :=
    orElse_of_none (bind_eq_none (f := fun a => pure (some a))
      (hp s fun c hc h => other c hc (.inl h)))
  rw [bind_of_some absent]
  exact hf s fun c hc h => other c hc (.inr h)

theorem Begins.mono {first second : Char → Prop} (h : p.Begins first)
    (weaker : ∀ c, first c → second c) : p.Begins second :=
  fun s other => h s fun c hc here => other c hc (weaker c here)

/-! ## Sequences and choices -/

theorem reads_pure (a : α) (rest : List Char) : Reads skip (pure a) [] a rest := rfl

theorem Reads.bind (first : Reads skip p t a (u ++ rest)) (next : Reads skip (f a) u b rest) :
    Reads skip (p >>= f) (t ++ u) b rest := by
  unfold Reads at *
  rw [List.append_assoc, bind_of_some first]
  exact next

theorem Reads.map (first : Reads skip p t a rest) {g : α → β} :
    Reads skip (p >>= fun a => pure (g a)) t (g a) rest := by
  have both := Reads.bind (f := fun a => pure (g a)) (u := []) first (reads_pure (g a) rest)
  rwa [List.append_nil] at both

/-- What is skipped may stand in front of a text or behind it. -/
theorem Reads.skip_append {g : List Char} (h : Reads skip p t a rest)
    (skipped : ∀ s, skip (g ++ s) = skip s) : Reads skip p (g ++ t) a rest := by
  unfold Reads at *
  rwa [List.append_assoc, skipped]

theorem Reads.append_skip {g : List Char} (h : Reads skip p t a (g ++ rest))
    (skipped : ∀ s, skip (g ++ s) = skip s) : Reads skip p (t ++ g) a rest := by
  unfold Reads at *
  rwa [skipped, ← List.append_assoc] at h

theorem Reads.orElse_left (h : Reads skip p t a rest) : Reads skip (p <|> q) t a rest :=
  orElse_of_some h

theorem Reads.orElse_right (h : Reads skip q t a rest) (fails : p (skip (t ++ rest)) = none) :
    Reads skip (p <|> q) t a rest :=
  (orElse_of_none fails).trans h

theorem Reads.optional (h : Reads skip p t a rest) : Reads skip (optional p) t (some a) rest :=
  Reads.orElse_left (h.map (g := some))

theorem reads_optional_none (fails : p (skip rest) = none) :
    Reads skip (optional p) [] none rest := by
  refine Reads.orElse_right (reads_pure none rest) ?_
  exact bind_eq_none (f := fun a => pure (some a)) fails

/-! ## Repetitions -/

theorem reads_many_nil (fails : p (skip rest) = none) : Reads skip (many p) [] [] rest := by
  show some (manyFrom p (skip rest)) = _
  rw [manyFrom_of_none fails]

theorem Reads.many_cons {as : List α} (first : Reads skip p t a (u ++ rest))
    (advances : (skip (u ++ rest)).length < (skip (t ++ (u ++ rest))).length)
    (others : Reads skip (many p) u as rest) :
    Reads skip (many p) (t ++ u) (a :: as) rest := by
  have others : manyFrom p (skip (u ++ rest)) = (as, skip rest) := Option.some.inj others
  show some (manyFrom p (skip (t ++ u ++ rest))) = _
  rw [List.append_assoc, manyFrom_of_some first advances, others]

/-- Whether the parser reads the text as the value in front of whatever may follow it, and such a
text, with something in it, may itself follow another. -/
structure ReadsItem (skip : List Char → List Char) (p : Parser α) (Follows : List Char → Prop)
    (text : List Char) (a : α) : Prop where
  reads : ∀ rest, Follows rest → Reads skip p text a rest
  follows : ∀ rest, Follows rest → Follows (text ++ rest)
  advances : ∀ rest, (skip rest).length < (skip (text ++ rest)).length

variable {Follows : List Char → Prop} {texts : List (List Char)} {as : List α}

/-- Items can be read one after the other, up to something that is no item. -/
theorem reads_many (items : List.Forall₂ (ReadsItem skip p Follows) texts as)
    (ends : Follows rest) (fails : p (skip rest) = none) :
    Reads skip (many p) texts.flatten as rest ∧ Follows (texts.flatten ++ rest) := by
  induction items with
  | nil => exact ⟨reads_many_nil fails, ends⟩
  | cons item _ ih =>
    obtain ⟨others, follows⟩ := ih
    rw [List.flatten_cons, List.append_assoc]
    exact ⟨(item.reads _ follows).many_cons (item.advances _) others, item.follows _ follows⟩

theorem reads_many1 {text : List Char} (item : ReadsItem skip p Follows text a)
    (items : List.Forall₂ (ReadsItem skip p Follows) texts as)
    (ends : Follows rest) (fails : p (skip rest) = none) :
    Reads skip (many1 p) (text ++ texts.flatten) (a :: as) rest := by
  obtain ⟨others, follows⟩ := reads_many items ends fails
  exact (item.reads _ follows).bind (others.map (g := (a :: ·)))

/-! ## Characters -/

theorem isPrefixOf?_append (l rest : List Char) : l.isPrefixOf? (l ++ rest) = some rest := by
  induction l with
  | nil => rfl
  | cons c l ih => simp [List.isPrefixOf?, ih]

theorem literal_append (text : String) (rest : List Char) :
    literal text (text.toList ++ rest) = some ((), rest) := by
  rw [literal, isPrefixOf?_append]
  rfl

theorem reads_char (c : Char) (rest : List Char) : Reads id (char c) [c] () rest := if_pos rfl

theorem reads_satisfy {holds : Char → Bool} {c : Char} (h : holds c = true) (rest : List Char) :
    Reads id (satisfy holds) [c] c rest := if_pos h

theorem takeWhile_append {holds : Char → Bool} {l : List Char} (all : ∀ c ∈ l, holds c = true)
    (ends : ∀ c ∈ rest.head?, holds c = false) :
    takeWhile holds (l ++ rest) = some (l, rest) := by
  have stops : rest.takeWhile holds = [] ∧ rest.dropWhile holds = rest := by
    cases rest with
    | nil => exact ⟨rfl, rfl⟩
    | cons c rest => simp [ends c rfl]
  rw [takeWhile, List.takeWhile_append_of_pos all, List.dropWhile_append_of_pos all, stops.1,
    stops.2, List.append_nil]

end ResolverTypes.Parser
