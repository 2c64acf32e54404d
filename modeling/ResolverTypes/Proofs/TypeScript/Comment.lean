import Mathlib.Data.List.Chain
import Mathlib.Data.List.Induction
import ResolverTypes.TypeScript.Comment

/-!
# Where comments end

A comment ends at the first closing mark behind its opening mark, and the text of a description may
hold such marks, or stars and slashes that are moved next to each other when lines are trimmed. In
the comment that is written for a description the closing mark stands at the end and nowhere else
(`eq_nil_of_commentText`).

So what is left of a text without its comments (`outsideComments?`) does not depend on what they
say. `Commented t b` says that `t` is `b` with comments and blanks put in; if `b` opens no comment
itself, both have the same characters outside of comments, blanks apart (`Commented.code?_eq`).
-/

namespace ResolverTypes.TypeScript

open Text

/-! ## Marks -/

/-- Whether the two characters never stand side by side in the text. -/
def Lacks (a b : Char) (l : List Char) : Prop := l.IsChain fun c d => ¬(c = a ∧ d = b)

theorem lacks_iff {a b : Char} {l : List Char} : Lacks a b l ↔ ¬[a, b] <:+: l := by
  rw [Lacks, List.isChain_iff_forall_rel_of_append_cons_cons]
  constructor
  · rintro apart ⟨before, after, split⟩
    exact apart (show l = before ++ a :: b :: after by simp [← split]) ⟨rfl, rfl⟩
  · rintro none c d before after split ⟨rfl, rfl⟩
    exact none ⟨before, after, by simp [split]⟩

theorem lacks_append {a b : Char} {l m : List Char} (left : Lacks a b l) (right : Lacks a b m)
    (between : l.getLast? ≠ some a ∨ m.head? ≠ some b) : Lacks a b (l ++ m) := by
  refine List.isChain_append.mpr ⟨left, right, ?_⟩
  rintro c hc d hd ⟨rfl, rfl⟩
  exact between.elim (fun apart => apart hc) fun apart => apart hd

theorem lacks_cons {a b c : Char} {l : List Char} (rest : Lacks a b l)
    (apart : c ≠ a ∨ l.head? ≠ some b) : Lacks a b (c :: l) :=
  lacks_append (l := [c]) (List.isChain_singleton c) rest <| by simpa using apart

/-- If only the last two characters of a text can be the mark, nothing follows a mark in it. -/
theorem eq_nil_of_lacks {a b c : Char} {l before after : List Char} (lacks : Lacks a b l)
    (split : l ++ [c] = before ++ a :: b :: after) : after = [] := by
  rcases List.eq_nil_or_concat' after with rfl | ⟨rest, d, rfl⟩
  · rfl
  · have whole : l ++ [c] = (before ++ a :: b :: rest) ++ [d] := by simpa using split
    obtain ⟨rfl, -⟩ := List.append_inj' whole rfl
    exact absurd ⟨before, rest, by simp⟩ (lacks_iff.mp lacks)

/-! ## The comment of a description -/

theorem head?_breakCommentEnds (l : List Char) : (breakCommentEnds l).head? = l.head? := by
  unfold breakCommentEnds
  split <;> rfl

theorem lacks_breakCommentEnds (l : List Char) : Lacks '*' '/' (breakCommentEnds l) := by
  induction l using breakCommentEnds.induct with
  | case1 rest ih =>
    rw [breakCommentEnds]
    exact lacks_cons (lacks_cons (lacks_cons ih (.inl (by decide))) (.inl (by decide)))
      (.inr (by simp))
  | case2 c rest other ih =>
    rw [breakCommentEnds]
    · refine lacks_cons ih ?_
      rw [head?_breakCommentEnds]
      by_contra both
      obtain ⟨rfl, slash⟩ : c = '*' ∧ rest.head? = some '/' := by simpa [not_or] using both
      obtain ⟨tail, rfl⟩ := List.head?_eq_some_iff.mp slash
      exact other tail rfl rfl
    · exact other
  | case3 => exact List.isChain_nil

/-- Every line of a text is a piece of it. -/
theorem infix_of_mem_splitOn {line text : List Char} (h : line ∈ text.splitOn '\n') :
    line <:+: text := by
  have inside : ∀ lines : List (List Char), ∀ line ∈ lines, line <:+: ['\n'].intercalate lines := by
    intro lines
    induction lines with
    | nil => nofun
    | cons first rest ih =>
      intro line member
      cases rest with
      | nil =>
        obtain rfl := List.mem_singleton.mp member
        exact ⟨[], [], by simp⟩
      | cons second rest =>
        rw [List.intercalate_cons_cons]
        rcases List.mem_cons.mp member with rfl | later
        · exact ⟨[], _, by simp; rfl⟩
        · exact (ih line later).trans (List.suffix_append _ _).isInfix
  have whole := inside _ line h
  rwa [List.intercalate_splitOn] at whole

theorem isPrefix_trimEnd (l : List Char) : trimEnd l <+: l := by
  rw [← List.reverse_suffix, trimEnd, List.reverse_reverse]
  exact List.dropWhile_suffix _

theorem lacks_commentLine {line : List Char} (lacks : Lacks '*' '/' line) :
    Lacks '*' '/' (commentLine line) := by
  have trimmed : Lacks '*' '/' (trimEnd line) := lacks.infix (isPrefix_trimEnd line).isInfix
  have ended : Lacks '*' '/' (trimEnd line ++ ['\n']) :=
    lacks_append trimmed (List.isChain_singleton _) (.inr (by decide))
  exact lacks_cons (lacks_cons (lacks_cons ended (.inl (by decide))) (.inr (by simp)))
    (.inl (by decide))

theorem getLast?_commentLine (line : List Char) : (commentLine line).getLast? = some '\n' :=
  List.getLast?_concat

theorem lacks_commentLines {lines : List (List Char)} (lacks : ∀ line ∈ lines, Lacks '*' '/' line) :
    Lacks '*' '/' (lines.flatMap commentLine) := by
  induction lines with
  | nil => exact List.isChain_nil
  | cons line rest ih =>
    rw [List.flatMap_cons]
    refine lacks_append (lacks_commentLine (lacks line List.mem_cons_self))
      (ih fun l hl => lacks l (List.mem_cons_of_mem _ hl)) (.inl ?_)
    rw [getLast?_commentLine]
    decide

/-- A comment has its opening mark at its start and its closing mark at its end, and nowhere else a
closing mark. -/
theorem commentText_eq (description : List Char) :
    ∃ body, commentText description = '/' :: '*' :: body ++ ['*', '/'] ∧
      Lacks '*' '/' ('/' :: '*' :: body ++ ['*']) := by
  have broken := lacks_breakCommentEnds (trim description)
  -- a star and a blank stand between either mark and the text
  have framed {first : Char} {inner : List Char} (blank : first ≠ '/')
      (lacks : Lacks '*' '/' (first :: inner)) :
      Lacks '*' '/' ('/' :: '*' :: ('*' :: first :: inner ++ [' ']) ++ ['*']) :=
    have closed : Lacks '*' '/' (first :: inner ++ [' ']) :=
      lacks_append lacks (List.isChain_singleton _) (.inr (by decide))
    have starred : Lacks '*' '/' ('*' :: (first :: inner ++ [' '])) :=
      lacks_cons closed (.inr (by simpa using blank))
    have last : Lacks '*' '/' ('*' :: (first :: inner ++ [' ']) ++ ['*']) :=
      lacks_append starred (List.isChain_singleton _) (.inr (by decide))
    lacks_cons (lacks_cons last (.inr (by simp))) (.inl (by decide))
  rw [commentText]
  by_cases several : '\n' ∈ breakCommentEnds (trim description)
  · have lines := lacks_commentLines fun line member =>
      broken.infix (infix_of_mem_splitOn member)
    exact ⟨_, by rw [if_pos several]; simp,
      framed (show '\n' ≠ '/' by decide) (lacks_cons lines (.inl (by decide)))⟩
  · exact ⟨_, by rw [if_neg several]; simp,
      framed (show ' ' ≠ '/' by decide) (lacks_cons broken (.inl (by decide)))⟩

/-- Whatever follows a closing mark in a comment, there is nothing. -/
theorem eq_nil_of_commentText {description before after : List Char}
    (split : commentText description = before ++ '*' :: '/' :: after) : after = [] := by
  obtain ⟨body, text, lacks⟩ := commentText_eq description
  have whole : ('/' :: '*' :: body ++ ['*']) ++ ['/'] = before ++ '*' :: '/' :: after := by
    rw [← split, text]
    simp
  exact eq_nil_of_lacks lacks whole

/-! ## What stands outside of comments -/

/-- The characters of a text that stand outside of its comments, where the flag says whether it
starts inside one. A comment goes on to the first closing mark behind its opening mark; without one
there is no answer. -/
def outsideComments? : Bool → List Char → Option (List Char)
  | false, '/' :: '*' :: rest => outsideComments? true rest
  | false, c :: rest => (outsideComments? false rest).map (c :: ·)
  | false, [] => some []
  | true, '*' :: '/' :: rest => outsideComments? false rest
  | true, _ :: rest => outsideComments? true rest
  | true, [] => none

/-- The characters of a text that are neither blank nor inside a comment. -/
def code? (text : String) : Option (List Char) :=
  (outsideComments? false text.toList).map fun l => l.filter fun c => !isBlank c

theorem outsideComments?_cons {c : Char} {rest : List Char}
    (apart : ¬(c = '/' ∧ rest.head? = some '*')) :
    outsideComments? false (c :: rest) = (outsideComments? false rest).map (c :: ·) := by
  rw [outsideComments?]
  rintro tail rfl rfl
  exact apart ⟨rfl, rfl⟩

/-- Reading goes on outside behind the first closing mark. -/
theorem outsideComments?_inside {body rest : List Char} (lacks : Lacks '*' '/' (body ++ ['*'])) :
    outsideComments? true (body ++ '*' :: '/' :: rest) = outsideComments? false rest := by
  induction body with
  | nil => rfl
  | cons c body ih =>
    have tail := List.IsChain.tail lacks
    rw [List.cons_append, outsideComments?]
    · exact ih tail
    · -- the mark does not begin with the character at hand
      rintro after rfl split
      cases body with
      | nil => cases split
      | cons d body =>
        rw [List.cons_append] at split
        obtain ⟨rfl, -⟩ := List.cons.inj split
        exact lacks_iff.mp lacks ⟨[], body ++ ['*'], rfl⟩

theorem outsideComments?_commentText (description rest : List Char) :
    outsideComments? false (commentText description ++ rest) = outsideComments? false rest := by
  obtain ⟨body, text, lacks⟩ := commentText_eq description
  have inside : Lacks '*' '/' (body ++ ['*']) := List.IsChain.tail (List.IsChain.tail lacks)
  rw [text]
  show outsideComments? false ('/' :: '*' :: (body ++ ['*', '/'] ++ rest)) = _
  rw [outsideComments?, List.append_assoc]
  exact outsideComments?_inside inside

/-! ## Texts with comments put in -/

/-- Whether the first text is the second with comments of descriptions and blanks put in. -/
inductive Commented : List Char → List Char → Prop
  | nil : Commented [] []
  | char {t b : List Char} (c : Char) : Commented t b → Commented (c :: t) (c :: b)
  | blank {t b : List Char} {c : Char} : isBlank c = true → Commented t b → Commented (c :: t) b
  | comment {t b : List Char} (description : List Char) :
      Commented t b → Commented (commentText description ++ t) b

namespace Commented

theorem refl : ∀ l, Commented l l
  | [] => .nil
  | c :: l => .char c (refl l)

theorem append {t b t' b' : List Char} (first : Commented t b) (second : Commented t' b') :
    Commented (t ++ t') (b ++ b') := by
  induction first with
  | nil => exact second
  | char c _ ih => exact .char c ih
  | blank blank _ ih => exact .blank blank ih
  | comment description _ ih =>
    rw [List.append_assoc]
    exact .comment description ih

/-- Neither a blank nor a comment begins with a star. -/
theorem head?_eq_star {t b : List Char} (commented : Commented t b) (star : t.head? = some '*') :
    b.head? = some '*' := by
  cases commented with
  | nil => exact star
  | char c _ => exact star
  | blank blank _ =>
    obtain rfl := Option.some.inj star
    cases blank
  | comment description _ =>
    obtain ⟨body, text, -⟩ := commentText_eq description
    rw [text] at star
    cases star

/-- If the text without the comments opens none itself, both have the same code. -/
theorem exists_outsideComments? {t b : List Char} (commented : Commented t b)
    (lacks : Lacks '/' '*' b) :
    ∃ r, outsideComments? false t = some r ∧
      r.filter (fun c => !isBlank c) = b.filter fun c => !isBlank c := by
  induction commented with
  | nil => exact ⟨[], rfl, rfl⟩
  | char c commented ih =>
    obtain ⟨r, outside, same⟩ := ih (List.IsChain.tail lacks)
    refine ⟨c :: r, ?_, by rw [List.filter_cons, List.filter_cons, same]⟩
    rw [outsideComments?_cons, outside, Option.map_some]
    -- a star behind a slash would have been there before
    rintro ⟨rfl, star⟩
    obtain ⟨rest, rfl⟩ := List.head?_eq_some_iff.mp (commented.head?_eq_star star)
    exact lacks_iff.mp lacks ⟨[], rest, rfl⟩
  | @blank t b c blank commented ih =>
    obtain ⟨r, outside, same⟩ := ih lacks
    refine ⟨c :: r, ?_, ?_⟩
    · rw [outsideComments?_cons, outside, Option.map_some]
      rintro ⟨rfl, -⟩
      cases blank
    · rw [List.filter_cons, if_neg (by simp [blank]), same]
  | comment description _ ih =>
    rw [outsideComments?_commentText]
    exact ih lacks

end Commented

end ResolverTypes.TypeScript
