import Mathlib.Data.List.Forall2
import ResolverTypes.Proofs.TypeScript.Comment
import ResolverTypes.Proofs.TypeScript.Printer

/-!
# Documents without descriptions

Descriptions stand at declarations and at the properties of object types. A declaration without
descriptions has none itself and none at the properties of the object type that it names; deeper
down they are left alone, since the object types of a document are not nested.

The text of a document is that of the document without descriptions with comments put in
(`Document.commented_render`), so the descriptions are comments of the text and nothing else.
-/

namespace ResolverTypes.TypeScript

/-! ## Taking descriptions away -/

def Property.withoutDescription {α : Type} (p : Property α) : Property α :=
  { p with description := none }

/-- The type expression without descriptions at its properties, if it is an object type. -/
def TypeExpr.withoutDescriptions : TypeExpr → TypeExpr
  | .object properties => .object (properties.map (·.withoutDescription))
  | t => t

def Declaration.Form.withoutDescriptions : Declaration.Form → Declaration.Form
  | .typeAlias name params type => .typeAlias name params type.withoutDescriptions
  | .interface name params base properties =>
    .interface name params base (properties.map (·.withoutDescription))
  | form => form

def Declaration.withoutDescriptions (d : Declaration) : Declaration :=
  { form := d.form.withoutDescriptions }

def Section.withoutDescriptions (s : Section) : Section :=
  { s with declarations := s.declarations.map (·.withoutDescriptions) }

def Document.withoutDescriptions (d : Document) : Document :=
  ⟨d.sections.map (·.withoutDescriptions)⟩

/-- Taking descriptions away once is enough. -/
@[simp] theorem Declaration.withoutDescriptions_idem (d : Declaration) :
    d.withoutDescriptions.withoutDescriptions = d.withoutDescriptions := by
  have properties (l : List (Property TypeExpr)) :
      (l.map (·.withoutDescription)).map (·.withoutDescription) = l.map (·.withoutDescription) :=
    List.map_map
  obtain ⟨form, description⟩ := d
  cases form with
  | typeAlias name params type =>
    cases type with
    | object l =>
      simp only [withoutDescriptions, Form.withoutDescriptions, TypeExpr.withoutDescriptions,
        properties]
    | reference | index | literal | quoted | union | group | inlineObject | raw => rfl
  | interface name params base l =>
    simp only [withoutDescriptions, Form.withoutDescriptions, properties]
  | imports | enum | verbatim => rfl

theorem Document.withoutDescriptions_ofSections (sections : List Section) :
    (Document.ofSections sections).withoutDescriptions =
      .ofSections (sections.map (·.withoutDescriptions)) := by
  have empty (s : Section) :
      s.withoutDescriptions.declarations.isEmpty = s.declarations.isEmpty := List.isEmpty_map
  unfold Document.ofSections Document.withoutDescriptions
  rw [List.filter_map]
  simp only [Function.comp_def, empty]

/-! ## Comments put in -/

/-- Whether the first text is the second with comments of descriptions and blanks put in. -/
def CommentedText (t b : String) : Prop := Commented t.toList b.toList

namespace CommentedText

theorem refl (t : String) : CommentedText t t := Commented.refl _

theorem append {t b t' b' : String} (first : CommentedText t b) (second : CommentedText t' b') :
    CommentedText (t ++ t') (b ++ b') := by
  unfold CommentedText
  rw [String.toList_append, String.toList_append]
  exact Commented.append first second

theorem join {ts bs : List String} (each : List.Forall₂ CommentedText ts bs) :
    CommentedText (String.join ts) (String.join bs) := by
  induction each with
  | nil => exact .refl _
  | cons first _ ih =>
    rw [String.join_cons, String.join_cons]
    exact first.append ih

theorem intercalate (separator : String) {ts bs : List String}
    (each : List.Forall₂ CommentedText ts bs) :
    CommentedText (separator.intercalate ts) (separator.intercalate bs) := by
  induction each with
  | nil => exact .refl _
  | cons first rest ih =>
    cases rest with
    | nil =>
      rw [String.intercalate_singleton, String.intercalate_singleton]
      exact first
    | cons second rest =>
      rw [String.intercalate_cons_cons, String.intercalate_cons_cons]
      exact (first.append (.refl _)).append ih

/-- The comment of a description comes in with the blanks around it. -/
theorem leadingComment {indent : String} (blank : Text.IsBlank indent)
    (description : Option String) : CommentedText (leadingComment indent description) "" := by
  have blanks : ∀ l : List Char, (∀ c ∈ l, Text.isBlank c = true) → Commented l [] := by
    intro l
    induction l with
    | nil => exact fun _ => .nil
    | cons c rest ih =>
      intro all
      exact .blank (all c List.mem_cons_self) (ih fun d hd => all d (List.mem_cons_of_mem _ hd))
  cases description with
  | none => exact .nil
  | some text =>
    have comment : Commented (comment text).toList [] := by
      have alone := Commented.comment text.toList .nil
      rwa [List.append_nil, ← String.toList_ofList (l := commentText text.toList)] at alone
    have ended : Commented "\n".toList [] := .blank (by decide) .nil
    unfold CommentedText TypeScript.leadingComment
    rw [String.toList_append, String.toList_append]
    exact ((blanks _ blank).append comment).append ended

end CommentedText

/-! ## Texts with and without descriptions -/

theorem renderProperties_eq (properties : List (Property TypeExpr)) :
    renderProperties properties =
      properties.map fun p => leadingComment "  " p.description ++ "  " ++ p.render ++ ";\n" := by
  induction properties with
  | nil => rw [renderProperties, List.map_nil]
  | cons p rest ih =>
    obtain ⟨key, value, isOptional, description⟩ := p
    rw [renderProperties, ih, List.map_cons]
    rfl

theorem commented_renderProperties (properties : List (Property TypeExpr)) :
    List.Forall₂ CommentedText (renderProperties properties)
      (renderProperties (properties.map (·.withoutDescription))) := by
  rw [renderProperties_eq, renderProperties_eq, List.map_map, List.forall₂_map_left_iff,
    List.forall₂_map_right_iff, List.forall₂_same]
  intro p _
  have comment : CommentedText (leadingComment "  " p.description) (leadingComment "  " none) :=
    .leadingComment (by decide) _
  exact ((comment.append (.refl _)).append (.refl _)).append (.refl _)

/-- An object type has its comments in front of the lines of its properties. -/
theorem commented_render_object (properties : List (Property TypeExpr)) :
    CommentedText (TypeExpr.object properties).render
      (TypeExpr.object (properties.map (·.withoutDescription))).render := by
  rw [TypeExpr.render, TypeExpr.render]
  cases properties with
  | nil => exact .refl _
  | cons p rest =>
    have lines := CommentedText.join (commented_renderProperties (p :: rest))
    exact ((CommentedText.refl "\x7b\n").append lines).append (.refl "\x7d")

theorem TypeExpr.commented_render (t : TypeExpr) :
    CommentedText t.render t.withoutDescriptions.render := by
  cases t with
  | object properties => exact commented_render_object properties
  | reference | index | literal | quoted | union | group | inlineObject | raw => exact .refl _

theorem Declaration.Form.commented_render (form : Declaration.Form) :
    CommentedText form.render form.withoutDescriptions.render := by
  cases form with
  | typeAlias name params type =>
    exact ((CommentedText.refl _).append type.commented_render).append (.refl _)
  | interface name params base properties =>
    exact (CommentedText.refl _).append (commented_render_object properties)
  | imports | enum | verbatim => exact .refl _

theorem Declaration.commented_render (d : Declaration) :
    CommentedText d.render d.withoutDescriptions.render :=
  (CommentedText.leadingComment (by decide) d.description).append d.form.commented_render

theorem Section.commented_render (s : Section) :
    CommentedText s.render s.withoutDescriptions.render := by
  refine CommentedText.intercalate _ ?_
  rw [Section.withoutDescriptions, List.map_map, List.forall₂_map_left_iff,
    List.forall₂_map_right_iff, List.forall₂_same]
  exact fun d _ => d.commented_render

/-- The text of a document is that of the document without descriptions with comments put in. -/
theorem Document.commented_render (d : Document) :
    CommentedText d.render d.withoutDescriptions.render := by
  have sections : CommentedText ("\n\n".intercalate (d.sections.map (·.render)))
      ("\n\n".intercalate (d.withoutDescriptions.sections.map (·.render))) := by
    refine CommentedText.intercalate _ ?_
    rw [Document.withoutDescriptions, List.map_map, List.forall₂_map_left_iff,
      List.forall₂_map_right_iff, List.forall₂_same]
    exact fun s _ => s.commented_render
  have empty : d.withoutDescriptions.sections.isEmpty = d.sections.isEmpty := List.isEmpty_map
  rw [Document.render, Document.render, empty]
  exact sections.append (.refl _)

end ResolverTypes.TypeScript
