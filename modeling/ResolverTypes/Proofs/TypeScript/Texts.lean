import ResolverTypes.Proofs.TypeScript.Descriptions
import ResolverTypes.Proofs.TypeScript.References

/-!
# What a document is written from

The texts of a declaration are the names, keys and types taken over as given that stand in its tree,
and the comments of its descriptions. All else in its text is put there by the printer: keywords,
brackets and other separators, without a slash or a star in them and never left out between two
texts. So whatever opens a comment in the text of a document stands in one of its texts
(`Document.unmarked_render`).
-/

namespace ResolverTypes.TypeScript

/-! ## Texts -/

/-- The comment of a description, if there is one. -/
def descriptionTexts (description : Option String) : List String := (description.map comment).toList

mutual

/-- The texts that a type expression is written from. -/
def TypeExpr.texts : TypeExpr → List String
  | .reference name args => name :: textsOfTypes args
  | .index target key => key :: target.texts
  | .literal value => [value]
  | .quoted value => [value]
  | .union members => textsOfTypes members
  | .group inner => inner.texts
  | .object properties => textsOfProperties properties
  | .inlineObject properties => textsOfInline properties
  | .raw text => [text]

/-- The texts of several type expressions. -/
def textsOfTypes : List TypeExpr → List String
  | [] => []
  | t :: rest => t.texts ++ textsOfTypes rest

/-- The texts of the properties of an object type. -/
def textsOfProperties : List (Property TypeExpr) → List String
  | [] => []
  | ⟨key, value, _, description⟩ :: rest =>
    descriptionTexts description ++ key :: value.texts ++ textsOfProperties rest

/-- The texts of the properties of an object type on a single line. -/
def textsOfInline : List (String × TypeExpr) → List String
  | [] => []
  | (key, value) :: rest => key :: value.texts ++ textsOfInline rest

end

def TypeParam.texts (p : TypeParam) : List String := p.name :: p.types.flatMap (·.texts)

namespace Declaration

def Form.texts : Form → List String
  | .imports names source => source :: names
  | .typeAlias name params type => name :: params.flatMap (·.texts) ++ type.texts
  | .enum name members => name :: members.flatMap fun m => [m.name, m.value]
  | .interface name params base properties =>
    name :: params.flatMap (·.texts) ++ base.toList.flatMap (·.texts) ++
      (TypeExpr.object properties).texts
  | .verbatim _ text => [text]

/-- The texts that a declaration is written from. -/
def texts (d : Declaration) : List String := descriptionTexts d.description ++ d.form.texts

end Declaration

theorem textsOfTypes_eq (l : List TypeExpr) : textsOfTypes l = l.flatMap (·.texts) := by
  induction l with
  | nil => rfl
  | cons t rest ih =>
    show t.texts ++ textsOfTypes rest = _
    rw [ih, List.flatMap_cons]

theorem textsOfProperties_eq (l : List (Property TypeExpr)) :
    textsOfProperties l =
      l.flatMap fun p => descriptionTexts p.description ++ p.key :: p.value.texts := by
  induction l with
  | nil => rfl
  | cons p rest ih =>
    show descriptionTexts p.description ++ p.key :: p.value.texts ++ textsOfProperties rest = _
    rw [ih, List.flatMap_cons]

/-! ## Texts without opening marks -/

/-- Whether no comment opens in the text. -/
def Unmarked (t : String) : Prop := Lacks '/' '*' t.toList

instance (t : String) : Decidable (Unmarked t) := inferInstanceAs (Decidable (List.IsChain _ _))

/-- Whether the text keeps apart what stands on both sides of it: there is something in it, and no
part of a mark. -/
def Separates (s : String) : Prop := s ≠ "" ∧ ∀ c ∈ s.toList, c ≠ '/' ∧ c ≠ '*'

instance (s : String) : Decidable (Separates s) :=
  decidable_of_iff (s ≠ "" ∧ s.toList.all fun c => c ≠ '/' ∧ c ≠ '*') (by simp [Separates])

theorem unmarked_of_forall {t : String} (none : ∀ c ∈ t.toList, c ≠ '/') : Unmarked t := by
  rw [Unmarked, lacks_iff]
  rintro ⟨before, after, split⟩
  exact none '/' (by rw [← split]; simp) rfl

theorem Separates.unmarked {s : String} (separates : Separates s) : Unmarked s :=
  unmarked_of_forall fun c hc => (separates.2 c hc).1

namespace Unmarked

variable {a b s : String}

theorem empty : Unmarked "" := List.isChain_nil

/-- A separator on the right takes part in no mark. -/
theorem separator (ha : Unmarked a) (separates : Separates s) : Unmarked (a ++ s) := by
  unfold Unmarked
  rw [String.toList_append]
  refine lacks_append ha separates.unmarked (.inr fun star => ?_)
  exact (separates.2 '*' (List.mem_of_head? star)).2 rfl

/-- A separator on the left takes part in no mark. -/
theorem after (separates : Separates s) (hb : Unmarked b) : Unmarked (s ++ b) := by
  unfold Unmarked
  rw [String.toList_append]
  refine lacks_append separates.unmarked hb (.inl fun slash => ?_)
  exact (separates.2 '/' (List.mem_of_getLast? slash)).1 rfl

/-- Across a separator no mark can come about. -/
theorem across (ha : Unmarked a) (separates : Separates s) (hb : Unmarked b) :
    Unmarked (a ++ s ++ b) := by
  have right := after separates hb
  unfold Unmarked at *
  rw [String.append_assoc, String.toList_append]
  refine lacks_append ha right (.inr ?_)
  obtain ⟨something, plain⟩ := separates
  rw [String.toList_append]
  cases letters : s.toList with
  | nil => exact absurd (String.toList_eq_nil_iff.mp letters) something
  | cons c rest =>
    rw [letters] at plain
    simpa using (plain c List.mem_cons_self).2

end Unmarked

theorem Unmarked.intercalate {separator : String} (separates : Separates separator)
    {items : List String} (each : ∀ i ∈ items, Unmarked i) :
    Unmarked (separator.intercalate items) := by
  induction items with
  | nil => exact .empty
  | cons first rest ih =>
    obtain ⟨here, later⟩ := List.forall_mem_cons.mp each
    cases rest with
    | nil =>
      rw [String.intercalate_singleton]
      exact here
    | cons second rest =>
      rw [String.intercalate_cons_cons]
      exact here.across separates (ih later)

/-- Whether the text ends with something that keeps it apart from what follows. -/
def IsLine (l : String) : Prop :=
  ∃ text ending, l = text ++ ending ∧ Unmarked text ∧ Separates ending

theorem Unmarked.join {lines : List String} (each : ∀ l ∈ lines, IsLine l) :
    Unmarked (String.join lines) := by
  induction lines with
  | nil => exact .empty
  | cons first rest ih =>
    obtain ⟨⟨text, ending, rfl, unmarked, separates⟩, later⟩ := List.forall_mem_cons.mp each
    rw [String.join_cons]
    exact unmarked.across separates (ih later)

/-! ## Unmarked texts give unmarked documents -/

theorem Unmarked.angled {text : String} {items : List String} (ht : Unmarked text)
    (each : ∀ i ∈ items, Unmarked i) : Unmarked (text ++ angled items) := by
  unfold TypeScript.angled
  split
  · rwa [String.append_empty]
  · rw [← String.append_assoc, ← String.append_assoc]
    exact (ht.across (by decide) (.intercalate (by decide) each)).separator (by decide)

theorem Unmarked.propertyText {key type : String} (isOptional : Bool) (hk : Unmarked key)
    (ht : Unmarked type) : Unmarked (propertyText key isOptional type) := by
  unfold TypeScript.propertyText
  cases isOptional with
  | false =>
    rw [if_neg (by decide), String.append_empty]
    exact hk.across (by decide) ht
  | true =>
    rw [if_pos rfl]
    exact (hk.separator (by decide)).across (by decide) ht

theorem Unmarked.leadingComment {indent : String} (blank : Separates indent ∨ indent = "")
    {description : Option String} (texts : ∀ t ∈ descriptionTexts description, Unmarked t) :
    Unmarked (leadingComment indent description) := by
  cases description with
  | none => exact .empty
  | some text =>
    have unmarked : Unmarked (comment text) := texts _ (List.mem_singleton_self _)
    show Unmarked (indent ++ comment text ++ "\n")
    rcases blank with separates | rfl
    · exact (unmarked.after separates).separator (by decide)
    · rw [String.empty_append]
      exact unmarked.separator (by decide)

theorem Unmarked.bracedLines {lines : List String} (each : ∀ l ∈ lines, IsLine l) :
    Unmarked (bracedLines lines) := by
  unfold TypeScript.bracedLines
  split
  · exact Separates.unmarked (by decide)
  · exact ((Unmarked.join each).after (by decide)).separator (by decide)

mutual

/-- A type expression that is written from unmarked texts is unmarked. -/
theorem TypeExpr.unmarked_render : ∀ t : TypeExpr, (∀ x ∈ t.texts, Unmarked x) → Unmarked t.render
  | .reference name args, h => by
    rw [TypeExpr.texts, List.forall_mem_cons] at h
    rw [TypeExpr.render]
    exact h.1.angled (unmarked_renderTypes args h.2)
  | .index target key, h => by
    rw [TypeExpr.texts, List.forall_mem_cons] at h
    rw [TypeExpr.render]
    exact ((target.unmarked_render h.2).across (by decide) h.1).separator (by decide)
  | .literal value, h => by
    rw [TypeExpr.render]
    exact ((h value (List.mem_singleton_self _)).after (by decide)).separator (by decide)
  | .quoted value, h => by
    rw [TypeExpr.render]
    exact ((h value (List.mem_singleton_self _)).after (by decide)).separator (by decide)
  | .union members, h => by
    rw [TypeExpr.render]
    exact .intercalate (by decide) (unmarked_renderTypes members h)
  | .group inner, h => by
    rw [TypeExpr.render]
    exact ((inner.unmarked_render h).after (by decide)).separator (by decide)
  | .object properties, h => by
    rw [TypeExpr.render]
    exact .bracedLines (isLine_renderProperties properties h)
  | .inlineObject properties, h => by
    rw [TypeExpr.render]
    exact ((Unmarked.join (isLine_renderInline properties h)).after (by decide)).separator
      (by decide)
  | .raw text, h => by
    rw [TypeExpr.render]
    exact h text (List.mem_singleton_self _)

theorem unmarked_renderTypes :
    ∀ l : List TypeExpr, (∀ x ∈ textsOfTypes l, Unmarked x) → ∀ r ∈ renderTypes l, Unmarked r
  | [], _ => by
    rw [renderTypes]
    nofun
  | t :: rest, h => by
    rw [textsOfTypes, List.forall_mem_append] at h
    rw [renderTypes]
    exact List.forall_mem_cons.mpr ⟨t.unmarked_render h.1, unmarked_renderTypes rest h.2⟩

theorem isLine_renderProperties : ∀ l : List (Property TypeExpr),
    (∀ x ∈ textsOfProperties l, Unmarked x) → ∀ r ∈ renderProperties l, IsLine r
  | [], _ => by
    rw [renderProperties]
    nofun
  | ⟨key, value, isOptional, description⟩ :: rest, h => by
    rw [textsOfProperties, List.forall_mem_append, List.forall_mem_append,
      List.forall_mem_cons] at h
    obtain ⟨⟨comment, key, value⟩, later⟩ := h
    rw [renderProperties]
    refine List.forall_mem_cons.mpr ⟨⟨_, _, rfl, ?_, by decide⟩, isLine_renderProperties rest later⟩
    exact (Unmarked.leadingComment (.inl (by decide)) comment).across (by decide)
      (.propertyText _ key (TypeExpr.unmarked_render _ value))

theorem isLine_renderInline : ∀ l : List (String × TypeExpr),
    (∀ x ∈ textsOfInline l, Unmarked x) → ∀ r ∈ renderInline l, IsLine r
  | [], _ => by
    rw [renderInline]
    nofun
  | (key, value) :: rest, h => by
    rw [textsOfInline, List.forall_mem_append, List.forall_mem_cons] at h
    rw [renderInline]
    exact List.forall_mem_cons.mpr
      ⟨⟨_, _, rfl, .propertyText _ h.1.1 (value.unmarked_render h.1.2), by decide⟩,
        isLine_renderInline rest h.2⟩

end

/-- A type behind a keyword, if there is one. -/
theorem Unmarked.clause {text : String} (ht : Unmarked text) (keyword : String)
    (separates : Separates keyword) {type : Option TypeExpr}
    (h : ∀ x ∈ type.toList.flatMap (·.texts), Unmarked x) :
    Unmarked (text ++ type.elim "" fun t => keyword ++ t.render) := by
  cases type with
  | none =>
    show Unmarked (text ++ "")
    rwa [String.append_empty]
  | some t =>
    show Unmarked (text ++ (keyword ++ t.render))
    rw [← String.append_assoc]
    exact ht.across separates (t.unmarked_render (by simpa using h))

theorem TypeParam.unmarked_render {p : TypeParam} (h : ∀ x ∈ p.texts, Unmarked x) :
    Unmarked p.render := by
  rw [TypeParam.texts, TypeParam.types, List.flatMap_append, List.forall_mem_cons,
    List.forall_mem_append] at h
  obtain ⟨hname, hbound, hdefault⟩ := h
  have head := (hname.clause " extends " (by decide) hbound).clause " = " (by decide) hdefault
  obtain ⟨name, bound, default⟩ := p
  cases bound <;> cases default <;> exact head

theorem unmarked_params {params : List TypeParam}
    (h : ∀ x ∈ params.flatMap (·.texts), Unmarked x) :
    ∀ r ∈ params.map (·.render), Unmarked r := by
  intro r hr
  obtain ⟨p, hp, rfl⟩ := List.mem_map.mp hr
  exact TypeParam.unmarked_render fun x hx => h x (List.mem_flatMap.mpr ⟨p, hp, hx⟩)

theorem isLine_enumLines {members : List EnumMember}
    (h : ∀ m ∈ members, Unmarked m.name ∧ Unmarked m.value) :
    ∀ l ∈ enumLines members, IsLine l := by
  induction members with
  | nil => nofun
  | cons m rest ih =>
    obtain ⟨⟨name, value⟩, later⟩ := List.forall_mem_cons.mp h
    refine List.forall_mem_cons.mpr ⟨⟨_, _, rfl, ?_, ?_⟩, ih later⟩
    · exact ((name.after (by decide)).across (by decide) value).separator (by decide)
    · cases rest.isEmpty <;> decide

namespace Declaration

theorem Form.unmarked_render {form : Form} (h : ∀ x ∈ form.texts, Unmarked x) :
    Unmarked form.render := by
  cases form with
  | imports names source =>
    obtain ⟨source, names⟩ := List.forall_mem_cons.mp h
    exact (((Unmarked.intercalate (by decide) names).after (by decide)).across (by decide)
      source).separator (by decide)
  | typeAlias name params type =>
    rw [Form.texts, List.forall_mem_append, List.forall_mem_cons] at h
    obtain ⟨⟨name, params⟩, body⟩ := h
    exact (((name.after (by decide)).angled (unmarked_params params)).across (by decide)
      (type.unmarked_render body)).separator (by decide)
  | enum name members =>
    rw [Form.texts, List.forall_mem_cons] at h
    obtain ⟨name, values⟩ := h
    have lines : ∀ m ∈ members, Unmarked m.name ∧ Unmarked m.value := by
      intro m hm
      simpa using fun x hx => values x (List.mem_flatMap.mpr ⟨m, hm, hx⟩)
    exact ((name.after (by decide)).across (by decide) (.join (isLine_enumLines lines))).separator
      (by decide)
  | interface name params base properties =>
    rw [Form.texts, List.forall_mem_append, List.forall_mem_append, List.forall_mem_cons] at h
    obtain ⟨⟨⟨hname, hparams⟩, hbase⟩, body⟩ := h
    have head := (hname.after (s := "export interface ") (by decide)).angled
      (unmarked_params hparams)
    have extended := head.clause " extends " (by decide) hbase
    have whole := extended.across (s := " ") (by decide) (TypeExpr.unmarked_render _ body)
    cases base <;> exact whole
  | verbatim declares text => exact h text (List.mem_singleton_self _)

theorem unmarked_render {d : Declaration} (h : ∀ x ∈ d.texts, Unmarked x) : Unmarked d.render := by
  rw [texts, List.forall_mem_append] at h
  obtain ⟨comment, form⟩ := h
  have body := Form.unmarked_render form
  unfold render
  cases description : d.description with
  | none =>
    show Unmarked ("" ++ d.form.render)
    rwa [String.empty_append]
  | some text =>
    have unmarked : Unmarked (TypeScript.comment text) :=
      comment _ (by rw [description]; exact List.mem_singleton_self _)
    show Unmarked ("" ++ TypeScript.comment text ++ "\n" ++ d.form.render)
    rw [String.empty_append]
    exact unmarked.across (by decide) body

end Declaration

/-- Whatever opens a comment in the text of a document stands in one of the texts that it is written
from. -/
theorem Document.unmarked_render {d : Document}
    (h : ∀ x ∈ d.declarations.flatMap (·.texts), Unmarked x) : Unmarked d.render := by
  have sections : ∀ r ∈ d.sections.map (·.render), Unmarked r := by
    intro r hr
    obtain ⟨s, hs, rfl⟩ := List.mem_map.mp hr
    refine Unmarked.intercalate (by cases s.isCompact <;> decide) ?_
    intro r hr
    obtain ⟨e, he, rfl⟩ := List.mem_map.mp hr
    have declared : e ∈ d.declarations := List.mem_flatMap.mpr ⟨s, hs, he⟩
    exact e.unmarked_render fun x hx => h x (List.mem_flatMap.mpr ⟨e, declared, hx⟩)
  have whole : Unmarked ("\n\n".intercalate (d.sections.map (·.render))) :=
    .intercalate (by decide) sections
  unfold Document.render
  split
  · rwa [String.append_empty]
  · exact whole.separator (by decide)

/-! ## Quiet trees -/

/-- Whether no comment opens in a text of the type expression. -/
def TypeExpr.Quiet (t : TypeExpr) : Prop := ∀ x ∈ t.texts, Unmarked x

/-- Whether no comment opens in a text of the property, its description apart. -/
def Property.Quiet (p : Property TypeExpr) : Prop := Unmarked p.key ∧ p.value.Quiet

def TypeParam.Quiet (p : TypeParam) : Prop := ∀ x ∈ p.texts, Unmarked x

/-- Whether no comment opens in a text of the declaration, its descriptions apart. -/
def Declaration.Quiet (d : Declaration) : Prop := ∀ x ∈ d.withoutDescriptions.texts, Unmarked x

namespace TypeExpr

@[simp] theorem quiet_reference {name : String} {args : List TypeExpr} :
    (TypeExpr.reference name args).Quiet ↔ Unmarked name ∧ ∀ a ∈ args, a.Quiet := by
  simp [Quiet, texts, textsOfTypes_eq, List.mem_flatMap, forall_comm (α := String)]

@[simp] theorem quiet_name {name : String} : (TypeExpr.name name).Quiet ↔ Unmarked name := by
  simp [TypeExpr.name]

@[simp] theorem quiet_index {target : TypeExpr} {key : String} :
    (target.index key).Quiet ↔ Unmarked key ∧ target.Quiet := List.forall_mem_cons

@[simp] theorem quiet_literal {value : String} : (TypeExpr.literal value).Quiet ↔ Unmarked value :=
  List.forall_mem_singleton

@[simp] theorem quiet_quoted {value : String} : (TypeExpr.quoted value).Quiet ↔ Unmarked value :=
  List.forall_mem_singleton

@[simp] theorem quiet_union {members : List TypeExpr} :
    (TypeExpr.union members).Quiet ↔ ∀ m ∈ members, m.Quiet := by
  simp [Quiet, texts, textsOfTypes_eq, List.mem_flatMap, forall_comm (α := String)]

@[simp] theorem quiet_group {inner : TypeExpr} : (TypeExpr.group inner).Quiet ↔ inner.Quiet :=
  Iff.rfl

@[simp] theorem quiet_raw {text : String} : (TypeExpr.raw text).Quiet ↔ Unmarked text :=
  List.forall_mem_singleton

/-- An object type is quiet without its descriptions if its properties are. -/
theorem quiet_object {properties : List (Property TypeExpr)} (h : ∀ p ∈ properties, p.Quiet) :
    (TypeExpr.object (properties.map (·.withoutDescription))).Quiet := by
  intro x hx
  rw [texts, textsOfProperties_eq, List.flatMap_map] at hx
  obtain ⟨p, hp, hx⟩ := List.mem_flatMap.mp hx
  rcases List.mem_cons.mp hx with rfl | hx
  · exact (h p hp).1
  · exact (h p hp).2 x hx

end TypeExpr

namespace Declaration

theorem quiet_typeAlias {name : String} {params : List TypeParam} {type : TypeExpr}
    {description : Option String} (hn : Unmarked name) (hp : ∀ p ∈ params, p.Quiet)
    (ht : type.withoutDescriptions.Quiet) :
    ({ form := .typeAlias name params type, description } : Declaration).Quiet := by
  intro x hx
  change x ∈ name :: params.flatMap (·.texts) ++ type.withoutDescriptions.texts at hx
  rcases List.mem_append.mp hx with hx | hx
  · rcases List.mem_cons.mp hx with rfl | hx
    · exact hn
    · obtain ⟨p, member, hx⟩ := List.mem_flatMap.mp hx
      exact hp p member x hx
  · exact ht x hx

/-- An alias of an object type is quiet if all in it is. -/
theorem quiet_object {name : String} {params : List TypeParam}
    {properties : List (Property TypeExpr)} {description : Option String} (hn : Unmarked name)
    (hp : ∀ p ∈ params, p.Quiet) (h : ∀ p ∈ properties, p.Quiet) :
    ({ form := .typeAlias name params (.object properties), description } : Declaration).Quiet :=
  quiet_typeAlias hn hp (TypeExpr.quiet_object h)

end Declaration

/-- A document of quiet declarations opens no comment but those of its descriptions. -/
theorem Document.unmarked_withoutDescriptions {d : Document} (h : ∀ e ∈ d.declarations, e.Quiet) :
    Unmarked d.withoutDescriptions.render := by
  apply Document.unmarked_render
  intro x hx
  obtain ⟨bare, member, hx⟩ := List.mem_flatMap.mp hx
  obtain ⟨bareSection, there, member⟩ := List.mem_flatMap.mp member
  obtain ⟨s, hs, rfl⟩ := List.mem_map.mp there
  obtain ⟨e, he, rfl⟩ := List.mem_map.mp member
  exact h e (List.mem_flatMap.mpr ⟨s, hs, he⟩) x hx

/-- If a document opens no comment but those of its descriptions, the code in its text is all that
the document without descriptions has in its text. -/
theorem Document.code?_render {d : Document} (unmarked : Unmarked d.withoutDescriptions.render) :
    code? d.render =
      some (d.withoutDescriptions.render.toList.filter fun c => !Text.isBlank c) := by
  obtain ⟨r, outside, same⟩ := d.commented_render.exists_outsideComments? unmarked
  rw [code?, outside, Option.map_some]
  exact congrArg some same

end ResolverTypes.TypeScript
