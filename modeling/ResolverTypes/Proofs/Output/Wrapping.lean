import ResolverTypes.Output.BaseTypes
import ResolverTypes.Output.Contract
import ResolverTypes.Proofs.TypeScript.Printer

/-!
# Wrapped references

The layers of a reference are read off from the outside in, with a note of whether the level at hand
may still be null, and are then put around the innermost type. What comes of it is said here by
recursion on the reference itself: a level is written bare or in the wrapper of values that may be
null, and the element of a list is a level of its own (`TypeRef.wrappedText`).

The base type of a field and the answer of its resolver are wrapped alike. No reference is lost in
the text of an answer, unless a non-null modifier is repeated: the wrappers in front of the name are
the layers, and a reference can be read back from its layers (`TypeRef.ofLayers_layers`).
-/

namespace ResolverTypes

/-! ## References level by level -/

/-- The wrapper that a layer puts around a type. -/
def Layer.wrapper (nullable : String) : Layer → String
  | .nullable => nullable
  | .list => "Array"

namespace TypeRef

/-- A text in the wrapper of values that may be null, if it stands for such a value. -/
def textIf (nullable : Bool) (wrapper text : String) : String :=
  if nullable then wrapper ++ "<" ++ text ++ ">" else text

/-- The text of a reference around `inner`, without what its outermost level being nullable adds. -/
def bareText (wrapper inner : String) : TypeRef → String
  | named _ => inner
  | list t => "Array<" ++ textIf (!t.isNonNull) wrapper (t.bareText wrapper inner) ++ ">"
  | nonNull t => t.bareText wrapper inner

/-- The text of a reference around `inner`: the bare text, in the wrapper of values that may be null
unless the reference excludes null. -/
def wrappedText (wrapper inner : String) (t : TypeRef) : String :=
  textIf (!t.isNonNull) wrapper (t.bareText wrapper inner)

/-- Whether no non-null modifier stands directly around another one. -/
def isReduced : TypeRef → Bool
  | named _ => true
  | list t => t.isReduced
  | nonNull t => !t.isNonNull && t.isReduced

/-- The reference with the given layers around a name, where no two nullable layers follow each
other. -/
def ofLayers (name : String) : List Layer → TypeRef
  | [] => nonNull (named name)
  | .nullable :: .list :: rest => list (ofLayers name rest)
  | .nullable :: _ => named name
  | .list :: rest => nonNull (list (ofLayers name rest))

variable {wrapper inner : String} {t u : TypeRef}

theorem wrappedText_nonNull (t : TypeRef) :
    (nonNull t).wrappedText wrapper inner = t.bareText wrapper inner := rfl

theorem wrappedText_of_nullable (nullable : t.isNonNull = false) :
    t.wrappedText wrapper inner = wrapper ++ "<" ++ t.bareText wrapper inner ++ ">" := by
  rw [wrappedText, nullable]
  rfl

theorem bareText_list (t : TypeRef) :
    (list t).bareText wrapper inner = "Array<" ++ t.wrappedText wrapper inner ++ ">" := rfl

/-- A reference is written in the wrapper of values that may be null exactly if it may be null. -/
theorem wrappedText_eq_iff :
    t.wrappedText wrapper inner = wrapper ++ "<" ++ t.bareText wrapper inner ++ ">" ↔
      t.isNonNull = false := by
  refine ⟨fun same => ?_, wrappedText_of_nullable⟩
  cases excluded : t.isNonNull with
  | false => rfl
  | true =>
    -- a text is shorter than the same text in a wrapper
    have length := congrArg String.length same
    rw [wrappedText, textIf, excluded, if_neg (by decide)] at length
    simp only [String.length_append] at length
    have bracket : "<".length = 1 := rfl
    omega

theorem head?_layers : t.layers.head? = some .nullable ↔ t.isNonNull = false := by
  have bare (t : TypeRef) : (layersFrom false t).head? ≠ some .nullable := by
    induction t with
    | named | list => nofun
    | nonNull t ih => exact ih
  cases t with
  | named | list => exact iff_of_true rfl rfl
  | nonNull t => exact iff_of_false (bare t) nofun

/-- A reference that repeats no non-null modifier is what its layers around its name say. -/
theorem ofLayers_layers (reduced : t.isReduced = true) : ofLayers t.innermost t.layers = t := by
  induction t with
  | named => rfl
  | list t ih =>
    show list (ofLayers t.innermost t.layers) = list t
    rw [ih reduced]
  | nonNull t ih =>
    obtain ⟨apart, reduced⟩ := (Bool.and_eq_true _ _).mp reduced
    cases t with
    | named => rfl
    | list t =>
      have element : ofLayers t.innermost t.layers = t := TypeRef.list.inj (ih reduced)
      show nonNull (list (ofLayers t.innermost t.layers)) = nonNull (list t)
      rw [element]
    | nonNull => cases apart

end TypeRef

namespace Output

open TypeScript

/-! ## What wrapping writes -/

/-- A type inside wrappers, the first one outermost. -/
def nest (wrappers : List String) (inner : TypeExpr) : TypeExpr :=
  wrappers.foldr (fun wrapper t => .reference wrapper [t]) inner

theorem wrap_eq_nest (nullable : String) (layers : List Layer) (inner : TypeExpr) :
    wrap nullable layers inner = nest (layers.map (Layer.wrapper nullable)) inner := by
  induction layers with
  | nil => rfl
  | cons layer rest ih =>
    show wrapLayer nullable layer (wrap nullable rest inner) = _
    rw [ih]
    cases layer <;> rfl

theorem render_wrap_cons (nullable : String) (layer : Layer) (rest : List Layer)
    (inner : TypeExpr) :
    (wrap nullable (layer :: rest) inner).render =
      layer.wrapper nullable ++ "<" ++ (wrap nullable rest inner).render ++ ">" := by
  cases layer <;> exact TypeExpr.render_applied _ _

/-- Layers are written as the reference that they were read off says, level by level. -/
theorem render_wrap (wrapper : String) (inner : TypeExpr) (t : TypeRef) :
    (wrap wrapper t.layers inner).render = t.wrappedText wrapper inner.render ∧
      (wrap wrapper (t.layersFrom false) inner).render = t.bareText wrapper inner.render := by
  -- the note of whether the level may be null tells the two texts apart
  induction t with
  | named => exact ⟨render_wrap_cons wrapper .nullable [] inner, rfl⟩
  | list t ih =>
    have bare : (wrap wrapper (t.list.layersFrom false) inner).render =
        t.list.bareText wrapper inner.render := by
      rw [TypeRef.bareText_list, ← ih.1]
      exact render_wrap_cons wrapper .list t.layers inner
    refine ⟨?_, bare⟩
    rw [TypeRef.wrappedText_of_nullable rfl, ← bare]
    exact render_wrap_cons wrapper .nullable _ inner
  | nonNull t ih =>
    rw [TypeRef.wrappedText_nonNull]
    exact ⟨ih.2, ih.2⟩

/-! ## What an answer tells -/

theorem render_lookup (name : String) :
    ((TypeExpr.name Names.resolversTypes).index name).render =
      "ResolversTypes['" ++ name ++ "']" := by
  have first : Names.resolversTypes ++ "['" = "ResolversTypes['" := rfl
  rw [TypeExpr.render, TypeExpr.render_name, first]

/-- The letter that the text of an answer begins with. -/
def firstLetter : List Layer → Char
  | [] => 'R'
  | .nullable :: _ => 'M'
  | .list :: _ => 'A'

theorem head?_render (layers : List Layer) (name : String) :
    (wrap Names.maybe layers
      ((TypeExpr.name Names.resolversTypes).index name)).render.toList.head? =
        some (firstLetter layers) := by
  cases layers with
  | nil =>
    show ((TypeExpr.name Names.resolversTypes).index name).render.toList.head? = _
    rw [render_lookup, String.toList_append, String.toList_append]
    rfl
  | cons layer rest =>
    rw [render_wrap_cons, String.toList_append, String.toList_append, String.toList_append]
    cases layer <;> rfl

theorem firstLetter_eq {l m : List Layer} {a b : String}
    (same : (wrap Names.maybe l ((TypeExpr.name Names.resolversTypes).index a)).render =
      (wrap Names.maybe m ((TypeExpr.name Names.resolversTypes).index b)).render) :
    firstLetter l = firstLetter m := by
  have heads := congrArg (·.toList.head?) same
  simpa only [head?_render, Option.some.injEq] using heads

/-- The text of an answer has its layers in front of its name. -/
theorem layers_of_render {l m : List Layer} {a b : String}
    (same : (wrap Names.maybe l ((TypeExpr.name Names.resolversTypes).index a)).render =
      (wrap Names.maybe m ((TypeExpr.name Names.resolversTypes).index b)).render) :
    l = m ∧ a = b := by
  induction l generalizing m with
  | nil =>
    have letters := firstLetter_eq same
    cases m with
    | nil =>
      change ((TypeExpr.name Names.resolversTypes).index a).render =
        ((TypeExpr.name Names.resolversTypes).index b).render at same
      rw [render_lookup, render_lookup] at same
      exact ⟨rfl, String.append_right_inj _ |>.mp (String.append_left_inj _ |>.mp same)⟩
    | cons layer rest => cases layer <;> cases letters
  | cons layer rest ih =>
    have letters := firstLetter_eq same
    cases m with
    | nil => cases layer <;> cases letters
    | cons layer' rest' =>
      obtain rfl : layer = layer' := by
        cases layer <;> cases layer' <;> first | rfl | cases letters
      rw [render_wrap_cons, render_wrap_cons] at same
      obtain ⟨rfl, rfl⟩ :=
        ih (String.append_right_inj _ |>.mp (String.append_left_inj _ |>.mp same))
      exact ⟨rfl, rfl⟩

/-- References that repeat no non-null modifier have different answers if they differ. -/
theorem eq_of_render_resultType {t u : TypeRef} (ht : t.isReduced = true)
    (hu : u.isReduced = true) (same : (resultType t).render = (resultType u).render) : t = u := by
  obtain ⟨layers, name⟩ := layers_of_render same
  rw [← TypeRef.ofLayers_layers ht, ← TypeRef.ofLayers_layers hu, layers, name]

/-! ## Fields and their resolvers -/

/-- What a function for a field answers with: the first type argument of its signature. -/
def resultParameter? : TypeExpr → Option TypeExpr
  | .reference "Resolver" (result :: _) => some result
  | .reference "SubscriptionResolver" (result :: _) => some result
  | _ => none

theorem resultParameter?_fieldSignature (t : TypeNode) (f : Field) :
    resultParameter? (fieldSignature t f) = some (resultType f.type) := by
  unfold fieldSignature
  dsimp only
  split <;> rfl

/-- How references are wrapped. The layers of a reference are written, around whatever is innermost,
as the reference says level by level; the outermost level has the wrapper of values that may be null
exactly if the reference does not exclude null. The base type of a field and the answer of its
resolver have the same wrappers around the name that each of them has for the innermost type.
References that repeat no non-null modifier are equal if the texts of their answers are. -/
theorem references_wrapped (t : TypeRef) :
    (∀ (wrapper : String) (inner : TypeExpr),
      (wrap wrapper t.layers inner).render = t.wrappedText wrapper inner.render ∧
      ((wrap wrapper t.layers inner).render =
        wrapper ++ "<" ++ t.bareText wrapper inner.render ++ ">" ↔ t.isNonNull = false)) ∧
    (∀ (g : TypeGraph) (owner : TypeNode) (f : Field), f.type = t → ∃ wrappers,
      (fieldProperty g f).value = nest wrappers (namedShape g .output t.innermost) ∧
      resultParameter? (fieldSignature owner f) =
        some (nest wrappers ((TypeExpr.name Names.resolversTypes).index t.innermost)) ∧
      (wrappers.head? = some Names.maybe ↔ t.isNonNull = false)) ∧
    ∀ u : TypeRef, t.isReduced = true → u.isReduced = true →
      (resultType t).render = (resultType u).render → t = u := by
  refine ⟨fun wrapper inner => ?_, ?_, fun u => eq_of_render_resultType⟩
  · have text := (render_wrap wrapper inner t).1
    refine ⟨text, ?_⟩
    rw [text]
    exact TypeRef.wrappedText_eq_iff
  · rintro g owner f rfl
    refine ⟨f.type.layers.map (Layer.wrapper Names.maybe), wrap_eq_nest _ _ _, ?_, ?_⟩
    · rw [resultParameter?_fieldSignature, resultType, wrap_eq_nest]
    · rw [← TypeRef.head?_layers, List.head?_map]
      -- no other layer has the wrapper of values that may be null
      cases f.type.layers.head? with
      | none => simp
      | some layer => cases layer <;> decide

/-- A list that may be null inside one that may not, and the text that a repeated modifier shares
with the one that it repeats. -/
theorem references_wrapped_example :
    let post : TypeRef := .named "Post"
    let t : TypeRef := .nonNull (.list (.list (.nonNull post)))
    t.isReduced = true ∧
    (wrap "W" t.layers (.raw "s")).render = "Array<W<Array<s>>>" ∧
    (resultType t).render = "Array<Maybe<Array<ResolversTypes['Post']>>>" ∧
    (∀ g owner, ∃ wrappers, (fieldProperty g ⟨"posts", t, none, []⟩).value =
        nest wrappers (namedShape g .output "Post") ∧
      resultParameter? (fieldSignature owner ⟨"posts", t, none, []⟩) =
        some (nest wrappers ((TypeExpr.name Names.resolversTypes).index "Post")) ∧
      wrappers.head? ≠ some Names.maybe) ∧
    (∀ u : TypeRef, u.isReduced = true →
      (resultType u).render = "Array<Maybe<Array<ResolversTypes['Post']>>>" → t = u) ∧
    (resultType (.nonNull (.nonNull post))).render = (resultType (.nonNull post)).render := by
  intro post t
  obtain ⟨texts, fields, injective⟩ := references_wrapped t
  have answer : (resultType t).render = "Array<Maybe<Array<ResolversTypes['Post']>>>" := by
    rw [resultType, (texts _ _).1, render_lookup]
    rfl
  refine ⟨rfl, ?_, answer, ?_, ?_, rfl⟩
  · rw [(texts _ _).1]
    rfl
  · intro g owner
    obtain ⟨wrappers, base, answered, outermost⟩ := fields g owner ⟨"posts", t, none, []⟩ rfl
    exact ⟨wrappers, base, answered, fun nullable => by cases outermost.mp nullable⟩
  · intro u reduced same
    exact injective u rfl reduced (answer.trans same.symm)

end Output

end ResolverTypes
