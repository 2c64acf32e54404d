import ResolverTypes.Proofs.TypeScript.References

/-!
# The keys of object types

The bodies of a type expression are the object types in its tree, each as the list of its keys in
the order in which they are written. A declaration has those of its head and of its body, and the
properties of an interface are a body as well. Declarations that are taken over as they are given
have the bodies in their texts. Types that are taken over have none: their texts come from the
configuration, and the generator does not look into them.
-/

namespace ResolverTypes.TypeScript

/-! ## Bodies of type expressions -/

mutual

/-- The keys of every object type in a type expression. -/
def TypeExpr.bodies : TypeExpr → List (List String)
  | .reference _ args => bodiesOfTypes args
  | .index target _ => target.bodies
  | .literal _ => []
  | .quoted _ => []
  | .union members => bodiesOfTypes members
  | .group inner => inner.bodies
  | .object properties => properties.map (·.key) :: bodiesOfProperties properties
  | .inlineObject properties => properties.map Prod.fst :: bodiesOfInline properties
  | .raw _ => []

/-- The keys of every object type in several type expressions. -/
def bodiesOfTypes : List TypeExpr → List (List String)
  | [] => []
  | t :: rest => t.bodies ++ bodiesOfTypes rest

/-- The keys of every object type in the properties of another. -/
def bodiesOfProperties : List (Property TypeExpr) → List (List String)
  | [] => []
  | ⟨_, value, _, _⟩ :: rest => value.bodies ++ bodiesOfProperties rest

/-- The keys of every object type in the properties of another on a single line. -/
def bodiesOfInline : List (String × TypeExpr) → List (List String)
  | [] => []
  | (_, value) :: rest => value.bodies ++ bodiesOfInline rest

end

theorem bodiesOfTypes_eq (l : List TypeExpr) : bodiesOfTypes l = l.flatMap (·.bodies) := by
  induction l with
  | nil => rfl
  | cons t rest ih =>
    show t.bodies ++ bodiesOfTypes rest = _
    rw [ih, List.flatMap_cons]

theorem bodiesOfProperties_eq (l : List (Property TypeExpr)) :
    bodiesOfProperties l = l.flatMap (·.value.bodies) := by
  induction l with
  | nil => rfl
  | cons p rest ih =>
    show p.value.bodies ++ bodiesOfProperties rest = _
    rw [ih, List.flatMap_cons]

namespace TypeExpr

@[simp] theorem bodies_reference (name : String) (args : List TypeExpr) :
    (TypeExpr.reference name args).bodies = args.flatMap (·.bodies) := bodiesOfTypes_eq args

@[simp] theorem bodies_name (name : String) : (TypeExpr.name name).bodies = [] := rfl

@[simp] theorem bodies_index (target : TypeExpr) (key : String) :
    (target.index key).bodies = target.bodies := rfl

@[simp] theorem bodies_literal (value : String) : (TypeExpr.literal value).bodies = [] := rfl

@[simp] theorem bodies_quoted (value : String) : (TypeExpr.quoted value).bodies = [] := rfl

@[simp] theorem bodies_union (members : List TypeExpr) :
    (TypeExpr.union members).bodies = members.flatMap (·.bodies) := bodiesOfTypes_eq members

@[simp] theorem bodies_group (inner : TypeExpr) : (TypeExpr.group inner).bodies = inner.bodies :=
  rfl

@[simp] theorem bodies_object (properties : List (Property TypeExpr)) :
    (TypeExpr.object properties).bodies =
      properties.map (·.key) :: properties.flatMap (·.value.bodies) := by
  rw [bodies, bodiesOfProperties_eq]

/-- An object type without others in it is one body. -/
theorem bodies_flat {properties : List (Property TypeExpr)}
    (flat : ∀ p ∈ properties, p.value.bodies = []) :
    (TypeExpr.object properties).bodies = [properties.map (·.key)] := by
  rw [bodies_object, List.flatMap_eq_nil_iff.mpr flat]

@[simp] theorem bodies_raw (text : String) : (TypeExpr.raw text).bodies = [] := rfl

end TypeExpr

/-! ## Bodies in texts -/

/-- What a reader of a text knows at some place in it: the brackets that are open there, with the
keys so far for those of an object type, the word that ends there, and the bodies before. -/
structure KeyReader where
  opened : List (Option (List String)) := []
  word : List Char := []
  bodies : List (List String) := []

namespace KeyReader

/-- The reader after a character. A key is a word with a colon behind it, perhaps a question mark in
between, that is in the braces and in no other brackets within them. -/
def step (r : KeyReader) (ch : Char) : KeyReader :=
  match ch, r.opened with
  | '\x7b', opened => { r with opened := some [] :: opened, word := [] }
  | '(', opened | '[', opened => { r with opened := none :: opened, word := [] }
  | '\x7d', some keys :: opened => { opened, bodies := r.bodies ++ [keys] }
  | ')', none :: opened | ']', none :: opened => { r with opened, word := [] }
  | ':', some keys :: opened =>
    if r.word.isEmpty then r
    else { r with opened := some (keys ++ [String.ofList r.word]) :: opened, word := [] }
  | '?', _ => r
  | ch, _ => { r with word := if ch.isAlphanum then r.word ++ [ch] else [] }

/-- The reader after a text. -/
def run (r : KeyReader) (text : String) : KeyReader := text.toList.foldl step r

theorem run_append (r : KeyReader) (first second : String) :
    r.run (first ++ second) = (r.run first).run second := by
  rw [run, String.toList_append, List.foldl_append]
  rfl

/-- Over the characters of a literal the reader can be run without decoding it. -/
theorem run_ofList (r : KeyReader) (chars : List Char) :
    r.run (String.ofList chars) = chars.foldl step r := by
  rw [run, String.toList_ofList]

end KeyReader

/-- The keys of every object type in a text, those of an outer one behind those of the ones in
it. -/
def bodiesInText (text : String) : List (List String) := (KeyReader.run {} text).bodies

example : bodiesInText "\x7b a: \x7b b?: T, c: U \x7d, [k in K]: (d: T) => U \x7d" =
    [["b", "c"], ["a"]] := by
  decide +kernel

/-! ## Bodies of declarations -/

namespace Declaration

/-- The keys of every object type in a declaration, and those of an interface. -/
def bodies (d : Declaration) : List (List String) :=
  d.headTypes.flatMap (·.bodies) ++
    match d.form with
    | .typeAlias _ _ type => type.bodies
    | .interface _ _ _ properties => (TypeExpr.object properties).bodies
    | .verbatim _ text => bodiesInText text
    | .imports .. | .enum .. => []

/-- An alias without parameters has the bodies of its type. -/
@[simp] theorem bodies_typeAlias (name : String) (type : TypeExpr) (description : Option String) :
    (typeAlias name type description).bodies = type.bodies := rfl

end Declaration

end ResolverTypes.TypeScript
