import ResolverTypes.Proofs.Sdl.Reading

/-!
# Documents that define types and nothing else

A document in which every type is defined once, without extensions or root types, describes exactly
the types that its drafts define, in their order (`ofDocument_of_drafts`).

The least of these has one field, and shows that a type reference can be had back from its text: it
is the type of that field (`reference_of_text`), so different references have different texts.
-/

namespace ResolverTypes.Sdl

open ResolverTypes.Parser

/-! ## Definitions of types -/

theorem bases_types (types : List TypeDef) : bases (types.map (.type false)) = types := by
  induction types with
  | nil => rfl
  | cons d rest ih => exact congrArg (d :: ·) ih

theorem extensions_types (types : List TypeDef) : extensions (types.map (.type false)) = [] := by
  induction types with
  | nil => rfl
  | cons d rest ih => exact ih

theorem lastRoot_types (types : List TypeDef) (op : Operation) :
    lastRoot (types.map (.type false)) op = none := by
  have none : (types.map (Definition.type false)).filterMap (fun d => d.roots?.bind (·.get? op)) =
      [] := by
    rw [List.filterMap_eq_nil_iff]
    intro d hd
    obtain ⟨_, _, rfl⟩ := List.mem_map.mp hd
    rfl
  rw [lastRoot, none]
  rfl

theorem assignedRoots_types (types : List TypeDef) :
    assignedRoots (types.map (.type false)) = {} := by
  simp [assignedRoots, lastRoot_types]

theorem repetitionsAfter_types (earlier rest : List TypeDef)
    (nodup : ((earlier ++ rest).map (·.name)).Nodup) :
    repetitionsAfter (earlier.map (.type false)) (rest.map (.type false)) = [] := by
  induction rest generalizing earlier with
  | nil => rfl
  | cons d rest ih =>
    have fresh : d.name ∉ earlier.map (·.name) := by
      intro taken
      rw [List.map_append, List.nodup_append] at nodup
      exact nodup.2.2 _ taken _ List.mem_cons_self rfl
    have later := ih (earlier ++ [d]) (by rwa [List.append_assoc, List.singleton_append])
    rw [List.map_append] at later
    rw [List.map_cons, repetitionsAfter, repetition?, bases_types, if_neg fresh]
    exact later

theorem ofDefinitions_types {types : List TypeDef} (nodup : (types.map (·.name)).Nodup) :
    Schema.ofDefinitions (types.map (.type false)) = .ok (.ofTypes types {}) := by
  have once : repetitions (types.map (.type false)) = [] := repetitionsAfter_types [] types nodup
  have sound : extensionFaults (types.map (.type false)) = [] := by
    rw [extensionFaults, extensions_types]
    rfl
  have described : describedTypes (types.map (.type false)) = types := by
    rw [describedTypes, bases_types, extensions_types]
    simp [extendedTypes]
  rw [Schema.ofDefinitions_eq, once, sound, described, assignedRoots_types]

/-- What a document describes whose drafts define the types, each once. -/
theorem ofDocument_of_drafts {text : String} {drafts : List Draft} {types : List TypeDef}
    (parsed : document.parse? text = some drafts)
    (checked : List.Forall₂ (fun draft d => Draft.check draft = .ok (.type false d)) drafts types)
    (nodup : (types.map (·.name)).Nodup) :
    Schema.ofDocument text = .ok (.ofTypes types {}) := by
  have made : drafts.mapM Draft.check = .ok (types.map (.type false)) := by
    clear parsed nodup
    induction checked with
    | nil => rfl
    | cons first _ ih =>
      rw [List.mapM_cons, first, ih]
      rfl
  have read : definitions text = .ok (types.map (.type false)) := by
    delta definitions
    rw [parsed]
    exact made
  rw [Schema.ofDocument_eq read, ofDefinitions_types nodup]

/-! ## A type reference in a document -/

/-- The document with one field, whose type is the reference. -/
def referenceDocument (t : TypeRef) : String := "type Query \x7b f: " ++ t.text ++ " \x7d"

/-- The definition of the type with that field. -/
def referenceHolder (t : TypeRef) : TypeDef := ⟨"Query", none, .object [] [⟨"f", t, none, []⟩]⟩

theorem isName_query : IsName "Query" := isName_of_toList rfl rfl

theorem isName_f : IsName "f" := isName_of_toList rfl rfl

theorem parse?_referenceDocument {t : TypeRef} (written : IsWritten t) :
    document.parse? (referenceDocument t) =
      some [{ content := .type false (referenceHolder t) }] := by
  have field := readsItem_field_bare (g := [' ']) (l := []) (c := ' ') isName_f written
    (by decide) (by decide) (by decide)
  have fields := reads_fieldList (.cons field .nil) (List.cons_ne_nil _ _)
  have holder := readsItem_object isName_query fields isGap_nil
  have begins : "type Query \x7b f: ".toList =
      "type".toList ++ ' ' :: "Query".toList ++ [' ', '{', ' '] ++ "f".toList ++ [':', ' '] := by
    decide
  refine parse?_document ?_ holder .nil
  show ("type Query \x7b f: " ++ t.text ++ " \x7d").toList = _
  simp [objectText, begins]

/-- A type reference can be had back from its text. In a document where the text stands as the type
of a field, the field has exactly this type, however deep the reference is; and no other reference
has the same text. -/
theorem reference_of_text {t : TypeRef} (written : IsWritten t) :
    (∃ s, Schema.ofDocument ("type Query \x7b f: " ++ t.text ++ " \x7d") = .ok s ∧
      s.types = [⟨"Query", none, .object [] [⟨"f", t, none, []⟩]⟩] ∧
      ∃ query, s.find? "Query" = some query ∧
        ∃ f, query.fields.find? (·.name = "f") = some f ∧ f.type = t) ∧
    ∀ u, IsWritten u → u.text = t.text → u = t := by
  have described {t : TypeRef} (written : IsWritten t) :
      Schema.ofDocument (referenceDocument t) = .ok (.ofTypes [referenceHolder t] {}) :=
    ofDocument_of_drafts (parse?_referenceDocument written) (.cons rfl .nil) (by simp)
  constructor
  · exact ⟨_, described written, rfl, referenceHolder t, rfl, _, rfl, rfl⟩
  · intro u written' same
    have document : referenceDocument u = referenceDocument t :=
      congrArg (fun text => "type Query \x7b f: " ++ text ++ " \x7d") same
    have both := described written'
    rw [document, described written] at both
    have types : [referenceHolder t] = [referenceHolder u] :=
      congrArg Schema.types (Except.ok.inj both)
    simpa [referenceHolder] using types.symm

/-- A reference with marks and lists inside lists. -/
theorem reference_of_text_example :
    let t : TypeRef := .nonNull (.list (.list (.nonNull (.list (.named "_0")))))
    t.text = "[[[_0]!]]!" ∧
    ∃ s, Schema.ofDocument ("type Query \x7b f: " ++ t.text ++ " \x7d") = .ok s ∧
      s.types = [⟨"Query", none, .object [] [⟨"f", t, none, []⟩]⟩] := by
  intro t
  have named : IsWritten (.named "_0") := .named (isName_of_toList rfl rfl)
  have written : IsWritten t := named.list.required.list.list.required
  obtain ⟨⟨s, described, types, -⟩, -⟩ := reference_of_text written
  exact ⟨rfl, s, described, types⟩

end ResolverTypes.Sdl
