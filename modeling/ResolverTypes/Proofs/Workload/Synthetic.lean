import ResolverTypes.Proofs.Output.UnionVariants
import ResolverTypes.Proofs.Sdl.TypeReferences
import ResolverTypes.Proofs.Workload.Types

/-!
# Documents of synthetic schemas

The document of a synthetic schema is read line by line. It describes the types that it is made to
define if the query type has a field at least (`described`); otherwise there are empty braces in it,
which the grammar does not allow (`malformed`). So a module is generated from it exactly if it has
an object (`synthetic_generated`).

Counting round means dividing by the number of objects. That no division is by zero is said of a
text whose divisions fail if they are (`text?`).
-/

namespace ResolverTypes.Workload.Synthetic

open Sdl ResolverTypes.Parser

variable {w : Synthetic}

/-! ## Lines -/

theorem isName_object : IsName "object" := isName_of_toList rfl rfl

theorem isName_objectType : IsName "Object" := isName_of_toList rfl rfl

theorem isName_unionType : IsName "Union" := isName_of_toList rfl rfl

theorem isName_field : IsName "field" := isName_of_toList rfl rfl

theorem isName_id : IsName "id" := isName_of_toList rfl rfl

theorem isName_limit : IsName "limit" := isName_of_toList rfl rfl

theorem isWritten_id : IsWritten (.nonNull (.named "ID")) :=
  IsWritten.required (.named (isName_of_toList rfl rfl))

theorem isWritten_object (i : Nat) : IsWritten (.named (numbered "Object" i)) :=
  .named (isName_numbered isName_objectType i)

theorem isWritten_fieldReference (w : Synthetic) (i f : Nat) :
    IsWritten (w.fieldReference i f) := by
  unfold fieldReference
  split
  · exact .named (isName_of_toList rfl rfl)
  · exact IsWritten.required (.named (isName_of_toList rfl rfl))
  · exact .list (IsWritten.required (.named (isName_of_toList rfl rfl)))
  · exact isWritten_object _

theorem constant_ten (rest : List Char) :
    constant ("10".toList ++ ')' :: rest) = some ([⟨10, 0⟩], ')' :: rest) := rfl

theorem reads_defaultValue_ten (rest : List Char) :
    Reads defaultValue " = 10".toList [⟨10, 0⟩] (')' :: rest) := by
  have ten : Reads constant "10".toList [⟨10, 0⟩] (')' :: rest) := constant_ten rest
  refine Reads.gap_append (g := [' ']) ?_ (by decide)
  refine (reads_mark (c := '=') (by decide) _).bind ?_
  exact ten.gap_append (g := [' ']) (by decide)

theorem begins_inputValue : inputValue.Begins fun c => c = '"' ∨ isNameStart c = true :=
  begins_string.optional_bind begins_name.bind

/-- The text of the first argument of the field for an object, with the gap behind it. -/
def idText : List Char := ['i', 'd', ':', ' ', 'I', 'D', '!', ',', ' ']

/-- The text of the second argument of the field for an object. -/
def limitText : List Char :=
  ['l', 'i', 'm', 'i', 't', ':', ' ', 'I', 'n', 't', ' ', '=', ' ', '1', '0']

theorem reads_idText (rest : List Char) :
    Reads inputValue idText ({ name := "id", type := .nonNull (.named "ID") }, [])
      ('l' :: rest) := by
  have letters : idText = "id".toList ++ (':' :: ' ' :: ("ID!".toList ++ [])) ++ [',', ' '] := rfl
  have name : next ([',', ' '] ++ 'l' :: rest) = some 'l' := rfl
  rw [letters]
  refine Reads.append_gap (g := [',', ' ']) ?_ (by decide)
  have absent : Reads (optional defaultValue) [] none ([',', ' '] ++ 'l' :: rest) := by
    refine reads_absent (begins_mark '=').bind ?_
    rw [name]
    rintro c ⟨⟩
    decide
  refine reads_inputValue isName_id isWritten_id absent (forall_head? (by decide) _) ?_
  rw [name]
  decide

theorem reads_limitText (rest : List Char) :
    Reads inputValue limitText
      ({ name := "limit", type := .named "Int", hasDefault := true }, [⟨10, 0⟩])
      (')' :: rest) := by
  have letters : limitText =
      "limit".toList ++ (':' :: ' ' :: ("Int".toList ++ " = 10".toList)) := rfl
  have written : IsWritten (.named "Int") := .named (isName_of_toList rfl rfl)
  have closing : next (')' :: rest) = some ')' := rfl
  rw [letters]
  refine reads_inputValue isName_limit written (reads_defaultValue_ten rest).optional ?_ ?_
  · exact forall_head? (by decide) _
  · rw [closing]
    decide

/-- The arguments of the field for an object, the second of which has a default value. -/
theorem reads_arguments (i : Nat) (rest : List Char) :
    Reads argumentsDefinition "(id: ID!, limit: Int = 10)".toList
      ((objectField i).args, [⟨10, 0⟩]) rest := by
  have letters : "(id: ID!, limit: Int = 10)".toList =
      ['('] ++ (idText ++ (limitText ++ []) ++ [')']) := rfl
  have closed : inputValue (skipFrom false (')' :: rest)) = none := by
    refine fails_of_next begins_inputValue ?_
    rintro c ⟨⟩
    decide
  have limits := (reads_limitText rest).many_cons (u := [])
    (advances_solid (g := []) (by decide) (by decide) _) (reads_many_nil closed)
  have both : Reads (many1 inputValue) (idText ++ (limitText ++ [])) [_, _] (')' :: rest) :=
    (reads_idText _).bind limits.map
  rw [letters]
  refine (reads_mark (c := '(') (by decide) _).bind ?_
  exact both.bind (reads_mark (c := ')') (by decide) _).map

/-- The line for the field of the query type for an object. -/
def objectLine (i : Nat) : String := s!"  object{i}(id: ID!, limit: Int = 10): Object{i}\n"

/-- The line for the field of the query type for a union. -/
def unionLine (i : Nat) : String := s!"  union{i}: Union{i}!\n"

/-- The line for the field with index `f` of the object with index `i`. -/
def fieldLine (w : Synthetic) (i f : Nat) : String := s!"  field{f}: " ++ w.fieldType i f ++ "\n"

theorem readsItem_objectLine (i : Nat) :
    ReadsItem (skipFrom false) field FieldNext (objectLine i).toList
      (objectField i, [⟨10, 0⟩]) := by
  have letters : (objectLine i).toList =
      [' ', ' '] ++ ((numbered "object" i).toList ++ ("(id: ID!, limit: Int = 10)".toList ++
        (':' :: ' ' :: (TypeRef.named (numbered "Object" i)).text.toList)) ++ ['\n']) := by
    show ("  object" ++ i.repr ++ "(id: ID!, limit: Int = 10): Object" ++ i.repr ++ "\n").toList = _
    simp [toList_numbered, TypeRef.text]
  have isName := isName_numbered isName_object i
  rw [letters]
  refine readsItem_named (by decide) (by decide) isName rfl (fun _ => .inl) ?_
  intro rest follows
  refine reads_field isName (isWritten_object i) _ (some ((objectField i).args, [⟨10, 0⟩]))
    (reads_arguments i _).optional (forall_head? (by decide) []) (forall_head? (by decide) _) ?_
  rw [next_gap (by decide)]
  exact follows.undirected

theorem readsItem_unionLine (i : Nat) :
    ReadsItem (skipFrom false) field FieldNext (unionLine i).toList (unionField i, []) := by
  have letters : (unionLine i).toList =
      [' ', ' '] ++ ((numbered "union" i).toList ++
        (':' :: ' ' :: (TypeRef.nonNull (.named (numbered "Union" i))).text.toList) ++ ['\n']) := by
    show ("  union" ++ i.repr ++ ": Union" ++ i.repr ++ "!\n").toList = _
    simp [toList_numbered, TypeRef.text]
  have written := IsWritten.required (.named (isName_numbered isName_unionType i))
  rw [letters]
  exact readsItem_field_bare (isName_numbered isName_union i) written (by decide) (by decide)
    (by decide)

theorem readsItem_fieldLine (w : Synthetic) (i f : Nat) :
    ReadsItem (skipFrom false) field FieldNext (w.fieldLine i f).toList
      ({ name := numbered "field" f, type := w.fieldReference i f }, []) := by
  have letters : (w.fieldLine i f).toList =
      [' ', ' '] ++ ((numbered "field" f).toList ++
        (':' :: ' ' :: (w.fieldReference i f).text.toList) ++ ['\n']) := by
    show ("  field" ++ f.repr ++ ": " ++ w.fieldType i f ++ "\n").toList = _
    simp [toList_numbered, fieldType_eq]
  rw [letters]
  exact readsItem_field_bare (isName_numbered isName_field f) (isWritten_fieldReference w i f)
    (by decide) (by decide) (by decide)

theorem readsItem_idLine :
    ReadsItem (skipFrom false) field FieldNext "\n  id: ID!\n".toList
      ({ name := "id", type := .nonNull (.named "ID") }, []) := by
  have letters : "\n  id: ID!\n".toList = ['\n', ' ', ' '] ++ ("id".toList ++
      (':' :: ' ' :: (TypeRef.nonNull (.named "ID")).text.toList) ++ ['\n']) := rfl
  rw [letters]
  exact readsItem_field_bare isName_id isWritten_id (by decide) (by decide) (by decide)

/-! ## Definitions -/

theorem forall₂_map {α β γ : Type} {R : β → γ → Prop} {f : α → β} {g : α → γ} (l : List α)
    (holds : ∀ a ∈ l, R (f a) (g a)) : List.Forall₂ R (l.map f) (l.map g) := by
  rw [List.forall₂_map_left_iff, List.forall₂_map_right_iff, List.forall₂_same]
  exact holds

theorem toList_join_map {α : Type} (text : α → String) (l : List α) :
    (String.join (l.map text)).toList = (l.map fun a => (text a).toList).flatten := by
  rw [String.toList_join, List.flatMap_map, List.flatMap_def]

theorem readsItem_objectText (w : Synthetic) (i : Nat) :
    ReadsItem (skipFrom false) definition DefinitionNext (w.objectText i).toList
      { content := .type false (w.objectType i) } := by
  let lines := "\n  id: ID!\n".toList :: (List.range w.fields).map fun f => (w.fieldLine i f).toList
  have letters : (w.objectText i).toList =
      Sdl.objectText (numbered "Object" i) lines.flatten ++ ['\n', '\n'] := by
    show ("type Object" ++ i.repr ++ " " ++ "\x7b\n  id: ID!\n" ++
      String.join ((List.range w.fields).map (w.fieldLine i)) ++ "\x7d\n\n").toList = _
    simp [Sdl.objectText, lines, toList_numbered, toList_join_map, -String.toList_join]
  have items : List.Forall₂ (ReadsItem (skipFrom false) field FieldNext) lines
      ((w.objectFields i).map fun f => (f, [])) := by
    refine .cons readsItem_idLine ?_
    rw [List.map_map]
    exact forall₂_map _ fun f _ => readsItem_fieldLine w i f
  have fields := reads_fieldList items (List.cons_ne_nil _ _)
  have item := readsItem_object (isName_numbered isName_objectType i) (g := ['\n', '\n']) fields
    (by decide)
  have described : ((w.objectFields i).map fun f => (f, ([] : List Decimal))).map Prod.fst =
      w.objectFields i := by simp [Function.comp_def]
  have numberless : ((w.objectFields i).map fun f => (f, ([] : List Decimal))).flatMap Prod.snd =
      [] := by simp
  rw [described, numberless] at item
  rw [letters]
  exact item

theorem readsItem_unionText (w : Synthetic) (i : Nat) :
    ReadsItem (skipFrom false) definition DefinitionNext (w.unionText i).toList
      { content := .type false (w.unionType i) } := by
  have letters : (w.unionText i).toList =
      Sdl.unionText (numbered "Union" i) (numbered "Object" (i % w.objects))
        [numbered "Object" ((i + 1) % w.objects)] ++ '\n' :: ['\n'] := by
    show ("union Union" ++ i.repr ++ " = Object" ++ (i % w.objects).repr ++ " | Object" ++
      ((i + 1) % w.objects).repr ++ "\n\n").toList = _
    simp [Sdl.unionText, memberText, toList_numbered]
  have isName (i : Nat) := isName_numbered isName_objectType i
  rw [letters]
  exact readsItem_union (isName_numbered isName_unionType i) (isName _)
    (List.forall_mem_singleton.mpr (isName _)) (by decide) (by decide)

/-- The query type, which has to have a field. -/
theorem readsItem_queryText (some : 0 < w.objects + w.unions) :
    ∃ numbers : List Decimal, (∀ d ∈ numbers, d = ⟨10, 0⟩) ∧
      ReadsItem (skipFrom false) definition DefinitionNext w.queryText.toList
        { content := .type false w.queryType, numbers } := by
  let parts := (List.range w.objects).map (fun i => (objectField i, [(⟨10, 0⟩ : Decimal)])) ++
    (List.range w.unions).map fun i => (unionField i, [])
  let lines := (List.range w.objects).map (fun i => (objectLine i).toList) ++
    (List.range w.unions).map fun i => (unionLine i).toList
  have letters : w.queryText.toList =
      Sdl.objectText "Query" (['\n'] ++ lines.flatten) ++ ['\n', '\n'] := by
    show ("type Query \x7b\n" ++ String.join ((List.range w.objects).map objectLine) ++
      String.join ((List.range w.unions).map unionLine) ++ "\x7d\n\n").toList = _
    simp [Sdl.objectText, lines, toList_join_map, -String.toList_join]
  have items : List.Forall₂ (ReadsItem (skipFrom false) field FieldNext) lines parts :=
    List.rel_append (forall₂_map _ fun i _ => readsItem_objectLine i)
      (forall₂_map _ fun i _ => readsItem_unionLine i)
  have line : lines ≠ [] := by
    refine List.ne_nil_of_length_pos ?_
    simpa [lines] using some
  have fields (rest : List Char) :=
    (reads_fieldList items line rest).gap_append (g := ['\n']) (by decide)
  have item := readsItem_object isName_query (g := ['\n', '\n']) fields (by decide)
  have described : parts.map Prod.fst = w.queryFields := by
    simp [parts, queryFields, Function.comp_def]
  rw [described] at item
  rw [letters]
  refine ⟨parts.flatMap Prod.snd, ?_, item⟩
  simp [parts, List.flatMap_append, List.flatMap_map]

/-! ## The document -/

/-- The document describes the types that it is made to define, if the query type has a field. -/
theorem described (some : 0 < w.objects + w.unions) : Schema.ofDocument w.text = .ok w.schema := by
  obtain ⟨numbers, ten, query⟩ := readsItem_queryText some
  let unions := if w.objects = 0 then [] else List.range w.unions
  have letters : w.text.toList = w.queryText.toList ++
      ((List.range w.objects).map (fun i => (w.objectText i).toList) ++
        unions.map fun i => (w.unionText i).toList).flatten := by
    have choice : (if w.objects = 0 then "" else
        String.join ((List.range w.unions).map w.unionText)).toList =
          (unions.map fun i => (w.unionText i).toList).flatten := by
      simp only [unions]
      split
      · rfl
      · exact toList_join_map _ _
    rw [text, String.toList_append, String.toList_append, toList_join_map, choice,
      List.append_assoc, List.flatten_append]
  have definitions : w.unionTypes = unions.map w.unionType := by
    simp only [unionTypes, unions]
    split <;> rfl
  have items := List.rel_append (forall₂_map (List.range w.objects) fun i _ =>
    readsItem_objectText w i) (forall₂_map unions fun i _ => readsItem_unionText w i)
  refine ofDocument_of_drafts (parse?_document letters query items) (.cons ?_ ?_) nodup_types
  · have finite : numbers.all (·.isFinite) = true := by
      rw [List.all_eq_true]
      intro d hd
      rw [ten d hd]
      decide +kernel
    rw [Draft.check, if_pos finite]
  · rw [definitions]
    exact List.rel_append (R := fun (draft : Draft) d => draft.check = .ok (.type false d))
      (forall₂_map _ fun _ _ => rfl) (forall₂_map _ fun _ _ => rfl)

theorem malformed (none : w.objects + w.unions = 0) :
    Schema.ofDocument w.text = .error .malformed := by
  obtain ⟨objects, fields, unions⟩ := w
  obtain ⟨rfl, rfl⟩ : objects = 0 ∧ unions = 0 := by simpa using none
  have empty : document.parse? "type Query \x7b\n\x7d\n\n" = Option.none := by decide +kernel
  show Schema.ofDocument "type Query \x7b\n\x7d\n\n" = _
  rw [Schema.ofDocument, definitions, empty]
  rfl

/-! ## Counting round -/

/-- The remainder of a division. There is none by zero. -/
def remainder? (a b : Nat) : Option Nat := if b = 0 then none else some (a % b)

/-- The type of a field, if all divisions for it are possible. -/
def fieldType? (w : Synthetic) (i f : Nat) : Option String := do
  match ← remainder? f 4 with
  | 0 => return "String"
  | 1 => return "Int!"
  | 2 => return "[Float!]"
  | _ => return s!"Object{← remainder? (i + 1) w.objects}"

/-- An object type, if all divisions for it are possible. -/
def objectText? (w : Synthetic) (i : Nat) : Option String := do
  let lines ← (List.range w.fields).mapM fun f => do
    return s!"  field{f}: " ++ (← w.fieldType? i f) ++ "\n"
  return s!"type Object{i} " ++ "\x7b\n  id: ID!\n" ++ String.join lines ++ "\x7d\n\n"

/-- A union, if all divisions for it are possible. -/
def unionText? (w : Synthetic) (i : Nat) : Option String := do
  let first ← remainder? i w.objects
  let second ← remainder? (i + 1) w.objects
  return s!"union Union{i} = Object{first} | Object{second}\n\n"

/-- The unions, of which there are none without objects, if all divisions for them are possible. -/
def unionTexts? (w : Synthetic) : Option String :=
  if w.objects = 0 then some ""
  else ((List.range w.unions).mapM w.unionText?).map String.join

/-- The document, if all divisions for it are possible. -/
def text? (w : Synthetic) : Option String := do
  let objects ← (List.range w.objects).mapM w.objectText?
  return w.queryText ++ String.join objects ++ (← w.unionTexts?)

theorem remainder?_of_pos {b : Nat} (pos : 0 < b) (a : Nat) : remainder? a b = some (a % b) :=
  if_neg (by omega)

theorem mapM_of_forall_some {α β : Type} {f : α → Option β} {g : α → β} {l : List α}
    (some : ∀ a ∈ l, f a = Option.some (g a)) : l.mapM f = Option.some (l.map g) := by
  induction l with
  | nil => rfl
  | cons a l ih =>
    obtain ⟨first, rest⟩ := List.forall_mem_cons.mp some
    rw [List.mapM_cons, first, ih rest]
    rfl

theorem fieldType?_eq (some : 0 < w.objects) (i f : Nat) :
    w.fieldType? i f = Option.some (w.fieldType i f) := by
  unfold fieldType? fieldType
  rw [remainder?_of_pos (by decide), remainder?_of_pos some]
  generalize f % 4 = r
  match r with
  | 0 | 1 | 2 | _ + 3 => rfl

theorem objectText?_eq (some : 0 < w.objects) (i : Nat) :
    w.objectText? i = Option.some (w.objectText i) := by
  have lines : ((List.range w.fields).mapM fun f => do
      return s!"  field{f}: " ++ (← w.fieldType? i f) ++ "\n") =
      Option.some ((List.range w.fields).map (w.fieldLine i)) := by
    refine mapM_of_forall_some fun f _ => ?_
    rw [fieldType?_eq some]
    rfl
  rw [objectText?, lines]
  rfl

theorem unionText?_eq (some : 0 < w.objects) (i : Nat) :
    w.unionText? i = Option.some (w.unionText i) := by
  rw [unionText?, remainder?_of_pos some, remainder?_of_pos some]
  rfl

theorem unionTexts?_eq (w : Synthetic) : w.unionTexts? =
    some (if w.objects = 0 then "" else String.join ((List.range w.unions).map w.unionText)) := by
  unfold unionTexts?
  split
  · rfl
  · next some => rw [mapM_of_forall_some fun i _ => unionText?_eq (by omega) i, Option.map_some]

/-- No division of the document is by zero, whatever the sizes are. -/
theorem text?_eq (w : Synthetic) : w.text? = some w.text := by
  have objects : (List.range w.objects).mapM w.objectText? =
      some ((List.range w.objects).map w.objectText) :=
    mapM_of_forall_some fun i bound =>
      objectText?_eq (Nat.zero_lt_of_lt (List.mem_range.mp bound)) i
  rw [text?, objects, unionTexts?_eq]
  rfl

/-! ## Generation -/

theorem validate_schema (some : 0 < w.objects) : w.schema.validate = .ok () :=
  Schema.validate_eq_ok_iff.mpr
    ((Schema.built_ofTypes _ _).violations_eq_nil_iff.mpr (wellFormed some))

/-- A synthetic schema whose document is accepted has an object. -/
theorem pos_of_generated {c : Config} {out : String}
    (generated : generateOfDocument w.text c = .ok out) : 0 < w.objects := by
  obtain ⟨s, doc, read, made, -⟩ := Output.of_generateOfDocument generated
  by_contra none
  have none : w.objects = 0 := by omega
  by_cases field : 0 < w.objects + w.unions
  · obtain rfl : w.schema = s := Except.ok.inj ((described field).symm.trans read)
    have built : w.schema.Built := Schema.built_ofTypes _ _
    obtain ⟨valid, -, -⟩ := Output.of_generateDocument built made
    have sound := built.violations_eq_nil_iff.mp (Schema.validate_eq_ok_iff.mp valid)
    exact not_wellFormed none (by omega) sound
  · rw [malformed (by omega)] at read
    cases read

/-- A synthetic schema of any size can be generated from, with any configuration that is accepted,
exactly if it has an object. It defines the query type, the objects and the unions, in this order:
the query type has a field for each of the others, an object has one field more than it is asked to
have, and a union is the choice between its object and the one after it, counted round, which may be
the same. No division that this takes is by zero. -/
theorem synthetic_generated (w : Synthetic) :
    (∀ c : Config, c.validate = .ok () →
      ((∃ out, generateOfDocument w.text c = .ok out) ↔ 0 < w.objects)) ∧
    w.text? = some w.text ∧
    (0 < w.objects → ∃ s, Schema.ofDocument w.text = .ok s ∧
      s.types.map (·.name) = "Query" :: ((List.range w.objects).map (fun i => s!"Object{i}") ++
        (List.range w.unions).map fun i => s!"Union{i}") ∧
      (∃ query, s.find? "Query" = some query ∧ query.kind = .object ∧
        query.fields.map (fun f => (f.name, f.type)) =
          (List.range w.objects).map (fun i => (s!"object{i}", .named s!"Object{i}")) ++
            (List.range w.unions).map
              fun i => (s!"union{i}", .nonNull (.named s!"Union{i}"))) ∧
      (∀ i < w.objects, ∃ object, s.find? s!"Object{i}" = some object ∧ object.kind = .object ∧
        object.fields.length = w.fields + 1) ∧
      Output.UnionVariants.ofGraph (.ofSchema s) = .ok ((List.range w.unions).map fun i =>
        ⟨s!"Union{i}",
          [s!"Object{i % w.objects}", s!"Object{(i + 1) % w.objects}"].eraseDups⟩)) := by
  refine ⟨fun c usable => ⟨fun ⟨out, generated⟩ => pos_of_generated generated, fun some => ?_⟩,
    text?_eq w, fun some => ?_⟩
  · exact ⟨_, Output.generateOfDocument_eq_ok (described (by omega)) (validate_schema some) usable⟩
  have built : w.schema.Built := Schema.built_ofTypes _ _
  have listed : w.schema.types = w.types := Schema.types_ofTypes _ _
  have nodup : (w.schema.types.map (·.name)).Nodup := listed ▸ nodup_types
  have found {d : TypeDef} (member : d ∈ w.types) : w.schema.find? d.name = Option.some d :=
    built.find?_eq_some_iff_standsFor.mpr (standsFor_of_mem member)
  have query := found (d := w.queryType) (mem_types_iff.mpr (.inl rfl))
  refine ⟨w.schema, described (by omega), ?_, ⟨w.queryType, query, rfl, ?_⟩, ?_, ?_⟩
  · rw [listed, types, unionTypes_of_pos some, List.map_cons, List.map_append, List.map_map,
      List.map_map]
    rfl
  · show w.queryFields.map _ = _
    rw [queryFields, List.map_append, List.map_map, List.map_map]
    rfl
  · intro i bound
    refine ⟨w.objectType i, found (mem_types_iff.mpr (.inr (.inl ⟨i, bound, rfl⟩))), rfl, ?_⟩
    show (w.objectFields i).length = _
    simp [objectFields]
  · rw [Output.unions_ofSchema built nodup (validate_schema some), listed, filter_union_types some,
      List.map_map]
    rfl

/-- One object, which both unions have to take twice. -/
theorem synthetic_generated_example :
    let w : Synthetic := ⟨1, 4, 2⟩
    (∃ out, generateOfDocument w.text {} = .ok out) ∧
      ∃ s, Schema.ofDocument w.text = .ok s ∧
        s.types.map (·.name) = ["Query", "Object0", "Union0", "Union1"] ∧
        Output.UnionVariants.ofGraph (.ofSchema s) =
          .ok [⟨"Union0", ["Object0"]⟩, ⟨"Union1", ["Object0"]⟩] := by
  intro w
  obtain ⟨generated, -, described⟩ := synthetic_generated w
  obtain ⟨s, read, names, -, -, unions⟩ := described (by decide)
  exact ⟨(generated {} rfl).mpr (by decide), s, read, names,
    unions.trans (congrArg Except.ok (by decide))⟩

end ResolverTypes.Workload.Synthetic
