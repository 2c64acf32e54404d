import ResolverTypes.Proofs.Output.Arguments
import ResolverTypes.Proofs.Text.PascalCase

/-!
# Names for the arguments of fields

The type of the arguments of a field is called after the type that has the field and after the field
in Pascal case. The name of a type can be taken off in front and the ending behind, so two fields of
one type share such a name exactly if they have the same Pascal case (`args_eq_iff`), and then they
differ in separators and in the case of letters at most. Fields that differ in more have types of
their own for their arguments (`args_apart`).
-/

namespace ResolverTypes.Output

open TypeScript

/-- What two names are compared by here: their characters but `_` and `-`, whatever the case of
letters. -/
def plain (name : String) : List Char :=
  (name.toList.filter fun c => c ≠ '_' ∧ c ≠ '-').map Char.toLower

theorem plain_eq_folded (name : String) : plain name = Text.folded name := by
  have same : (fun c : Char => decide (c ≠ '_' ∧ c ≠ '-')) = fun c => !Text.isWordSeparator c := by
    funext c
    rw [Bool.eq_iff_iff]
    simp [Text.isWordSeparator]
  rw [plain, Text.folded, same]

/-- Pascal case leaves of a name what names are compared by. -/
theorem map_toLower_pascalCase_eq_plain (name : String) :
    (Text.pascalCase name).toList.map Char.toLower = plain name := by
  rw [plain_eq_folded, Text.map_toLower_pascalCase]

/-- The fields that have arguments. -/
def fieldsWithArgs (fields : List Field) : List Field := fields.filter fun f => !f.args.isEmpty

/-- Two fields of a type share the name for their arguments exactly if they have the same Pascal
case. -/
theorem args_eq_iff {typeName a b : String} :
    Names.args typeName a = Names.args typeName b ↔ Text.pascalCase a = Text.pascalCase b := by
  rw [Names.args, Names.args, String.append_left_inj, String.append_right_inj]

/-- Separators and case tell nothing apart, and are all that may be lost. -/
example :
    Names.args "Query" "find_user" = Names.args "Query" "findUser" ∧
      Names.args "Query" "user" = Names.args "Query" "User" ∧
      Names.args "Query" "find_user" ≠ Names.args "Query" "finduser" := by
  decide

theorem map_name?_argsDeclarations (g : TypeGraph) (typeName : String) (fields : List Field) :
    (argsDeclarations g typeName fields).map (·.name?) =
      (fieldsWithArgs fields).map fun f => some (Names.args typeName f.name) := by
  rw [argsDeclarations, List.map_map]
  rfl

/-- The types for arguments have pairwise distinct names exactly if the Pascal case tells all fields
with arguments apart. -/
theorem nodup_argsDeclarations_iff {g : TypeGraph} {typeName : String} {fields : List Field} :
    ((argsDeclarations g typeName fields).map (·.name?)).Nodup ↔
      ((fieldsWithArgs fields).map fun f => Text.pascalCase f.name).Nodup := by
  have named : (fieldsWithArgs fields).map (fun f => some (Names.args typeName f.name)) =
      ((fieldsWithArgs fields).map fun f => Text.pascalCase f.name).map
        fun p => some (typeName ++ p ++ "Args") := by
    rw [List.map_map]
    rfl
  rw [map_name?_argsDeclarations, named, List.nodup_map_iff]
  intro p q same
  rwa [Option.some.injEq, String.append_left_inj, String.append_right_inj] at same

/-- Fields that differ in more than separators and case are told apart. -/
theorem nodup_pascalCase {fields : List Field}
    (apart : (fields.map fun f => plain f.name).Nodup) :
    (fields.map fun f => Text.pascalCase f.name).Nodup := by
  have through : fields.map (fun f => plain f.name) =
      (fields.map fun f => Text.pascalCase f.name).map fun p => p.toList.map Char.toLower := by
    rw [List.map_map]
    apply List.map_congr_left
    intro f _
    rw [Function.comp_apply, map_toLower_pascalCase_eq_plain]
  rw [through] at apart
  exact apart.of_map

/-- An object or interface has its own type declared and right behind it those for the arguments of
its fields. -/
theorem exists_shapeDeclarations {g : TypeGraph} {t : TypeNode} (ht : t ∈ g.types.values)
    (fielded : t.kind ∈ [.object, .interface]) : ∃ front base back,
      shapeDeclarations g = front ++ base :: argsDeclarations g t.name t.fields ++ back ∧
        base.name? = some t.name := by
  obtain ⟨d, definition⟩ := TypeGraph.exists_definition (t := t)
    (by rintro scalar; simp [scalar] at fielded)
  obtain ⟨kind, name, fields, -⟩ := TypeGraph.of_definition? definition
  obtain ⟨base, baseName, declarations⟩ := typeDeclarations_of_fielded g (d := d) (kind ▸ fielded)
  rw [← argsDeclarations_eq, name, fields] at declarations
  obtain ⟨before, after, split⟩ : ∃ before after, definitionsOf g = before ++ d :: after :=
    List.append_of_mem (List.mem_filterMap.mpr ⟨t, ht, definition⟩)
  refine ⟨before.flatMap (typeDeclarations g), base, after.flatMap (typeDeclarations g), ?_,
    baseName.trans (congrArg some name)⟩
  show (definitionsOf g).flatMap (typeDeclarations g) = _
  rw [split, List.flatMap_append, List.flatMap_cons, declarations, List.append_assoc]

/-- How names for arguments keep fields apart. A name in Pascal case has no separators and is, but
for the case of letters, the name without them. So the names for the arguments of two fields of one
type meet only if the fields differ in separators and case at most. The types for the arguments of
the fields of an object or interface are declared right behind its own, one for every field that has
arguments, and their names are pairwise distinct if no two of these fields are alike in that
sense. -/
theorem args_apart :
    (∀ name, '_' ∉ (Text.pascalCase name).toList ∧ '-' ∉ (Text.pascalCase name).toList ∧
      (Text.pascalCase name).toList.map Char.toLower = plain name) ∧
    (∀ typeName a b, Names.args typeName a = Names.args typeName b → plain a = plain b) ∧
    ∀ (g : TypeGraph) (t : TypeNode), t ∈ g.types.values → t.kind ∈ [.object, .interface] →
      ∃ (front aliases back : List Declaration) (base : Declaration),
        shapeDeclarations g = front ++ base :: aliases ++ back ∧
        base.name? = some t.name ∧
        aliases.map (·.name?) =
          (fieldsWithArgs t.fields).map (fun f => some (Names.args t.name f.name)) ∧
        (((fieldsWithArgs t.fields).map fun f => plain f.name).Nodup →
          (aliases.map (·.name?)).Nodup) := by
  refine ⟨?_, ?_, ?_⟩
  · intro name
    exact ⟨Text.not_mem_pascalCase (.inl rfl), Text.not_mem_pascalCase (.inr rfl),
      map_toLower_pascalCase_eq_plain name⟩
  · intro typeName a b same
    rw [← map_toLower_pascalCase_eq_plain, args_eq_iff.mp same, map_toLower_pascalCase_eq_plain]
  · intro g t ht fielded
    obtain ⟨front, base, back, shapes, named⟩ := exists_shapeDeclarations ht fielded
    refine ⟨front, _, back, base, shapes, named, map_name?_argsDeclarations .., ?_⟩
    intro apart
    exact nodup_argsDeclarations_iff.mpr (nodup_pascalCase apart)

/-- Two fields whose types for arguments are told apart, a third without one, and a name that a
field beside them would share. -/
theorem args_apart_example :
    let args : List InputValue := [⟨"id", .named "ID", none, false⟩]
    let query : TypeDef := ⟨"Query", none, .object []
      [⟨"find_user", .named "Int", none, args⟩, ⟨"version", .named "Int", none, []⟩,
        ⟨"FIND_USERS", .named "Int", none, args⟩]⟩
    (∃ (front aliases back : List Declaration) (base : Declaration),
      shapeDeclarations (.ofSchema (.ofTypes [query] {})) = front ++ base :: aliases ++ back ∧
        base.name? = some "Query" ∧
        aliases.map (·.name?) = [some "QueryFindUserArgs", some "QueryFindUsersArgs"] ∧
        (aliases.map (·.name?)).Nodup) ∧
      Names.args "Query" "findUser" = "QueryFindUserArgs" ∧
      plain "find_user" = plain "findUser" := by
  intro args query
  obtain ⟨-, meet, apart⟩ := args_apart
  obtain ⟨front, aliases, back, base, shapes, named, names, nodup⟩ :=
    apart (.ofSchema (.ofTypes [query] {})) { origin := .declared query, root := some .query }
      (by decide) (by decide)
  refine ⟨⟨front, aliases, back, base, shapes, named, names.trans (by decide), nodup (by decide)⟩,
    by decide, meet "Query" "find_user" "findUser" (by decide)⟩

end ResolverTypes.Output
