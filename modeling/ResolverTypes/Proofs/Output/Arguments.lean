import ResolverTypes.Proofs.Output.ContractEntries
import ResolverTypes.Proofs.Output.Inventory

/-!
# Arguments in contracts and in base types

The arguments of a field are written twice: as a type of their own among the base types, and as a
parameter of the function that resolves the field, which names that type and the arguments that are
always there. Both are made from the field, in different places, and each decides for itself which
arguments may be left out. They fit each other (`ArgsAgree`), for every object and interface of a
schema that is accepted (`arguments_agree`).
-/

namespace ResolverTypes.Output

open TypeScript

variable {g : TypeGraph} {c : Config}

/-! ## Properties of arguments -/

/-- A wrapped reference is what the wrapper of values that may be null is around exactly if the
reference may be null. -/
theorem exists_wrap_eq_reference (t : TypeRef) {nullable : String} (list : nullable ≠ "Array")
    {inner : TypeExpr} (bare : ∀ u, inner ≠ .reference nullable [u]) :
    (∃ u, wrap nullable t.layers inner = .reference nullable [u]) ↔ t.isNonNull = false := by
  rw [← TypeRef.head?_layers]
  cases t.layers with
  | nil => exact iff_of_false (fun ⟨u, same⟩ => bare u same) nofun
  | cons layer rest =>
    cases layer with
    | nullable => exact iff_of_true ⟨_, rfl⟩ rfl
    | list =>
      refine iff_of_false ?_ nofun
      rintro ⟨u, same⟩
      exact list (TypeExpr.reference.inj same).1.symm

/-- Whether the property is the one for an argument. -/
structure ArgProperty (v : InputValue) (p : Property TypeExpr) : Prop where
  key : p.key = v.name
  optional : p.isOptional = true ↔ v.type.isNonNull = false ∨ v.hasDefault = true
  nullable : (∃ inner, p.value = .reference Names.inputMaybe [inner]) ↔ v.type.isNonNull = false

theorem argProperty_inputProperty (g : TypeGraph) (v : InputValue) :
    ArgProperty v (inputProperty g v) where
  key := rfl
  optional := by
    show (!(v.type.isNonNull && !v.hasDefault)) = true ↔ _
    cases v.type.isNonNull <;> simp
  nullable := by
    refine exists_wrap_eq_reference v.type (by decide) ?_
    intro u same
    unfold namedShape at same
    split at same
    · cases same
    · cases (TypeExpr.reference.inj same).2

theorem ArgProperty.isOptional_eq {v : InputValue} {p : Property TypeExpr} (h : ArgProperty v p) :
    p.isOptional = !v.isRequired := by
  rw [Bool.eq_iff_iff, h.optional, InputValue.isRequired]
  cases v.type.isNonNull <;> simp

/-- The arguments that must be provided are the properties that may not be missing. -/
theorem requiredArgs_of_properties {f : Field} {properties : List (Property TypeExpr)}
    (each : List.Forall₂ ArgProperty f.args properties) :
    f.requiredArgs = (properties.filter fun p => !p.isOptional).map (·.key) := by
  unfold Field.requiredArgs
  generalize f.args = args at each ⊢
  induction each with
  | nil => rfl
  | cons property _ ih =>
    rw [List.filter_cons, List.filter_cons, property.isOptional_eq, Bool.not_not]
    split
    · rw [List.map_cons, List.map_cons, ih, property.key]
    · exact ih

/-! ## Parameters for arguments -/

/-- The parameter for arguments in the signature of a field. -/
def argsParameter? : TypeExpr → Option TypeExpr
  | .reference "Resolver" [_, _, _, args] => some args
  | .reference "SubscriptionResolver" [_, _, _, _, args] => some args
  | _ => none

/-- The arguments of a type of that name, where those of the given names are always there. -/
def argsWith (name : String) (required : List String) : TypeExpr :=
  if required = [] then .reference "Partial" [.name name]
  else .reference "RequireFields" [.name name, .union (required.map .literal)]

theorem argsType_eq (typeName : String) (f : Field) :
    argsType typeName f = argsWith (Names.args typeName f.name) f.requiredArgs := by
  unfold argsType argsWith
  simp only [List.isEmpty_iff]

theorem argsParameter?_fieldSignature (t : TypeNode) (f : Field) :
    argsParameter? (fieldSignature t f) =
      if f.args.isEmpty then none else some (argsType t.name f) := by
  unfold fieldSignature
  cases f.args.isEmpty <;> dsimp only <;> split <;> rfl

/-- The declaration of the type of the arguments of a field, if it has any. -/
def argsDeclaration? (g : TypeGraph) (typeName : String) (f : Field) : Option Declaration :=
  if f.args.isEmpty then none
  else some (.typeAlias (Names.args typeName f.name) (.object (f.args.map (inputProperty g))))

theorem argsDeclarations_eq (g : TypeGraph) (typeName : String) (fields : List Field) :
    argsDeclarations g typeName fields = fields.filterMap (argsDeclaration? g typeName) := by
  unfold argsDeclarations
  rw [← List.filterMap_eq_filter, List.map_filterMap]
  apply List.filterMap_congr
  intro f _
  unfold argsDeclaration?
  cases none : f.args.isEmpty <;> simp [none]

/-- Whether the signature of a field and the declaration of the type of its arguments, if there is
one, fit the field and each other. -/
structure ArgsAgree (typeName : String) (f : Field) (signature : TypeExpr)
    (declared : Option Declaration) : Prop where
  parameter : (argsParameter? signature).isSome = true ↔ f.args ≠ []
  declares : declared.isSome = true ↔ f.args ≠ []
  fits : ∀ d ∈ declared, ∃ properties,
    d.form = .typeAlias (Names.args typeName f.name) [] (.object properties) ∧
    List.Forall₂ ArgProperty f.args properties ∧
    argsParameter? signature = some (argsWith (Names.args typeName f.name)
      ((properties.filter fun p => !p.isOptional).map (·.key)))

theorem argsAgree (g : TypeGraph) (t : TypeNode) (f : Field) :
    ArgsAgree t.name f (fieldSignature t f) (argsDeclaration? g t.name f) := by
  have parameter := argsParameter?_fieldSignature t f
  unfold argsDeclaration?
  cases args : f.args.isEmpty with
  | true =>
    rw [args, if_pos rfl] at parameter
    have none : f.args = [] := List.isEmpty_iff.mp args
    exact ⟨by simp [parameter, none], by simp [none], nofun⟩
  | false =>
    rw [args, if_neg Bool.false_ne_true] at parameter
    have some : f.args ≠ [] := by simpa using args
    refine ⟨by simp [parameter, some], by simp [some], ?_⟩
    rintro d ⟨⟩
    have each : List.Forall₂ ArgProperty f.args (f.args.map (inputProperty g)) := by
      rw [List.forall₂_map_right_iff, List.forall₂_same]
      exact fun v _ => argProperty_inputProperty g v
    exact ⟨_, rfl, each, by rw [parameter, argsType_eq, requiredArgs_of_properties each]⟩

/-- A field with arguments has a type for them, with their names as keys, and a parameter that names
it and those that must be provided. -/
theorem ArgsAgree.of_args {typeName : String} {f : Field} {signature : TypeExpr}
    {declared : Option Declaration} (h : ArgsAgree typeName f signature declared)
    (some : f.args ≠ []) : ∃ d, declared = .some d ∧ d.keys? = .some (f.args.map (·.name)) ∧
      argsParameter? signature =
        .some (argsWith (Names.args typeName f.name) f.requiredArgs) := by
  obtain ⟨d, rfl⟩ := Option.isSome_iff_exists.mp (h.declares.mpr some)
  obtain ⟨properties, form, each, parameter⟩ := h.fits d rfl
  refine ⟨d, rfl, ?_, by rw [requiredArgs_of_properties each, parameter]⟩
  have keys : List.Forall₂ Eq (properties.map (·.key)) (f.args.map (·.name)) := by
    rw [List.forall₂_map_left_iff, List.forall₂_map_right_iff]
    exact each.flip.imp fun _ _ property => property.key
  rw [List.forall₂_eq_eq_eq] at keys
  rw [Declaration.keys?, form, ← keys]

/-! ## Objects and interfaces -/

/-- The declarations for an object or interface: its own type, then those of the arguments of its
fields. -/
theorem typeDeclarations_of_fielded (g : TypeGraph) {d : TypeDef}
    (fielded : d.kind ∈ [.object, .interface]) : ∃ base, base.name? = some d.name ∧
      typeDeclarations g d = base :: d.fields.filterMap (argsDeclaration? g d.name) := by
  simp only [← argsDeclarations_eq]
  obtain ⟨name, description, body⟩ := d
  cases body with
  | object | interface => exact ⟨_, rfl, rfl⟩
  | union | scalar | enum | inputObject => simp [TypeDef.kind, TypeBody.kind] at fielded

variable {s : Schema}

/-- How contracts and base types agree on arguments. In a schema that is accepted every object or
interface has one contract, and behind the type that is declared for it there are the types of the
arguments of its fields. Field by field, the signature in the contract has a parameter for arguments
exactly if a type for them is declared, which is if the field has any. The properties of that type
are the arguments in their order, and the parameter names that type and requires those of its
properties that may not be missing. -/
theorem arguments_agree (built : s.Built) (valid : s.validate = .ok ()) (c : Config)
    (unions : List UnionVariants) {t : TypeNode}
    (ht : t ∈ (TypeGraph.ofSchema s).types.values) (fielded : t.kind ∈ [.object, .interface]) :
    let g := TypeGraph.ofSchema s
    ∃ k front base declared back,
      ((Contract.ofGraph g c unions).filter fun k => k.typeName = t.name) = [k] ∧
      shapeDeclarations g = front ++ base :: declared.filterMap id ++ back ∧
      base.name? = some t.name ∧
      List.Forall₂ (fun f d? => ∃ signature, k.fields.get? f.name = some signature ∧
        ArgsAgree t.name f signature d?) t.fields declared := by
  intro g
  have named : ∀ k t, g.types.get? k = some t → t.name = k :=
    (TypeGraph.sound_ofSchema built valid).named
  obtain ⟨key, found⟩ := OrderedMap.mem_values_iff.mp ht
  obtain rfl := named _ _ found
  obtain ⟨k, made⟩ : ∃ k, Contract.ofNode? g c unions t = some k := by
    rw [← Option.isSome_iff_exists, ofNode?_isSome_iff]
    exact List.mem_append_left [.union] fielded
  obtain ⟨d, definition⟩ := TypeGraph.exists_definition (t := t)
    (by rintro scalar; simp [scalar] at fielded)
  obtain ⟨kind, name, fields, -⟩ := TypeGraph.of_definition? definition
  obtain ⟨base, baseName, declarations⟩ := typeDeclarations_of_fielded g (d := d) (kind ▸ fielded)
  obtain ⟨before, after, split⟩ : ∃ before after, definitionsOf g = before ++ d :: after :=
    List.append_of_mem (List.mem_filterMap.mpr ⟨t, ht, definition⟩)
  refine ⟨k, before.flatMap (typeDeclarations g), base, t.fields.map (argsDeclaration? g t.name),
    after.flatMap (typeDeclarations g), ?_, ?_, baseName.trans (congrArg some name), ?_⟩
  · rw [filter_contracts named, found, Option.bind_some, made]
    rfl
  · rw [List.filterMap_map, ← name, ← fields]
    show (definitionsOf g).flatMap (typeDeclarations g) = _
    rw [split, List.flatMap_append, List.flatMap_cons, declarations, List.append_assoc]
    rfl
  · rw [List.forall₂_map_right_iff, List.forall₂_same]
    intro f hf
    refine ⟨fieldSignature t f, ?_, argsAgree g t f⟩
    rw [OrderedMap.get?_eq_some_iff_mem,
      fields_of_ofNode? (TypeGraph.nodup_fields built valid ht) made]
    exact List.mem_map_of_mem hf

/-- A field without arguments, one with arguments of which one must be provided, and one with
arguments that may all be left out. -/
theorem arguments_agree_example :
    let text := "type Query { a: Int b(x: [Int!]!, y: Int! = 1, z: Int): Int c(x: Int): Int }"
    ∃ s k front base b c back signatureB signatureC, Schema.ofDocument text = .ok s ∧
      s.validate = .ok () ∧ k ∈ Contract.ofGraph (.ofSchema s) {} [] ∧
      shapeDeclarations (.ofSchema s) = front ++ [base, b, c] ++ back ∧
      base.name? = some "Query" ∧ b.keys? = some ["x", "y", "z"] ∧ c.keys? = some ["x"] ∧
      k.fields.get? "b" = some signatureB ∧
      argsParameter? signatureB = some (argsWith "QueryBArgs" ["x"]) ∧
      k.fields.get? "c" = some signatureC ∧
      argsParameter? signatureC = some (argsWith "QueryCArgs" []) := by
  intro text
  let int : TypeRef := .named "Int"
  let x : InputValue := ⟨"x", .nonNull (.list (.nonNull int)), none, false⟩
  let y : InputValue := ⟨"y", .nonNull int, none, true⟩
  let z : InputValue := ⟨"z", int, none, false⟩
  let a : Field := ⟨"a", int, none, []⟩
  let b : Field := ⟨"b", int, none, [x, y, z]⟩
  let c : Field := ⟨"c", int, none, [{ z with name := "x" }]⟩
  let query : TypeDef := ⟨"Query", none, .object [] [a, b, c]⟩
  let definitions : List Sdl.Definition := [.type false query]
  have read : Sdl.definitions text = .ok definitions := by decide +kernel
  let s := Schema.ofTypes (Sdl.describedTypes definitions) {}
  have described : Schema.ofDefinitions definitions = .ok s := Schema.ofDefinitions_eq definitions
  let t : TypeNode := { origin := .declared query, root := some .query }
  obtain ⟨k, front, base, declared, back, contracts, shapes, baseName, agree⟩ :=
    arguments_agree (Schema.Built.of_ofDefinitions described) rfl {} [] (t := t) (by decide)
      (by decide)
  have listed : k ∈ Contract.ofGraph (.ofSchema s) {} [] :=
    (List.mem_filter.mp (contracts ▸ List.mem_singleton_self k)).1
  obtain ⟨argsA, _, ⟨_, -, agreeA⟩, behindA, rfl⟩ := List.forall₂_cons_left_iff.mp agree
  obtain ⟨argsB, _, ⟨_, foundB, agreeB⟩, behindB, rfl⟩ := List.forall₂_cons_left_iff.mp behindA
  obtain ⟨argsC, _, ⟨_, foundC, agreeC⟩, behindC, rfl⟩ := List.forall₂_cons_left_iff.mp behindB
  obtain rfl := List.forall₂_nil_left_iff.mp behindC
  obtain rfl : argsA = none := by simpa using mt agreeA.declares.mp (by decide)
  obtain ⟨b, rfl, keysB, parameterB⟩ := agreeB.of_args (by decide)
  obtain ⟨c, rfl, keysC, parameterC⟩ := agreeC.of_args (by decide)
  have named : Names.args t.name "b" = "QueryBArgs" ∧ Names.args t.name "c" = "QueryCArgs" := by
    decide
  rw [named.1] at parameterB
  rw [named.2] at parameterC
  exact ⟨s, k, front, base, b, c, back, _, _, (Schema.ofDocument_eq read).trans described, rfl,
    listed, shapes, baseName, keysB, keysC, foundB, parameterB, foundC, parameterC⟩

end ResolverTypes.Output
