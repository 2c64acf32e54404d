import ResolverTypes.Proofs.Output.Document
import ResolverTypes.Proofs.TypeGraph.Order

/-!
# What a document consists of

A document is made in seven passes over the types of a graph, each of which picks the types that it
is about. The inventory of a schema says what all of them together have to come to: which
declarations there are, of what sort and in which order, read off the definitions alone. With
pairwise distinct type names the graph has the definitions of the schema in their order, built-in
scalars in between (`TypeGraph.definitions_typesOf`), and no pass makes anything of a built-in
scalar, so the document is the inventory (`document_inventory`).
-/

namespace ResolverTypes

open TypeScript

/-! ## Outlines -/

namespace TypeScript

/-- The sort of a declaration and its name. -/
inductive Outline where
  | alias (name : String)
  | enum (name : String)
  | interface (name : String)
  /-- An import, or a declaration that is taken over as it is given. -/
  | other
deriving DecidableEq, Repr

def Declaration.outline (d : Declaration) : Outline :=
  match d.form with
  | .typeAlias name .. => .alias name
  | .enum name _ => .enum name
  | .interface name .. => .interface name
  | .imports .. | .verbatim .. => .other

end TypeScript

namespace Output

/-! ## The inventory of a schema -/

/-- An enum has its own declaration. -/
def enumOutline (d : TypeDef) : List Outline :=
  match d.kind with
  | .enum => [.enum d.name]
  | _ => []

/-- Every other type but a scalar has an alias, followed by one for each field with arguments. -/
def shapeOutline (d : TypeDef) : List Outline :=
  match d.kind with
  | .object | .interface =>
    .alias d.name ::
      (d.fields.filter fun f => !f.args.isEmpty).map fun f => .alias (Names.args d.name f.name)
  | .union | .inputObject => [.alias d.name]
  | .scalar | .enum => []

def contractOutline (d : TypeDef) : List Outline :=
  match d.kind with
  | .object | .interface | .union => [.alias (Names.contract d.name)]
  | .scalar | .enum | .inputObject => []

def configOutline (d : TypeDef) : List Outline :=
  match d.kind with
  | .scalar => [.interface (Names.scalarConfig d.name)]
  | _ => []

/-- The base types that definitions ask for, behind the representations of scalars. -/
def baseInventory (types : List TypeDef) : List Outline :=
  .alias Names.scalars :: types.flatMap enumOutline ++ types.flatMap shapeOutline

/-- The tables and all about resolvers that definitions ask for. -/
def resolverInventory (types : List TypeDef) : List Outline :=
  (if types.any fun d => d.kind = .union then [.alias Names.resolversUnionTypes] else []) ++
    [.alias Names.resolversTypes, .alias Names.resolversParentTypes] ++
      types.flatMap contractOutline ++ types.flatMap configOutline ++ [.alias Names.resolvers]

/-- The property of `Resolvers` that a definition asks for: its contract, or its configuration. -/
def resolversEntry? (d : TypeDef) : Option (Property TypeExpr) :=
  match d.kind with
  | .object | .interface | .union =>
    some
      { key := d.name, value := .reference (Names.contract d.name) [.name Names.contextType],
        isOptional := true }
  | .scalar => some { key := d.name, value := .name "GraphQLScalarType", isOptional := true }
  | .enum | .inputObject => none

/-! ## What is made of one definition -/

variable {g : TypeGraph} {c : Config}

theorem outline_enumDeclaration? (d : TypeDef) :
    (enumDeclaration? d).toList.map (·.outline) = enumOutline d := by
  obtain ⟨name, description, body⟩ := d
  cases body <;> rfl

theorem outline_typeDeclarations (g : TypeGraph) (d : TypeDef) :
    (typeDeclarations g d).map (·.outline) = shapeOutline d := by
  have args (fields : List Field) : (argsDeclarations g d.name fields).map (·.outline) =
      (fields.filter fun f => !f.args.isEmpty).map fun f => .alias (Names.args d.name f.name) := by
    rw [argsDeclarations, List.map_map]
    rfl
  obtain ⟨name, description, body⟩ := d
  cases body with
  | object interfaces fields | interface interfaces fields =>
    exact congrArg (.alias name :: ·) (args fields)
  | union | scalar | enum | inputObject => rfl

/-- A type has a contract if its definition asks for one, and a built-in scalar has none. -/
theorem outline_ofNode? (unions : List UnionVariants) (t : TypeNode) :
    (Contract.ofNode? g c unions t).toList.map (fun k => (k.declaration c).outline) =
      t.definition?.toList.flatMap contractOutline := by
  obtain ⟨origin, root⟩ := t
  cases origin with
  | declared d =>
    obtain ⟨name, description, body⟩ := d
    cases body <;> rfl
  | builtin => rfl

theorem outline_customScalar (t : TypeNode) :
    (if t.isCustomScalar then [(scalarConfigDeclaration t.name).outline] else []) =
      t.definition?.toList.flatMap configOutline := by
  obtain ⟨origin, root⟩ := t
  cases origin with
  | declared d =>
    obtain ⟨name, description, body⟩ := d
    cases body <;> rfl
  | builtin => rfl

theorem resolversProperty?_eq (t : TypeNode) :
    resolversProperty? t = t.definition?.bind resolversEntry? := by
  obtain ⟨origin, root⟩ := t
  cases origin with
  | declared d =>
    obtain ⟨name, description, body⟩ := d
    cases body <;> rfl
  | builtin => rfl

/-! ## What is made of all definitions -/

/-- The definitions of the types of a graph, in table order. -/
abbrev definitionsOf (g : TypeGraph) : List TypeDef := g.types.values.filterMap (·.definition?)

/-- A pass that makes nothing of built-in scalars is a pass over the definitions. -/
theorem flatMap_values {β : Type} {f : TypeNode → List β} {h : TypeDef → List β}
    (each : ∀ t, f t = t.definition?.toList.flatMap h) :
    g.types.values.flatMap f = (definitionsOf g).flatMap h := by
  rw [definitionsOf, List.filterMap_eq_flatMap_toList, List.flatMap_assoc]
  exact List.flatMap_congr fun t _ => each t

theorem outline_base (g : TypeGraph) (c : Config) :
    (scalarsDeclaration g c :: enumDeclarations g ++ shapeDeclarations g).map (·.outline) =
      baseInventory (definitionsOf g) := by
  have enums : (enumDeclarations g).map (·.outline) = (definitionsOf g).flatMap enumOutline := by
    rw [enumDeclarations, List.filterMap_eq_flatMap_toList, List.map_flatMap]
    exact List.flatMap_congr fun d _ => outline_enumDeclaration? d
  have shapes : (shapeDeclarations g).map (·.outline) = (definitionsOf g).flatMap shapeOutline := by
    rw [shapeDeclarations, List.map_flatMap]
    exact List.flatMap_congr fun d _ => outline_typeDeclarations g d
  rw [List.map_append, List.map_cons, enums, shapes]
  rfl

theorem outline_contracts (unions : List UnionVariants) :
    ((Contract.ofGraph g c unions).map (Contract.declaration c)).map (·.outline) =
      (definitionsOf g).flatMap contractOutline := by
  rw [Contract.ofGraph, List.map_map, List.filterMap_eq_flatMap_toList, List.map_flatMap]
  exact flatMap_values fun t => outline_ofNode? unions t

theorem outline_configs (g : TypeGraph) :
    (g.customScalars.map scalarConfigDeclaration).map (·.outline) =
      (definitionsOf g).flatMap configOutline := by
  rw [← flatMap_values outline_customScalar, TypeGraph.customScalars, List.map_map, List.map_map]
  induction g.types.values with
  | nil => rfl
  | cons t rest ih =>
    rw [List.flatMap_cons, ← ih]
    cases custom : t.isCustomScalar <;> simp [custom]

theorem hasUnions_eq (g : TypeGraph) :
    g.hasUnions = (definitionsOf g).any fun d => d.kind = .union := by
  have union (t : TypeNode) :
      decide (t.kind = .union) = t.definition?.any fun d => d.kind = .union := by
    obtain ⟨origin, root⟩ := t
    cases origin <;> rfl
  unfold TypeGraph.hasUnions TypeGraph.ofKind definitionsOf
  induction g.types.values with
  | nil => rfl
  | cons t rest ih =>
    rw [List.filter_cons, union t]
    cases definition : t.definition? with
    | none => simpa [definition] using ih
    | some d => by_cases kind : d.kind = .union <;> simp_all

theorem outline_variants (g : TypeGraph) :
    (UnionVariants.declaration? ((g.ofKind .union).map variantsOf)).toList.map (·.outline) =
      if (definitionsOf g).any fun d => d.kind = .union then [.alias Names.resolversUnionTypes]
      else [] := by
  rw [← hasUnions_eq, UnionVariants.declaration?, TypeGraph.hasUnions, List.isEmpty_map]
  cases (g.ofKind .union).isEmpty <;> rfl

theorem outline_resolvers (g : TypeGraph) (c : Config) :
    ((UnionVariants.declaration? (blueprintOf g c).unions).toList ++
        [(blueprintOf g c).table.resolversTypes, (blueprintOf g c).table.resolversParentTypes] ++
          resolverDeclarations g c (blueprintOf g c)).map (·.outline) =
      resolverInventory (definitionsOf g) := by
  unfold resolverDeclarations resolverInventory
  simp only [List.map_append, List.append_assoc]
  congr 1
  · exact outline_variants g
  · congr 2
    · exact outline_contracts _
    · exact congrArg (· ++ _) (outline_configs g)

theorem resolversDeclaration_eq (g : TypeGraph) (c : Config) :
    resolversDeclaration g c =
      { form := .typeAlias Names.resolvers [Contract.contextParam c]
          (.object ((definitionsOf g).filterMap resolversEntry?)) } := by
  unfold resolversDeclaration definitionsOf
  rw [List.filterMap_filterMap]
  simp only [resolversProperty?_eq]

/-! ## The document of a schema -/

variable {s : Schema}

/-- What a document consists of. With pairwise distinct type names the declarations of the document
for a schema that is accepted, apart from what is imported and the helpers, are those of the
inventory of its definitions, in this order, each once. The last one of them is `Resolvers`; its
properties are those that the definitions ask for, in declaration order: one for each contract and
one for each custom scalar. -/
theorem document_inventory (built : s.Built) (nodup : (s.types.map (·.name)).Nodup)
    (valid : s.validate = .ok ()) (usable : c.validate = .ok ()) :
    ∃ doc withScalars base front, generateDocument s c = .ok doc ∧
      doc.declarations =
        [Preamble.imports withScalars] ++ (Preamble.typeHelpers c).declarations ++ base ++
          (Preamble.resolverHelpers c).declarations ++
          (front ++
            [{ form := .typeAlias Names.resolvers [Contract.contextParam c]
                (.object (s.types.filterMap resolversEntry?)) }]) ∧
      base.map (·.outline) = baseInventory s.types ∧
      front.map (·.outline) ++ [.alias Names.resolvers] = resolverInventory s.types := by
  let g := TypeGraph.ofSchema s
  let b := blueprintOf g c
  have definitions : definitionsOf g = s.types := TypeGraph.definitions_typesOf built nodup
  have resolvers := resolversDeclaration_eq g c
  rw [definitions] at resolvers
  refine ⟨b.document g c, !b.scalars.isEmpty,
    scalarsDeclaration g c :: enumDeclarations g ++ shapeDeclarations g,
    (UnionVariants.declaration? b.unions).toList ++
      [b.table.resolversTypes, b.table.resolversParentTypes] ++
        (b.contracts.map (Contract.declaration c) ++ b.scalars.map scalarConfigDeclaration),
    generateDocument_eq_ok built valid usable, ?_, ?_, ?_⟩
  · rw [Blueprint.document, Document.declarations_ofSections, ← resolvers]
    simp only [List.flatMap_cons, List.flatMap_nil, List.append_nil, List.append_assoc]
  · rw [outline_base, definitions]
  · rw [← definitions, ← outline_resolvers g c, resolverDeclarations]
    simp only [List.map_append, List.append_assoc]
    rfl

/-- A type of every kind, where `Float` is an interface and `Int` comes in between. -/
theorem document_inventory_example :
    let date : Field := ⟨"at", .named "Date", none, [⟨"day_of", .named "Int", none, false⟩]⟩
    let s := Schema.ofTypes
      [⟨"Query", none, .object ["Float"] [date]⟩, ⟨"Date", none, .scalar⟩,
        ⟨"Role", none, .enum [⟨"ADMIN", none⟩]⟩, ⟨"Float", none, .interface [] []⟩,
        ⟨"Any", none, .union ["Query"]⟩, ⟨"Range", none, .inputObject []⟩] {}
    ∃ doc withScalars base front resolvers, generateDocument s {} = .ok doc ∧
      doc.declarations =
        [Preamble.imports withScalars] ++ (Preamble.typeHelpers {}).declarations ++ base ++
          (Preamble.resolverHelpers {}).declarations ++ (front ++ [resolvers]) ∧
      base.map (·.outline) =
        [.alias "Scalars", .enum "Role", .alias "Query", .alias "QueryAtArgs", .alias "Float",
          .alias "Any", .alias "Range"] ∧
      front.map (·.outline) ++ [.alias "Resolvers"] =
        [.alias "ResolversUnionTypes", .alias "ResolversTypes", .alias "ResolversParentTypes",
          .alias "QueryResolvers", .alias "FloatResolvers", .alias "AnyResolvers",
          .interface "DateScalarConfig", .alias "Resolvers"] ∧
      resolvers.keys? = some ["Query", "Date", "Float", "Any"] := by
  intro date s
  obtain ⟨doc, withScalars, base, front, generated, parts, outlineBase, outlineFront⟩ :=
    document_inventory (s := s) (c := {}) (Schema.built_ofTypes _ _) (by decide) rfl (by decide)
  refine ⟨doc, withScalars, base, front, _, generated, parts, outlineBase.trans ?_,
    outlineFront.trans ?_, rfl⟩
  · decide
  · decide

end Output

end ResolverTypes
