import ResolverTypes.Proofs.Output.Blueprint
import ResolverTypes.Proofs.TypeGraph.Descriptions
import ResolverTypes.Proofs.TypeScript.Descriptions

/-!
# Documents of schemas without descriptions

Whatever is derived from a graph is derived without a look at descriptions; they are only handed on
to the enums, aliases and properties of base types. So the blueprint for a graph without
descriptions is that for the graph (`blueprintOf_withoutDescriptions`), and both documents are the
same without their descriptions (`document_withoutDescriptions`). Some descriptions in a document
come from no schema, which is why they are taken out of both.
-/

namespace ResolverTypes.Output

open TypeScript

variable (g : TypeGraph) (c : Config)

/-! ## Blueprints -/

@[simp] theorem variantsOf_withoutDescriptions (t : TypeNode) :
    variantsOf t.withoutDescriptions = variantsOf t := by
  simp [variantsOf]

@[simp] theorem ofNode_withoutDescriptions (t : TypeNode) :
    TableEntry.ofNode c t.withoutDescriptions = TableEntry.ofNode c t := by
  simp [TableEntry.ofNode]

@[simp] theorem requiredArgs_withoutDescriptions (f : Field) :
    f.withoutDescriptions.requiredArgs = f.requiredArgs := by
  unfold Field.requiredArgs
  show ((f.args.map (·.withoutDescription)).filter _).map _ = _
  rw [List.filter_map, List.map_map]
  rfl

@[simp] theorem fieldSignature_withoutDescriptions (t : TypeNode) (f : Field) :
    fieldSignature t.withoutDescriptions f.withoutDescriptions = fieldSignature t f := by
  have args : argsType t.name f.withoutDescriptions = argsType t.name f := by
    unfold argsType
    rw [requiredArgs_withoutDescriptions]
    rfl
  have none : f.withoutDescriptions.args.isEmpty = f.args.isEmpty := List.isEmpty_map
  unfold fieldSignature
  rw [TypeNode.name_withoutDescriptions, args, none]
  rfl

@[simp] theorem fieldSignatures_withoutDescriptions (t : TypeNode) :
    fieldSignatures t.withoutDescriptions = fieldSignatures t := by
  unfold fieldSignatures
  rw [TypeNode.fields_withoutDescriptions, List.map_map]
  simp only [Function.comp_def, fieldSignature_withoutDescriptions]
  rfl

theorem ofNode?_withoutDescriptions (unions : List UnionVariants) (t : TypeNode) :
    Contract.ofNode? g.withoutDescriptions c unions t.withoutDescriptions =
      Contract.ofNode? g c unions t := by
  unfold Contract.ofNode? requiresIsTypeOf
  rw [TypeNode.kind_withoutDescriptions, TypeNode.name_withoutDescriptions,
    fieldSignatures_withoutDescriptions]
  rfl

theorem blueprintOf_withoutDescriptions :
    blueprintOf g.withoutDescriptions c = blueprintOf g c := by
  have unions : (g.withoutDescriptions.ofKind .union).map variantsOf =
      (g.ofKind .union).map variantsOf := by
    rw [TypeGraph.ofKind_withoutDescriptions, List.map_map]
    simp only [Function.comp_def, variantsOf_withoutDescriptions]
  have table : TypeTable.ofGraph g.withoutDescriptions c = TypeTable.ofGraph g c := by
    unfold TypeTable.ofGraph
    rw [TypeGraph.values_withoutDescriptions, List.map_map]
    simp only [Function.comp_def, ofNode_withoutDescriptions]
  have contracts (unions : List UnionVariants) :
      Contract.ofGraph g.withoutDescriptions c unions = Contract.ofGraph g c unions := by
    unfold Contract.ofGraph
    rw [TypeGraph.values_withoutDescriptions, List.filterMap_map]
    exact List.filterMap_congr fun t _ => ofNode?_withoutDescriptions g c unions t
  simp only [blueprintOf, unions, table, contracts, TypeGraph.customScalars_withoutDescriptions]

/-! ## Base types -/

theorem shape_withoutDescriptions (direction : Direction) (t : TypeRef) :
    shape g.withoutDescriptions direction t = shape g direction t := by
  unfold shape namedShape
  rw [TypeGraph.isScalar_withoutDescriptions]

theorem fieldProperty_withoutDescriptions (f : Field) :
    fieldProperty g.withoutDescriptions f.withoutDescriptions =
      (fieldProperty g f).withoutDescription := by
  unfold fieldProperty
  rw [shape_withoutDescriptions]
  rfl

theorem inputProperty_withoutDescriptions (v : InputValue) :
    inputProperty g.withoutDescriptions v.withoutDescription =
      (inputProperty g v).withoutDescription := by
  unfold inputProperty
  rw [shape_withoutDescriptions]
  rfl

theorem fieldProperties_withoutDescriptions (fields : List Field) :
    (fields.map (·.withoutDescriptions)).map (fieldProperty g.withoutDescriptions) =
      (fields.map (fieldProperty g)).map (·.withoutDescription) := by
  rw [List.map_map, List.map_map]
  exact List.map_congr_left fun f _ => fieldProperty_withoutDescriptions g f

theorem inputProperties_withoutDescriptions (values : List InputValue) :
    (values.map (·.withoutDescription)).map (inputProperty g.withoutDescriptions) =
      (values.map (inputProperty g)).map (·.withoutDescription) := by
  rw [List.map_map, List.map_map]
  exact List.map_congr_left fun v _ => inputProperty_withoutDescriptions g v

theorem argsDeclarations_withoutDescriptions (typeName : String) (fields : List Field) :
    argsDeclarations g.withoutDescriptions typeName (fields.map (·.withoutDescriptions)) =
      (argsDeclarations g typeName fields).map (·.withoutDescriptions) := by
  have some_args (f : Field) : f.withoutDescriptions.args.isEmpty = f.args.isEmpty :=
    List.isEmpty_map
  unfold argsDeclarations
  rw [List.filter_map, List.map_map, List.map_map]
  simp only [Function.comp_def, some_args]
  refine List.map_congr_left fun f _ => ?_
  show Declaration.typeAlias _ (.object ((f.args.map (·.withoutDescription)).map _)) = _
  rw [inputProperties_withoutDescriptions]
  rfl

theorem typeDeclarations_withoutDescriptions (d : TypeDef) :
    typeDeclarations g.withoutDescriptions d.withoutDescriptions =
      (typeDeclarations g d).map (·.withoutDescriptions) := by
  obtain ⟨name, description, body⟩ := d
  cases body with
  | object interfaces fields =>
    show Declaration.typeAlias name (.object (_ :: (fields.map _).map _)) none ::
      argsDeclarations g.withoutDescriptions name (fields.map _) = _
    rw [fieldProperties_withoutDescriptions, argsDeclarations_withoutDescriptions]
    rfl
  | interface interfaces fields =>
    show Declaration.typeAlias name (.object ((fields.map _).map _)) none ::
      argsDeclarations g.withoutDescriptions name (fields.map _) = _
    rw [fieldProperties_withoutDescriptions, argsDeclarations_withoutDescriptions]
    rfl
  | inputObject fields =>
    show [Declaration.typeAlias name (.object ((fields.map _).map _)) none] = _
    rw [inputProperties_withoutDescriptions]
    rfl
  | union | scalar | enum => rfl

theorem enumDeclaration?_withoutDescriptions (d : TypeDef) :
    enumDeclaration? d.withoutDescriptions = (enumDeclaration? d).map (·.withoutDescriptions) := by
  obtain ⟨name, description, body⟩ := d
  cases body with
  | enum values =>
    show some
      (Declaration.mk (.enum name ((values.map (·.withoutDescription)).map enumMember)) none) = _
    rw [List.map_map]
    rfl
  | object | interface | union | scalar | inputObject => rfl

theorem definitions_withoutDescriptions :
    g.withoutDescriptions.types.values.filterMap (·.definition?) =
      (g.types.values.filterMap (·.definition?)).map (·.withoutDescriptions) := by
  rw [TypeGraph.values_withoutDescriptions, List.filterMap_map, List.map_filterMap]
  exact List.filterMap_congr fun t _ => t.definition?_withoutDescriptions

theorem enumDeclarations_withoutDescriptions :
    enumDeclarations g.withoutDescriptions =
      (enumDeclarations g).map (·.withoutDescriptions) := by
  unfold enumDeclarations
  rw [definitions_withoutDescriptions, List.filterMap_map, List.map_filterMap]
  exact List.filterMap_congr fun d _ => enumDeclaration?_withoutDescriptions d

theorem shapeDeclarations_withoutDescriptions :
    shapeDeclarations g.withoutDescriptions =
      (shapeDeclarations g).map (·.withoutDescriptions) := by
  unfold shapeDeclarations
  rw [definitions_withoutDescriptions, List.flatMap_map, List.map_flatMap]
  exact List.flatMap_congr fun d _ => typeDeclarations_withoutDescriptions g d

theorem scalarsDeclaration_withoutDescriptions :
    scalarsDeclaration g.withoutDescriptions c = scalarsDeclaration g c := by
  unfold scalarsDeclaration scalarNames
  rw [TypeGraph.customScalars_withoutDescriptions]

theorem resolversDeclaration_withoutDescriptions :
    resolversDeclaration g.withoutDescriptions c = resolversDeclaration g c := by
  have property (t : TypeNode) :
      resolversProperty? t.withoutDescriptions = resolversProperty? t := by
    unfold resolversProperty?
    rw [TypeNode.kind_withoutDescriptions, TypeNode.name_withoutDescriptions,
      TypeNode.isBuiltin_withoutDescriptions]
  unfold resolversDeclaration
  rw [TypeGraph.values_withoutDescriptions, List.filterMap_map]
  simp only [Function.comp_def, property]

/-! ## Documents -/

/-- Without descriptions the document for a graph is that for the graph without them. -/
theorem document_withoutDescriptions (b : Blueprint) :
    (b.document g.withoutDescriptions c).withoutDescriptions =
      (b.document g c).withoutDescriptions := by
  have twice (l : List Declaration) :
      (l.map (·.withoutDescriptions)).map (·.withoutDescriptions) =
        l.map (·.withoutDescriptions) := by
    rw [List.map_map]
    exact List.map_congr_left fun d _ => Declaration.withoutDescriptions_idem d
  have base : ({ declarations := scalarsDeclaration g.withoutDescriptions c ::
        enumDeclarations g.withoutDescriptions ++
          shapeDeclarations g.withoutDescriptions } : Section).withoutDescriptions =
      ({ declarations := scalarsDeclaration g c :: enumDeclarations g ++
          shapeDeclarations g } : Section).withoutDescriptions := by
    unfold Section.withoutDescriptions
    rw [scalarsDeclaration_withoutDescriptions, enumDeclarations_withoutDescriptions,
      shapeDeclarations_withoutDescriptions]
    simp only [List.map_append, List.map_cons, twice]
  unfold Blueprint.document
  rw [Document.withoutDescriptions_ofSections, Document.withoutDescriptions_ofSections,
    resolversDeclaration_withoutDescriptions]
  simp only [List.map_cons, List.map_nil]
  rw [base]

end ResolverTypes.Output
