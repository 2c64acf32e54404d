import ResolverTypes.Proofs.OrderedMap
import ResolverTypes.Proofs.Schema.Descriptions
import ResolverTypes.TypeGraph

/-!
# Graphs without descriptions

The graph of a schema without descriptions is the graph of the schema, with every definition in it
replaced by itself without descriptions (`ofSchema_withoutDescriptions`). The pass over the
definitions looks at names and references only, so every step of it commutes with the replacement.
-/

namespace ResolverTypes

def TypeOrigin.withoutDescriptions : TypeOrigin → TypeOrigin
  | .declared d => .declared d.withoutDescriptions
  | .builtin scalar => .builtin scalar

def TypeNode.withoutDescriptions (t : TypeNode) : TypeNode :=
  { t with origin := t.origin.withoutDescriptions }

def TypeGraph.withoutDescriptions (g : TypeGraph) : TypeGraph :=
  { g with types := g.types.mapValues (·.withoutDescriptions) }

namespace TypeNode

variable (t : TypeNode)

@[simp] theorem root_withoutDescriptions : t.withoutDescriptions.root = t.root := rfl

@[simp] theorem definition?_withoutDescriptions :
    t.withoutDescriptions.definition? = t.definition?.map (·.withoutDescriptions) := by
  obtain ⟨origin, root⟩ := t
  cases origin <;> rfl

@[simp] theorem name_withoutDescriptions : t.withoutDescriptions.name = t.name := by
  obtain ⟨origin, root⟩ := t
  cases origin <;> rfl

@[simp] theorem kind_withoutDescriptions : t.withoutDescriptions.kind = t.kind := by
  obtain ⟨origin, root⟩ := t
  cases origin with
  | declared d => exact d.kind_withoutDescriptions
  | builtin => rfl

@[simp] theorem isBuiltin_withoutDescriptions : t.withoutDescriptions.isBuiltin = t.isBuiltin := by
  simp [isBuiltin]

@[simp] theorem isCustomScalar_withoutDescriptions :
    t.withoutDescriptions.isCustomScalar = t.isCustomScalar := by
  simp [isCustomScalar]

@[simp] theorem members_withoutDescriptions : t.withoutDescriptions.members = t.members := by
  rw [members, members, definition?_withoutDescriptions]
  cases t.definition? with
  | none => rfl
  | some d => exact d.members_withoutDescriptions

@[simp] theorem fields_withoutDescriptions :
    t.withoutDescriptions.fields = t.fields.map (·.withoutDescriptions) := by
  rw [fields, fields, definition?_withoutDescriptions]
  cases t.definition? with
  | none => rfl
  | some d => exact d.fields_withoutDescriptions

end TypeNode

namespace TypeGraph

variable {s : Schema}

/-! ## The pass over the definitions -/

theorem addBuiltin_withoutDescriptions (m : OrderedMap TypeNode) (name : String) :
    addBuiltin s.withoutDescriptions (m.mapValues (·.withoutDescriptions)) name =
      (addBuiltin s m name).mapValues (·.withoutDescriptions) := by
  unfold addBuiltin
  rw [OrderedMap.contains_mapValues]
  show (if s.contains name || m.contains name then _ else _) = _
  split
  · rfl
  · split
    · rw [OrderedMap.mapValues_insert]
      rfl
    · rfl

theorem foldl_addBuiltin_withoutDescriptions (names : List String) (m : OrderedMap TypeNode) :
    names.foldl (addBuiltin s.withoutDescriptions) (m.mapValues (·.withoutDescriptions)) =
      (names.foldl (addBuiltin s) m).mapValues (·.withoutDescriptions) := by
  induction names generalizing m with
  | nil => rfl
  | cons name rest ih => rw [List.foldl_cons, List.foldl_cons, addBuiltin_withoutDescriptions, ih]

theorem addDeclared_withoutDescriptions (m : OrderedMap TypeNode) (d : TypeDef) :
    addDeclared s.withoutDescriptions (m.mapValues (·.withoutDescriptions)) d.withoutDescriptions =
      (addDeclared s m d).mapValues (·.withoutDescriptions) := by
  unfold addDeclared
  rw [← foldl_addBuiltin_withoutDescriptions, OrderedMap.mapValues_insert,
    TypeDef.references_withoutDescriptions, TypeDef.name_withoutDescriptions,
    Schema.operationOf?_withoutDescriptions]
  rfl

theorem foldl_addDeclared_withoutDescriptions (types : List TypeDef) (m : OrderedMap TypeNode) :
    (types.map (·.withoutDescriptions)).foldl (addDeclared s.withoutDescriptions)
        (m.mapValues (·.withoutDescriptions)) =
      (types.foldl (addDeclared s) m).mapValues (·.withoutDescriptions) := by
  induction types generalizing m with
  | nil => rfl
  | cons d rest ih =>
    rw [List.map_cons, List.foldl_cons, List.foldl_cons, addDeclared_withoutDescriptions, ih]

theorem typesOf_withoutDescriptions (s : Schema) :
    typesOf s.withoutDescriptions = (typesOf s).mapValues (·.withoutDescriptions) := by
  unfold typesOf
  rw [← foldl_addBuiltin_withoutDescriptions, ← foldl_addDeclared_withoutDescriptions]
  rfl

/-! ## The indexes -/

theorem implementationsOf_withoutDescriptions (s : Schema) :
    implementationsOf s.withoutDescriptions = implementationsOf s := by
  have kinds (kind : TypeKind) :
      (s.types.map (·.withoutDescriptions)).filter (fun d => d.kind = kind) =
        (s.types.filter fun d => d.kind = kind).map (·.withoutDescriptions) := by
    rw [List.filter_map]
    simp only [Function.comp_def, TypeDef.kind_withoutDescriptions]
  have names : s.withoutDescriptions.namesOfKind .interface = s.namesOfKind .interface := by
    show ((s.types.map (·.withoutDescriptions)).filter _).map _ = _
    rw [kinds, List.map_map]
    rfl
  unfold implementationsOf
  rw [names]
  show ((s.types.map (·.withoutDescriptions)).filter _).foldl _ _ = _
  rw [kinds, List.foldl_map]
  simp only [TypeDef.interfaces_withoutDescriptions, TypeDef.name_withoutDescriptions]

/-- The graph of a schema without descriptions is the graph of the schema without them. -/
theorem ofSchema_withoutDescriptions (s : Schema) :
    ofSchema s.withoutDescriptions = (ofSchema s).withoutDescriptions := by
  have members : s.withoutDescriptions.types.flatMap (·.members) = s.types.flatMap (·.members) := by
    show (s.types.map (·.withoutDescriptions)).flatMap _ = _
    rw [List.flatMap_map]
    exact List.flatMap_congr fun d _ => d.members_withoutDescriptions
  unfold ofSchema
  rw [members, typesOf_withoutDescriptions, implementationsOf_withoutDescriptions]
  rfl

/-! ## What is read off a graph -/

variable (g : TypeGraph)

@[simp] theorem values_withoutDescriptions :
    g.withoutDescriptions.types.values = g.types.values.map (·.withoutDescriptions) :=
  OrderedMap.values_mapValues _ _

@[simp] theorem isScalar_withoutDescriptions (name : String) :
    g.withoutDescriptions.isScalar name = g.isScalar name := by
  unfold isScalar find? TypeGraph.withoutDescriptions
  rw [OrderedMap.get?_mapValues]
  cases g.types.get? name with
  | none => rfl
  | some t => simp

@[simp] theorem customScalars_withoutDescriptions :
    g.withoutDescriptions.customScalars = g.customScalars := by
  unfold customScalars
  rw [values_withoutDescriptions, List.filter_map, List.map_map]
  simp only [Function.comp_def, TypeNode.isCustomScalar_withoutDescriptions,
    TypeNode.name_withoutDescriptions]

@[simp] theorem ofKind_withoutDescriptions (kind : TypeKind) :
    g.withoutDescriptions.ofKind kind = (g.ofKind kind).map (·.withoutDescriptions) := by
  unfold ofKind
  rw [values_withoutDescriptions, List.filter_map]
  simp only [Function.comp_def, TypeNode.kind_withoutDescriptions]

end TypeGraph

end ResolverTypes
