import ResolverTypes.Sdl.Grammar

/-!
# From definitions to a schema

Types and root types are taken in the order of the document. Extensions wait until all types are
there, so an extension may come before the type that it extends, and are then applied in their
order. A type may be defined once, and so may the schema; extensions of both may come any number of
times.
-/

namespace ResolverTypes

/-- Appends the content of an extension to the definition. The extension must be of its kind. -/
def TypeDef.append (extension : TypeDef) : EStateM Sdl.Error TypeDef Unit := do
  let d ← get
  match d.body.append? extension.body with
  | none => throw (.extensionKindMismatch extension.name d.kind.text extension.kind.text)
  | some body => set { d with body }

theorem TypeDef.append_eq (extension d : TypeDef) :
    (TypeDef.append extension).run d =
      match d.body.append? extension.body with
      | none =>
        .error (.extensionKindMismatch extension.name d.kind.text extension.kind.text) d
      | some body => .ok () { d with body } := by
  show (match d.body.append? extension.body with | none => _ | some _ => _ : EStateM _ _ _) d = _
  cases d.body.append? extension.body <;> rfl

namespace Schema

/-- Appends the content of an extension in place to the type that it names. -/
def extendInPlace (extension : TypeDef) : EStateM Sdl.Error Schema Unit :=
  update extension.name (.unknownExtension extension.name) (TypeDef.append extension)

/-- The schema with an extension, for a caller that drops the schema if the extension fails. -/
def extend (s : Schema) (extension : TypeDef) : Except Sdl.Error Schema :=
  match (extendInPlace extension).run s with
  | .ok () t => .ok t
  | .error e _ => .error e

end Schema

/-- What has been taken from the definitions so far. -/
structure Sdl.Assembly where
  schema : Schema := ∅
  /-- The extensions of types that wait, in their order. -/
  extensions : List TypeDef := []
  hasSchemaDefinition : Bool := false

/-- Takes one more definition. -/
def Sdl.Assembly.take (a : Sdl.Assembly) : Sdl.Definition → Except Sdl.Error Sdl.Assembly
  | .type true d => .ok { a with extensions := a.extensions ++ [d] }
  | .type false d =>
    if a.schema.contains d.name then .error (.duplicateDefinition "type" d.name)
    else .ok { a with schema := a.schema.add d }
  | .schema isExtension roots =>
    if !isExtension && a.hasSchemaDefinition then .error (.duplicateDefinition "schema" "schema")
    else
      .ok { a with
        schema := { a.schema with roots := a.schema.roots.overlay roots }
        hasSchemaDefinition := a.hasSchemaDefinition || !isExtension }
  | .directive => .ok a

namespace Schema

/-- The schema that the definitions describe. -/
def ofDefinitions (definitions : List Sdl.Definition) : Except Sdl.Error Schema := do
  let a ← definitions.foldlM Sdl.Assembly.take {}
  a.extensions.foldlM extend a.schema

/-- The schema that the document describes. -/
def ofDocument (text : String) : Except Sdl.Error Schema := do
  ofDefinitions (← Sdl.definitions text)

end Schema

end ResolverTypes
