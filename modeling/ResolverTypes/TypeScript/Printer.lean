import ResolverTypes.TypeScript.Basic
import ResolverTypes.TypeScript.Comment

/-!
# Writing TypeScript

How declarations are laid out. An object type has one property on a line, indented by two spaces
however deep it stands. Declarations are separated by blank lines, or stand on consecutive lines in
a compact section; sections are separated by blank lines, and a document ends with a line feed
unless there is nothing in it.
-/

namespace ResolverTypes.TypeScript

/-- Items between angle brackets, or nothing if there are none. -/
def angled (items : List String) : String :=
  if items.isEmpty then "" else "<" ++ ", ".intercalate items ++ ">"

/-- The comment of a description, if there is one, indented and followed by a line feed. -/
def leadingComment (indent : String) (description : Option String) : String :=
  match description with
  | some text => indent ++ comment text ++ "\n"
  | none => ""

/-- A property with the text of its type. -/
def propertyText (key : String) (isOptional : Bool) (type : String) : String :=
  key ++ (if isOptional then "?" else "") ++ ": " ++ type

/-- Lines between braces, or braces alone if there are none. -/
def bracedLines (lines : List String) : String :=
  if lines.isEmpty then "\x7b\x7d" else "\x7b\n" ++ String.join lines ++ "\x7d"

mutual

def TypeExpr.render : TypeExpr → String
  | .reference name args => name ++ angled (renderTypes args)
  | .index target key => target.render ++ "['" ++ key ++ "']"
  | .literal value => "'" ++ value ++ "'"
  | .quoted value => "\"" ++ value ++ "\""
  | .union members => " | ".intercalate (renderTypes members)
  | .group inner => "( " ++ inner.render ++ " )"
  | .object properties => bracedLines (renderProperties properties)
  | .inlineObject properties => "\x7b " ++ String.join (renderInline properties) ++ "\x7d"
  | .raw text => text

def renderTypes : List TypeExpr → List String
  | [] => []
  | t :: rest => t.render :: renderTypes rest

def renderProperties : List (Property TypeExpr) → List String
  | [] => []
  | ⟨key, value, isOptional, description⟩ :: rest =>
    (leadingComment "  " description ++
      "  " ++ propertyText key isOptional value.render ++ ";\n") :: renderProperties rest

/-- The properties of an object type on a single line. -/
def renderInline : List (String × TypeExpr) → List String
  | [] => []
  | (key, value) :: rest => (propertyText key false value.render ++ "; ") :: renderInline rest

end

/-- The text of a property without its comment. -/
def Property.render (p : Property TypeExpr) : String :=
  propertyText p.key p.isOptional p.value.render

def TypeParam.render (p : TypeParam) : String :=
  p.name ++ (match p.bound with | some t => " extends " ++ t.render | none => "") ++
    match p.default with | some t => " = " ++ t.render | none => ""

/-- The lines of the members of an enum, with commas between them. -/
def enumLines : List EnumMember → List String
  | [] => []
  | m :: rest =>
    ("  " ++ m.name ++ " = '" ++ m.value ++ "'" ++ (if rest.isEmpty then "\n" else ",\n")) ::
      enumLines rest

namespace Declaration

/-- The text of a declaration without its comment. -/
def Form.render : Form → String
  | .imports names source =>
    "import \x7b " ++ ", ".intercalate names ++ " \x7d from '" ++ source ++ "';"
  | .typeAlias name params type =>
    "export type " ++ name ++ angled (params.map (·.render)) ++ " = " ++ type.render ++ ";"
  | .enum name members =>
    "export enum " ++ name ++ " \x7b\n" ++ String.join (enumLines members) ++ "\x7d"
  | .interface name params base properties =>
    "export interface " ++ name ++ angled (params.map (·.render)) ++
      (match base with | some t => " extends " ++ t.render | none => "") ++
        " " ++ (TypeExpr.object properties).render
  | .verbatim _ text => text

def render (d : Declaration) : String := leadingComment "" d.description ++ d.form.render

end Declaration

def Section.render (s : Section) : String :=
  (if s.isCompact then "\n" else "\n\n").intercalate (s.declarations.map (·.render))

def Document.render (d : Document) : String :=
  "\n\n".intercalate (d.sections.map (·.render)) ++ if d.sections.isEmpty then "" else "\n"

end ResolverTypes.TypeScript
