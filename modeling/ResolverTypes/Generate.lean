import ResolverTypes.Output.Blueprint
import ResolverTypes.Schema.Validation
import ResolverTypes.Sdl.Assembly
import ResolverTypes.TypeScript.Printer

/-!
# Generation

From a schema, or a document that describes one, to the text of the generated module. The schema is
validated first, so a schema that is rejected leaves no text behind.
-/

namespace ResolverTypes

open Output

/-- The document generated for a schema. -/
def generateDocument (s : Schema) (c : Config) : Except Output.Error TypeScript.Document := do
  s.validate.mapError .schema
  documentOf (.ofSchema s) c

/-- The text generated for a schema. -/
def generate (s : Schema) (c : Config) : Except Output.Error String :=
  (generateDocument s c).map (·.render)

/-- The text generated for the schema that a document describes. -/
def generateOfDocument (text : String) (c : Config) : Except Output.Error String := do
  generate (← (Schema.ofDocument text).mapError .document) c

/-- The text generated for the schema that the bytes of a file describe, where `none` stands for a
file that is not there. -/
def generateOfFile (content : Option ByteArray) (c : Config) : Except Output.Error String :=
  match content.bind String.fromUTF8? with
  | none => .error .unreadable
  | some text => generateOfDocument text c

end ResolverTypes
