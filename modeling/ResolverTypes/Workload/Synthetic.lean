/-!
# Synthetic schemas

Schema documents of any size for measuring how fast documents are generated. The query type has one
field for every object type and one for every union; object types have scalar, list and object
fields in turn; and union `i` is a choice between the objects `i` and `i + 1`, counted round.
-/

namespace ResolverTypes.Workload

/-- The size of a synthetic schema. -/
structure Synthetic where
  /-- The number of object types besides the query type. -/
  objects : Nat
  /-- The number of fields of an object type besides its identifier. -/
  fields : Nat
  unions : Nat
deriving DecidableEq, Repr

namespace Synthetic

/-- The type of the field with index `f` of the object with index `i`. -/
def fieldType (w : Synthetic) (i f : Nat) : String :=
  match f % 4 with
  | 0 => "String"
  | 1 => "Int!"
  | 2 => "[Float!]"
  | _ => s!"Object{(i + 1) % w.objects}"

/-- The query type. -/
def queryText (w : Synthetic) : String :=
  "type Query \x7b\n" ++
    String.join ((List.range w.objects).map fun i =>
      s!"  object{i}(id: ID!, limit: Int = 10): Object{i}\n") ++
    String.join ((List.range w.unions).map fun i => s!"  union{i}: Union{i}!\n") ++ "\x7d\n\n"

/-- The object type with index `i`. -/
def objectText (w : Synthetic) (i : Nat) : String :=
  s!"type Object{i} " ++ "\x7b\n  id: ID!\n" ++
    String.join ((List.range w.fields).map fun f =>
      s!"  field{f}: " ++ w.fieldType i f ++ "\n") ++ "\x7d\n\n"

/-- The union with index `i`. -/
def unionText (w : Synthetic) (i : Nat) : String :=
  s!"union Union{i} = Object{i % w.objects} | Object{(i + 1) % w.objects}\n\n"

/-- The schema document. Without objects there is nothing for a union to choose from, so there are
no unions either; the query type has its fields all the same. -/
def text (w : Synthetic) : String :=
  w.queryText ++ String.join ((List.range w.objects).map w.objectText) ++
    if w.objects = 0 then "" else String.join ((List.range w.unions).map w.unionText)

end Synthetic

end ResolverTypes.Workload
