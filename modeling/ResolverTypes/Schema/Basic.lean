import ResolverTypes.OrderedMap
import ResolverTypes.Schema.Definition

/-!
# Schemas

A schema is its type definitions in declaration order, an index that leads from a name to the
definition that the name stands for, and the root types that were named explicitly. A name may be
defined more than once: all definitions stay in the list, and the index leads to the last one.

The index is kept while definitions are added and is otherwise left alone, so a list of definitions
that is changed from outside needs `Schema.reindex` before look-ups speak of it again.
-/

namespace ResolverTypes

/-- The operations that a schema may have a root type for. -/
inductive Operation where
  | query
  | mutation
  | subscription
deriving DecidableEq, Repr

namespace Operation

/-- The operations in the order in which they are looked at. -/
def all : List Operation := [query, mutation, subscription]

def text : Operation → String
  | query => "query"
  | mutation => "mutation"
  | subscription => "subscription"

/-- The object type that serves the operation in a schema that names no root types. -/
def defaultTypeName : Operation → String
  | query => "Query"
  | mutation => "Mutation"
  | subscription => "Subscription"

theorem mem_all (op : Operation) : op ∈ all := by cases op <;> decide

end Operation

/-- The root types that are named explicitly, one at most per operation. -/
structure Roots where
  query : Option String := none
  mutation : Option String := none
  subscription : Option String := none
deriving DecidableEq, Repr

namespace Roots

def get? (r : Roots) : Operation → Option String
  | .query => r.query
  | .mutation => r.mutation
  | .subscription => r.subscription

/-- The roots with another choice for one operation. -/
def set (r : Roots) (op : Operation) (name : Option String) : Roots :=
  match op with
  | .query => { r with query := name }
  | .mutation => { r with mutation := name }
  | .subscription => { r with subscription := name }

/-- Whether a root type is named for at least one operation. -/
def isExplicit (r : Roots) : Bool := Operation.all.any fun op => (r.get? op).isSome

/-- The roots of a later definition on top of earlier ones: an operation that the later definition
does not name keeps its root. -/
def overlay (earlier later : Roots) : Roots where
  query := later.query <|> earlier.query
  mutation := later.mutation <|> earlier.mutation
  subscription := later.subscription <|> earlier.subscription

theorem get?_overlay (r s : Roots) (op : Operation) :
    (r.overlay s).get? op = (s.get? op <|> r.get? op) := by
  cases op <;> rfl

end Roots

/-- A schema: definitions, an index of their names, and explicit root types. -/
structure Schema where
  /-- The definitions in declaration order. -/
  types : List TypeDef := []
  /-- The root types that are named explicitly. -/
  roots : Roots := {}
  /-- The place in `types` of the definition that a name stands for. -/
  index : OrderedMap Nat := ∅

namespace Schema

instance : EmptyCollection Schema := ⟨{}⟩

instance : Inhabited Schema := ⟨∅⟩

/-- Adds a definition at the end. Its name stands for it from now on, also if it was taken. -/
def add (s : Schema) (d : TypeDef) : Schema :=
  { s with types := s.types ++ [d], index := s.index.insert d.name s.types.length }

/-- The schema with the given definitions added in order to an empty one. -/
def ofTypes (types : List TypeDef) (roots : Roots) : Schema :=
  types.foldl add { roots }

def find? (s : Schema) (name : String) : Option TypeDef :=
  (s.index.get? name).bind fun i => s.types[i]?

/-- Whether the name stands for a definition. -/
def contains (s : Schema) (name : String) : Bool := s.index.contains name

/-- Replaces the definition that the name stands for by its image under `f`. -/
def modify (s : Schema) (name : String) (f : TypeDef → TypeDef) : Schema :=
  match s.index.get? name with
  | some i => { s with types := s.types.modify i f }
  | none => s

/-- Changes the definition that the name stands for in place. What the change leaves of it stays in
the schema, also if the change ends in an error; a name that stands for nothing is an error of its
own. -/
def update {ε : Type} (name : String) (unknown : ε) (change : EStateM ε TypeDef Unit) :
    EStateM ε Schema Unit := fun s =>
  match s.find? name with
  | none => .error unknown s
  | some d =>
    match change.run d with
    | .ok () d' => .ok () (s.modify name fun _ => d')
    | .error e d' => .error e (s.modify name fun _ => d')

theorem run_update {ε : Type} (name : String) (unknown : ε) (change : EStateM ε TypeDef Unit)
    (s : Schema) : (update name unknown change).run s =
      match s.find? name with
      | none => .error unknown s
      | some d =>
        match change.run d with
        | .ok () d' => .ok () (s.modify name fun _ => d')
        | .error e d' => .error e (s.modify name fun _ => d') := rfl

/-- The index that leads from every name to the last definition of that name. -/
def indexOf (types : List TypeDef) : OrderedMap Nat :=
  types.zipIdx.foldl (fun m (d, i) => m.insert d.name i) ∅

def reindex (s : Schema) : Schema := { s with index := indexOf s.types }

/-- Drops all definitions of the name and leaves the index as it is. -/
def dropDefinitions (s : Schema) (name : String) : Schema :=
  { s with types := s.types.filter fun d => d.name ≠ name }

/-- The names of all definitions of one kind, in declaration order. -/
def namesOfKind (s : Schema) (kind : TypeKind) : List String :=
  (s.types.filter fun d => d.kind = kind).map (·.name)

def isObject (s : Schema) (name : String) : Bool :=
  (s.find? name).any fun d => d.kind = .object

/-- The root type of the operation. A schema that names any root type explicitly has no others;
otherwise an object type of the default name is the root. -/
def rootName? (s : Schema) (op : Operation) : Option String :=
  if s.roots.isExplicit then s.roots.get? op
  else if s.isObject op.defaultTypeName then some op.defaultTypeName
  else none

/-- The operation that the type of that name is the root of. If it is the root of several, the first
in the order of `Operation.all` counts. -/
def operationOf? (s : Schema) (name : String) : Option Operation :=
  Operation.all.find? fun op => s.rootName? op = some name

end Schema

end ResolverTypes
