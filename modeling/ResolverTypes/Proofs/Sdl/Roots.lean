import ResolverTypes.Proofs.Sdl.Names

/-!
# The roots that a document names

A document names roots in one schema definition at most and in any number of extensions of one, and
a later assignment takes the place of an earlier one. What is not named may have a default: an
object type of the usual name. `rootByRule?` lets the default stand unless there is a schema
definition. A schema lets it stand unless any root is named, so an extension that names one
operation takes the defaults of the others away (`Displaced`), and this is the only difference
between the two (`Schema.rootName?_eq_rootByRule?_iff`).
-/

namespace ResolverTypes

theorem Roots.isExplicit_iff {r : Roots} :
    r.isExplicit = true ↔ ∃ op name, r.get? op = some name := by
  unfold isExplicit
  rw [List.any_eq_true]
  simp only [Option.isSome_iff_exists]
  exact ⟨fun ⟨op, _, named⟩ => ⟨op, named⟩, fun ⟨op, named⟩ => ⟨op, op.mem_all, named⟩⟩

namespace Sdl

/-! ## Roots by rule -/

/-- Whether an object type of the name is defined. -/
def DefinesObject (definitions : List Definition) (name : String) : Prop :=
  ∃ d ∈ bases definitions, d.kind = .object ∧ d.name = name

instance (definitions : List Definition) (name : String) :
    Decidable (DefinesObject definitions name) :=
  inferInstanceAs (Decidable (∃ d ∈ bases definitions, d.kind = .object ∧ d.name = name))

/-- The root that was assigned to the operation last. Without one it is the object type of the usual
name, if there is one and no schema definition. -/
def rootByRule? (definitions : List Definition) (op : Operation) : Option String :=
  match lastRoot definitions op with
  | some name => some name
  | none =>
    if DefinesObject definitions op.defaultTypeName ∧ ∀ d ∈ definitions, d.isSchema = false then
      some op.defaultTypeName
    else none

/-- Whether the operation has its root by default, and extensions of a schema that is not defined
name the root of another one. -/
structure Displaced (definitions : List Definition) (op : Operation) : Prop where
  unnamed : lastRoot definitions op = none
  default : DefinesObject definitions op.defaultTypeName
  undefined : ∀ d ∈ definitions, d.isSchema = false
  other : ∃ other name, lastRoot definitions other = some name

theorem isExplicit_assignedRoots {definitions : List Definition} :
    (assignedRoots definitions).isExplicit = true ↔
      ∃ op name, lastRoot definitions op = some name := by
  simp only [Roots.isExplicit_iff, get?_assignedRoots]

theorem lastRoot_of_not_isExplicit {definitions : List Definition}
    (bare : ¬(assignedRoots definitions).isExplicit = true) (op : Operation) :
    lastRoot definitions op = none := by
  by_contra named
  obtain ⟨name, named⟩ := Option.ne_none_iff_exists'.mp named
  exact bare (isExplicit_assignedRoots.mpr ⟨op, name, named⟩)

theorem exists_lastRoot {definitions : List Definition} {d : Definition} (hd : d ∈ definitions)
    {roots : Roots} (assigns : d.roots? = some roots) {op : Operation} {name : String}
    (named : roots.get? op = some name) : ∃ last, lastRoot definitions op = some last := by
  have there : name ∈ definitions.filterMap fun d => d.roots?.bind (·.get? op) :=
    List.mem_filterMap.mpr ⟨d, hd, by rw [assigns, Option.bind_some, named]⟩
  exact ⟨_, List.getLast?_eq_some_getLast (List.ne_nil_of_mem there)⟩

/-- A document with a schema definition names a root for queries. -/
theorem exists_query_root {text : String} {definitions : List Definition}
    (read : Sdl.definitions text = .ok definitions) {d : Definition} (hd : d ∈ definitions)
    (schema : d.isSchema = true) : ∃ name, lastRoot definitions .query = some name := by
  unfold Definition.isSchema at schema
  split at schema
  · next roots =>
    unfold Sdl.definitions at read
    split at read
    · cases read
    · next drafts parsed =>
      obtain ⟨draft, -, checked⟩ := mem_of_mapM read hd
      -- a schema definition that does not name it is refused when it is checked
      obtain ⟨_, _, -, same⟩ | ⟨_, _, _, -, -, named, same⟩ | ⟨-, same⟩ := Draft.check_cases checked
      · cases same
      · cases same
        obtain ⟨name, named⟩ := Option.isSome_iff_exists.mp (named.resolve_left nofun)
        exact exists_lastRoot hd rfl named
      · cases same
  · cases schema

/-! ## Without one of the extensions -/

theorem repetitionsAfter_append (earlier l m : List Definition) :
    repetitionsAfter earlier (l ++ m) =
      repetitionsAfter earlier l ++ repetitionsAfter (earlier ++ l) m := by
  induction l generalizing earlier with
  | nil => simp [repetitionsAfter]
  | cons d l ih => simp [repetitionsAfter, ih]

/-- What is repeated depends on the types and on whether there is a schema definition. -/
theorem repetitionsAfter_congr {earlier earlier' : List Definition}
    (types : bases earlier = bases earlier')
    (schema : earlier.any (·.isSchema) = earlier'.any (·.isSchema)) (l : List Definition) :
    repetitionsAfter earlier l = repetitionsAfter earlier' l := by
  induction l generalizing earlier earlier' with
  | nil => rfl
  | cons d l ih =>
    have here : repetition? earlier d = repetition? earlier' d := by
      cases d with
      | type isExtension definition => cases isExtension <;> simp [repetition?, types]
      | schema isExtension roots => cases isExtension <;> simp only [repetition?, schema]
      | directive => rfl
    have next : repetitionsAfter (earlier ++ [d]) l = repetitionsAfter (earlier' ++ [d]) l :=
      ih (by rw [bases_concat, bases_concat, types]) (by simp only [List.any_append, schema])
    rw [repetitionsAfter, repetitionsAfter, here, next]

section Extension

variable {before after : List Definition} {roots : Roots}

theorem repetitions_without :
    repetitions (before ++ .schema true roots :: after) = repetitions (before ++ after) := by
  have same : repetitionsAfter (before ++ [.schema true roots]) after =
      repetitionsAfter before after :=
    repetitionsAfter_congr (by simp [bases_concat, Definition.base?]) (by simp [Definition.isSchema])
      after
  unfold repetitions
  rw [repetitionsAfter_append, repetitionsAfter_append, repetitionsAfter, List.nil_append, same]
  rfl

theorem bases_without : bases (before ++ .schema true roots :: after) = bases (before ++ after) := by
  simp [bases, Definition.base?]

theorem definesObject_without {name : String} :
    DefinesObject (before ++ .schema true roots :: after) name ↔
      DefinesObject (before ++ after) name := by
  rw [DefinesObject, bases_without, DefinesObject]

theorem extensions_without :
    extensions (before ++ .schema true roots :: after) = extensions (before ++ after) := by
  simp [extensions, Definition.extension?]

theorem lastRoot_without {op : Operation} (unnamed : roots.get? op = none) :
    lastRoot (before ++ .schema true roots :: after) op = lastRoot (before ++ after) op := by
  simp [lastRoot, Definition.roots?, unnamed]

theorem isExplicit_without :
    (assignedRoots (before ++ .schema true roots :: after)).isExplicit = true ↔
      roots.isExplicit = true ∨ (assignedRoots (before ++ after)).isExplicit = true := by
  have named {op : Operation} {name : String} (named : roots.get? op = some name) :
      ∃ op name, lastRoot (before ++ .schema true roots :: after) op = some name :=
    ⟨op, exists_lastRoot (d := .schema true roots) (by simp) rfl named⟩
  rw [isExplicit_assignedRoots, isExplicit_assignedRoots, Roots.isExplicit_iff]
  constructor
  · rintro ⟨op, name, assigned⟩
    cases here : roots.get? op with
    | some name => exact .inl ⟨op, name, here⟩
    | none => exact .inr ⟨op, name, lastRoot_without here ▸ assigned⟩
  · rintro (⟨op, name, here⟩ | ⟨op, name, assigned⟩)
    · exact named here
    · cases here : roots.get? op with
      | some name => exact named here
      | none => exact ⟨op, name, (lastRoot_without here).trans assigned⟩

end Extension

end Sdl

/-! ## Roots of a schema -/

namespace Schema

open Sdl

variable {definitions : List Definition} {s : Schema}

theorem isObject_of_ofDefinitions (described : ofDefinitions definitions = .ok s) {name : String} :
    s.isObject name = true ↔ DefinesObject definitions name := by
  have built : s.Built := Built.of_ofDefinitions described
  have nodup := nodup_of_ofDefinitions described
  rw [isObject, Option.any_eq_true]
  simp only [built.find?_eq_some_iff nodup, mem_types_of_ofDefinitions described, decide_eq_true_iff]
  constructor
  · rintro ⟨d, ⟨⟨base, hb, rfl⟩, named⟩, kind⟩
    exact ⟨base, hb, (TypeDef.kind_extendedBy base _).symm.trans kind, named⟩
  · rintro ⟨base, hb, kind, named⟩
    exact ⟨_, ⟨⟨base, hb, rfl⟩, named⟩, (TypeDef.kind_extendedBy base _).trans kind⟩

/-- The root of an operation. If any root is named there are no others. -/
theorem rootName?_of_ofDefinitions (described : ofDefinitions definitions = .ok s)
    (op : Operation) :
    s.rootName? op =
      if (assignedRoots definitions).isExplicit then lastRoot definitions op
      else if DefinesObject definitions op.defaultTypeName then some op.defaultTypeName
      else none := by
  obtain ⟨-, -, rfl⟩ := id (of_ofDefinitions described)
  unfold rootName?
  simp only [isObject_of_ofDefinitions described]
  rw [roots_ofTypes, get?_assignedRoots]

theorem rootName?_of_lastRoot (described : ofDefinitions definitions = .ok s) {op : Operation}
    {name : String} (named : lastRoot definitions op = some name) : s.rootName? op = some name := by
  rw [rootName?_of_ofDefinitions described, if_pos (isExplicit_assignedRoots.mpr ⟨op, name, named⟩),
    named]

/-- An operation whose root is not named has its default, unless any other root is named. -/
theorem rootName?_of_unnamed (described : ofDefinitions definitions = .ok s) {op : Operation}
    (unnamed : lastRoot definitions op = none) (name : String) :
    s.rootName? op = some name ↔ name = op.defaultTypeName ∧ DefinesObject definitions name ∧
      ∀ other, lastRoot definitions other = none := by
  rw [rootName?_of_ofDefinitions described, unnamed]
  by_cases explicit : (assignedRoots definitions).isExplicit = true
  · obtain ⟨other, root, named⟩ := isExplicit_assignedRoots.mp explicit
    rw [if_pos explicit]
    refine iff_of_false nofun fun ⟨_, _, bare⟩ => ?_
    rw [bare other] at named
    cases named
  · rw [if_neg explicit, Option.ite_none_right_eq_some, Option.some.injEq]
    constructor
    · rintro ⟨default, rfl⟩
      exact ⟨rfl, default, lastRoot_of_not_isExplicit explicit⟩
    · rintro ⟨rfl, default, -⟩
      exact ⟨default, rfl⟩

/-- Only what displaces the root of an operation comes between the schema and the rule. -/
theorem rootName?_eq_rootByRule?_iff (described : ofDefinitions definitions = .ok s)
    (query : ∀ d ∈ definitions, d.isSchema = true →
      ∃ name, lastRoot definitions .query = some name) {op : Operation} :
    s.rootName? op = rootByRule? definitions op ↔ ¬Displaced definitions op := by
  cases named : lastRoot definitions op with
  | some name =>
    rw [rootName?_of_lastRoot described named, rootByRule?, named]
    exact iff_of_true rfl fun displaced => by simp [displaced.unnamed] at named
  | none =>
    rw [rootByRule?, named]
    constructor
    · rintro same ⟨-, default, undefined, other, root, assigned⟩
      simp only [if_pos (And.intro default undefined)] at same
      have bare := ((rootName?_of_unnamed described named _).mp same).2.2 other
      rw [assigned] at bare
      cases bare
    · intro kept
      ext name
      simp only [rootName?_of_unnamed described named, Option.ite_none_right_eq_some,
        Option.some.injEq]
      constructor
      · rintro ⟨rfl, default, bare⟩
        refine ⟨⟨default, fun d hd => ?_⟩, rfl⟩
        by_contra schema
        obtain ⟨root, assigned⟩ := query d hd (by simpa using schema)
        rw [bare .query] at assigned
        cases assigned
      · rintro ⟨⟨default, undefined⟩, rfl⟩
        refine ⟨rfl, default, fun other => ?_⟩
        by_contra assigned
        obtain ⟨root, assigned⟩ := Option.ne_none_iff_exists'.mp assigned
        exact kept ⟨named, default, undefined, other, root, assigned⟩

/-- Without one of the extensions of the schema there are the same types. The extension takes the
defaults of the operations that it does not name if it is the only one to name any, and changes
nothing for them otherwise. -/
theorem ofDefinitions_without {before after : List Definition} {roots : Roots}
    (described : ofDefinitions (before ++ .schema true roots :: after) = .ok s) :
    ∃ s', ofDefinitions (before ++ after) = .ok s' ∧ s'.types = s.types ∧
      ∀ op, roots.get? op = none →
        s.rootName? op =
          if roots.isExplicit ∧ ¬s'.roots.isExplicit then none else s'.rootName? op := by
  obtain ⟨fresh, sound, same⟩ := of_ofDefinitions described
  rw [repetitions_without] at fresh
  rw [extensionFaults, bases_without, extensions_without] at sound
  have described' : ofDefinitions (before ++ after) =
      .ok (ofTypes (describedTypes (before ++ after)) (assignedRoots (before ++ after))) := by
    rw [ofDefinitions_eq, fresh, extensionFaults, sound]
  refine ⟨_, described', ?_, fun op unnamed => ?_⟩
  · simp only [same, types_ofTypes, describedTypes, bases_without, extensions_without]
  · rw [rootName?_of_ofDefinitions described, rootName?_of_ofDefinitions described', roots_ofTypes,
      lastRoot_without unnamed]
    simp only [isExplicit_without, definesObject_without]
    by_cases explicit : (assignedRoots (before ++ after)).isExplicit = true
    · simp [explicit]
    · simp [explicit, lastRoot_of_not_isExplicit explicit op]

/-- The roots of a schema that a document describes. A root that is named stands as it was assigned
last. One that is not named is the default if no root is named at all. This is what the rule says
exactly for the operations whose root is not displaced. -/
theorem roots_of_document {text : String} (described : ofDocument text = .ok s) :
    ∃ definitions, Sdl.definitions text = .ok definitions ∧
      (∀ op name, lastRoot definitions op = some name → s.rootName? op = some name) ∧
      (∀ op name, lastRoot definitions op = none → (s.rootName? op = some name ↔
        name = op.defaultTypeName ∧ DefinesObject definitions name ∧
          ∀ other, lastRoot definitions other = none)) ∧
      (∀ op, s.rootName? op = rootByRule? definitions op ↔ ¬Displaced definitions op) ∧
      ∀ before roots after, definitions = before ++ .schema true roots :: after →
        ∃ s', ofDefinitions (before ++ after) = .ok s' ∧ s'.types = s.types ∧
          ∀ op, roots.get? op = none →
            s.rootName? op =
              if roots.isExplicit ∧ ¬s'.roots.isExplicit then none else s'.rootName? op := by
  obtain ⟨definitions, read, described⟩ := of_ofDocument described
  refine ⟨definitions, read, fun _ _ => rootName?_of_lastRoot described,
    fun _ name unnamed => rootName?_of_unnamed described unnamed name,
    fun _ => rootName?_eq_rootByRule?_iff described fun _ => exists_query_root read, ?_⟩
  rintro before roots after rfl
  exact ofDefinitions_without described

/-- A definition with two extensions: a root that is assigned twice, and an object of a usual name
that is no root. -/
theorem roots_of_document_example :
    let text := "extend schema { query: R mutation: M } type M { b: Int }
      schema { query: Q } type Q { a: M } extend schema { mutation: Q } type Subscription { a: M }"
    ∃ s, ofDocument text = .ok s ∧ s.rootName? .query = some "Q" ∧
      s.rootName? .mutation = some "Q" ∧ s.rootName? .subscription = none := by
  intro text
  let object (name : String) (field : Field) : TypeDef := ⟨name, none, .object [] [field]⟩
  let definitions : List Sdl.Definition :=
    [.schema true { query := some "R", mutation := some "M" },
      .type false (object "M" { name := "b", type := .named "Int" }),
      .schema false { query := some "Q" },
      .type false (object "Q" { name := "a", type := .named "M" }),
      .schema true { mutation := some "Q" },
      .type false (object "Subscription" { name := "a", type := .named "M" })]
  have read : Sdl.definitions text = .ok definitions := by decide +kernel
  have described := (ofDocument_eq read).trans (ofDefinitions_eq definitions)
  obtain ⟨definitions', read', named, unnamed, -⟩ := roots_of_document described
  obtain rfl : definitions' = definitions := Except.ok.inj (read'.symm.trans read)
  refine ⟨_, described, named .query "Q" rfl, named .mutation "Q" rfl, ?_⟩
  rw [Option.eq_none_iff_forall_ne_some]
  intro name root
  cases ((unnamed .subscription name rfl).mp root).2.2 .query

/-- An extension that names the root for mutations only: the object type for queries is a root
without it and by the rule, and is none with it. -/
theorem roots_displaced :
    let types := "type Query { a: Int } type M { b: Int } "
    let extended := types ++ "extend schema { mutation: M }"
    (∃ s, ofDocument types = .ok s ∧ s.rootName? .query = some "Query") ∧
    ∃ s definitions, ofDocument extended = .ok s ∧ Sdl.definitions extended = .ok definitions ∧
      rootByRule? definitions .query = some "Query" ∧
      s.rootName? .query = none ∧ s.rootName? .mutation = some "M" := by
  intro types extended
  let object (name : String) (field : Field) : TypeDef := ⟨name, none, .object [] [field]⟩
  let definitions : List Sdl.Definition :=
    [.type false (object "Query" { name := "a", type := .named "Int" }),
      .type false (object "M" { name := "b", type := .named "Int" })]
  have read : Sdl.definitions types = .ok definitions := by decide +kernel
  have extendedRead : Sdl.definitions extended =
    .ok (definitions ++ [.schema true { mutation := some "M" }]) := by decide +kernel
  exact ⟨⟨_, (ofDocument_eq read).trans (ofDefinitions_eq definitions), rfl⟩, _, _,
    (ofDocument_eq extendedRead).trans (ofDefinitions_eq _), extendedRead, rfl, rfl, rfl⟩

end Schema

end ResolverTypes
