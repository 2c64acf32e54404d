import Mathlib.Data.List.Nodup
import ResolverTypes.Proofs.Schema.Index

/-!
# What a list of definitions describes

`Schema.ofDefinitions` is a loop over the definitions followed by a loop over the extensions that
the first loop set aside. Here its outcome is read off the list without running either:

* **repetitions** — a type or a schema definition that an earlier one has made superfluous. The
  first of them decides, and no extension can come before it (`repetitions`);
* **faults** — an extension without a base, or of another kind than its base. With no repetition the
  first of them decides (`extensionFaults`);
* **content** — with neither, the types are the base definitions in order, each followed by the
  content of its extensions in order (`describedTypes`), and each operation has the root that was
  assigned to it last (`assignedRoots`).

Both loops carry the same invariant: what has been built so far is what the definitions taken so far
describe (`Assembly.take_of`, `extend_extendedTypes`).
-/

namespace ResolverTypes

/-! ## Definitions by what they are -/

namespace Sdl

/-- The type that the definition introduces. -/
def Definition.base? : Definition → Option TypeDef
  | .type false d => some d
  | _ => none

/-- The extension of a type that the definition is. -/
def Definition.extension? : Definition → Option TypeDef
  | .type true d => some d
  | _ => none

/-- The roots that a schema definition assigns, or an extension of one. -/
def Definition.roots? : Definition → Option Roots
  | .schema _ roots => some roots
  | _ => none

/-- Whether the definition is a schema definition and no extension of one. -/
def Definition.isSchema : Definition → Bool
  | .schema false _ => true
  | _ => false

/-- The base definitions of types, in document order. -/
def bases (definitions : List Definition) : List TypeDef := definitions.filterMap (·.base?)

/-- The extensions of types, in document order. -/
def extensions (definitions : List Definition) : List TypeDef :=
  definitions.filterMap (·.extension?)

/-- The root that was assigned to the operation last. -/
def lastRoot (definitions : List Definition) (op : Operation) : Option String :=
  (definitions.filterMap fun d => d.roots?.bind (·.get? op)).getLast?

/-- The roots that were assigned last. -/
def assignedRoots (definitions : List Definition) : Roots where
  query := lastRoot definitions .query
  mutation := lastRoot definitions .mutation
  subscription := lastRoot definitions .subscription

/-! ## Repetitions -/

/-- The error that a definition is, if an earlier one is of the same thing. -/
def repetition? (earlier : List Definition) : Definition → Option Error
  | .type false d =>
    if d.name ∈ (bases earlier).map (·.name) then some (.duplicateDefinition "type" d.name)
    else none
  | .schema false _ =>
    if earlier.any (·.isSchema) then some (.duplicateDefinition "schema" "schema") else none
  | _ => none

/-- The repetitions among the definitions, which stand behind `earlier` ones. -/
def repetitionsAfter (earlier : List Definition) : List Definition → List Error
  | [] => []
  | d :: rest => (repetition? earlier d).toList ++ repetitionsAfter (earlier ++ [d]) rest

/-- The repetitions of a document, in document order. -/
def repetitions (definitions : List Definition) : List Error := repetitionsAfter [] definitions

/-! ## Faults of extensions -/

/-- The error that an extension is, unless it has a base of its kind. -/
def extensionFault? (bases : List TypeDef) (extension : TypeDef) : Option Error :=
  match bases.find? fun d => d.name = extension.name with
  | none => some (.unknownExtension extension.name)
  | some base =>
    if base.kind = extension.kind then none
    else some (.extensionKindMismatch extension.name base.kind.text extension.kind.text)

/-- The faults of the extensions of a document, in document order. -/
def extensionFaults (definitions : List Definition) : List Error :=
  (extensions definitions).filterMap (extensionFault? (bases definitions))

end Sdl

/-! ## Content -/

/-- The definition followed by the content of extensions. Name, description and kind stay. -/
def TypeDef.extendedBy (d : TypeDef) (extensions : List TypeDef) : TypeDef :=
  { d with
    body :=
      match d.body with
      | .object interfaces fields =>
        .object (interfaces ++ extensions.flatMap (·.interfaces))
          (fields ++ extensions.flatMap (·.fields))
      | .interface interfaces fields =>
        .interface (interfaces ++ extensions.flatMap (·.interfaces))
          (fields ++ extensions.flatMap (·.fields))
      | .union members => .union (members ++ extensions.flatMap (·.members))
      | .scalar => .scalar
      | .enum values => .enum (values ++ extensions.flatMap (·.body.values))
      | .inputObject fields => .inputObject (fields ++ extensions.flatMap (·.body.inputFields)) }

/-- The base definitions, each with the content of those extensions that name it. -/
def Sdl.extendedTypes (bases extensions : List TypeDef) : List TypeDef :=
  bases.map fun d => d.extendedBy (extensions.filter fun e => e.name = d.name)

/-- The types that the definitions describe. -/
def Sdl.describedTypes (definitions : List Sdl.Definition) : List TypeDef :=
  extendedTypes (bases definitions) (extensions definitions)

namespace TypeDef

@[simp] theorem name_extendedBy (d : TypeDef) (extensions : List TypeDef) :
    (d.extendedBy extensions).name = d.name := rfl

@[simp] theorem kind_extendedBy (d : TypeDef) (extensions : List TypeDef) :
    (d.extendedBy extensions).kind = d.kind := by
  obtain ⟨name, description, body⟩ := d
  cases body <;> rfl

@[simp] theorem extendedBy_nil (d : TypeDef) : d.extendedBy [] = d := by
  obtain ⟨name, description, body⟩ := d
  cases body <;> simp [extendedBy]

theorem kind_of_mem_members {d : TypeDef} {name : String} (member : name ∈ d.members) :
    d.kind = .union := by
  obtain ⟨typeName, description, body⟩ := d
  cases body with
  | union members => rfl
  | object | interface | scalar | enum | inputObject => cases member

theorem kind_of_mem_values {d : TypeDef} {v : EnumValue} (member : v ∈ d.body.values) :
    d.kind = .enum := by
  obtain ⟨name, description, body⟩ := d
  cases body with
  | enum values => rfl
  | object | interface | union | scalar | inputObject => cases member

/-- A union has its own members in front of those of its extensions. -/
theorem members_extendedBy {d : TypeDef} (extensions : List TypeDef) (union : d.kind = .union) :
    (d.extendedBy extensions).members = d.members ++ extensions.flatMap (·.members) := by
  obtain ⟨name, description, body⟩ := d
  cases body with
  | union members => rfl
  | object | interface | scalar | enum | inputObject => cases union

/-- An object or interface has its own fields in front of those of its extensions. -/
theorem fields_extendedBy {d : TypeDef} (extensions : List TypeDef)
    (fielded : d.kind ∈ [.object, .interface]) :
    (d.extendedBy extensions).fields = d.fields ++ extensions.flatMap (·.fields) := by
  obtain ⟨name, description, body⟩ := d
  cases body with
  | object | interface => rfl
  | union | scalar | enum | inputObject => simp [kind, TypeBody.kind] at fielded

/-- An enum has its own values in front of those of its extensions. -/
theorem values_extendedBy {d : TypeDef} (extensions : List TypeDef) (enum : d.kind = .enum) :
    (d.extendedBy extensions).body.values =
      d.body.values ++ extensions.flatMap (·.body.values) := by
  obtain ⟨name, description, body⟩ := d
  cases body with
  | enum values => rfl
  | object | interface | union | scalar | inputObject => cases enum

/-- One more extension of the kind of the type is one more body joined to that of the type. -/
theorem append?_extendedBy {d e : TypeDef} (extensions : List TypeDef) (kinds : d.kind = e.kind) :
    (d.extendedBy extensions).body.append? e.body =
      some (d.extendedBy (extensions ++ [e])).body := by
  obtain ⟨name, description, body⟩ := d
  obtain ⟨name', description', body'⟩ := e
  -- bodies of different kinds are ruled out, those of one kind are joined list by list
  cases body <;> cases body' <;> simp only [kind, TypeBody.kind, reduceCtorEq] at kinds <;>
    simp [extendedBy, TypeBody.append?, interfaces, fields, members, TypeBody.interfaces,
      TypeBody.fields, TypeBody.members, TypeBody.values, TypeBody.inputFields]

end TypeDef

theorem Sdl.map_name_extendedTypes (bases extensions : List TypeDef) :
    (extendedTypes bases extensions).map (·.name) = bases.map (·.name) := by
  simp [extendedTypes, Function.comp_def]

/-- Roots that agree on every operation are the same. -/
theorem Roots.ext_get? {r s : Roots} (agree : ∀ op, r.get? op = s.get? op) : r = s := by
  obtain ⟨q, m, sub⟩ := r
  obtain ⟨q', m', sub'⟩ := s
  have query : q = q' := agree .query
  have mutation : m = m' := agree .mutation
  have subscription : sub = sub' := agree .subscription
  rw [query, mutation, subscription]

namespace Sdl

theorem get?_assignedRoots (definitions : List Definition) (op : Operation) :
    (assignedRoots definitions).get? op = lastRoot definitions op := by
  cases op <;> rfl

/-- A later assignment takes the place of an earlier one. -/
theorem lastRoot_concat (definitions : List Definition) (d : Definition) (op : Operation) :
    lastRoot (definitions ++ [d]) op =
      ((d.roots?.bind (·.get? op)) <|> lastRoot definitions op) := by
  unfold lastRoot
  rw [List.filterMap_append, List.getLast?_append, List.filterMap_cons, List.filterMap_nil]
  cases d.roots?.bind (·.get? op) <;> rfl

theorem assignedRoots_concat_of_none (definitions : List Definition) {d : Definition}
    (none : d.roots? = none) :
    assignedRoots (definitions ++ [d]) = assignedRoots definitions := by
  apply Roots.ext_get?
  intro op
  rw [get?_assignedRoots, get?_assignedRoots, lastRoot_concat, none]
  rfl

theorem assignedRoots_concat_schema (definitions : List Definition) (isExtension : Bool)
    (roots : Roots) :
    assignedRoots (definitions ++ [.schema isExtension roots]) =
      (assignedRoots definitions).overlay roots := by
  apply Roots.ext_get?
  intro op
  rw [get?_assignedRoots, Roots.get?_overlay, get?_assignedRoots, lastRoot_concat]
  rfl

theorem bases_concat (definitions : List Definition) (d : Definition) :
    bases (definitions ++ [d]) = bases definitions ++ d.base?.toList := by
  unfold bases
  rw [List.filterMap_append]
  cases h : d.base? <;> simp [h]

theorem extensions_concat (definitions : List Definition) (d : Definition) :
    extensions (definitions ++ [d]) = extensions definitions ++ d.extension?.toList := by
  unfold extensions
  rw [List.filterMap_append]
  cases h : d.extension? <;> simp [h]

theorem mem_bases {definitions : List Definition} {d : TypeDef} :
    d ∈ bases definitions ↔ .type false d ∈ definitions := by
  unfold bases
  rw [List.mem_filterMap]
  constructor
  · rintro ⟨e, he, base⟩
    unfold Definition.base? at base
    split at base
    · exact Option.some.inj base ▸ he
    · cases base
  · exact fun hd => ⟨_, hd, rfl⟩

theorem mem_extensions {definitions : List Definition} {d : TypeDef} :
    d ∈ extensions definitions ↔ .type true d ∈ definitions := by
  unfold extensions
  rw [List.mem_filterMap]
  constructor
  · rintro ⟨e, he, extension⟩
    unfold Definition.extension? at extension
    split at extension
    · exact Option.some.inj extension ▸ he
    · cases extension
  · exact fun hd => ⟨_, hd, rfl⟩

/-! ## The first loop -/

/-- What the loop over the definitions has built once it has taken the given ones. -/
def Assembly.of (taken : List Definition) : Assembly where
  schema := .ofTypes (bases taken) (assignedRoots taken)
  extensions := Sdl.extensions taken
  hasSchemaDefinition := taken.any (·.isSchema)

theorem Assembly.of_nil : Assembly.of [] = {} := rfl

theorem Assembly.contains_of (taken : List Definition) (name : String) :
    (Assembly.of taken).schema.contains name = true ↔ name ∈ (bases taken).map (·.name) := by
  have built := Schema.built_ofTypes (bases taken) (assignedRoots taken)
  show (Schema.ofTypes (bases taken) (assignedRoots taken)).contains name = true ↔ _
  rw [built.contains_iff, Schema.types_ofTypes, List.mem_map]

theorem Assembly.of_concat_base (taken : List Definition) (d : TypeDef) :
    Assembly.of (taken ++ [.type false d]) =
      { Assembly.of taken with schema := (Assembly.of taken).schema.add d } := by
  unfold Assembly.of
  rw [assignedRoots_concat_of_none taken rfl, bases_concat, extensions_concat]
  simp [Definition.base?, Definition.extension?, Definition.isSchema, Schema.ofTypes_concat]

theorem Assembly.of_concat_extension (taken : List Definition) (d : TypeDef) :
    Assembly.of (taken ++ [.type true d]) =
      { Assembly.of taken with extensions := (Assembly.of taken).extensions ++ [d] } := by
  unfold Assembly.of
  rw [assignedRoots_concat_of_none taken rfl, bases_concat, extensions_concat]
  simp [Definition.base?, Definition.extension?, Definition.isSchema]

theorem Assembly.of_concat_directive (taken : List Definition) :
    Assembly.of (taken ++ [.directive]) = Assembly.of taken := by
  unfold Assembly.of
  rw [assignedRoots_concat_of_none taken rfl, bases_concat, extensions_concat]
  simp [Definition.base?, Definition.extension?, Definition.isSchema]

theorem Assembly.of_concat_schema (taken : List Definition) (isExtension : Bool)
    (roots : Roots) :
    Assembly.of (taken ++ [.schema isExtension roots]) =
      { Assembly.of taken with
        schema := { (Assembly.of taken).schema with
          roots := (Assembly.of taken).schema.roots.overlay roots }
        hasSchemaDefinition := (Assembly.of taken).hasSchemaDefinition || !isExtension } := by
  unfold Assembly.of
  rw [assignedRoots_concat_schema, bases_concat, extensions_concat,
    ← Schema.ofTypes_withRoots _ (assignedRoots taken)]
  cases isExtension <;> simp [Definition.base?, Definition.extension?, Definition.isSchema]

/-- One step of the loop: a repetition ends it, and anything else is taken as it is described. -/
theorem Assembly.take_of (taken : List Definition) (d : Definition) :
    (Assembly.of taken).take d =
      match repetition? taken d with
      | some e => .error e
      | none => .ok (Assembly.of (taken ++ [d])) := by
  cases d with
  | directive =>
    rw [of_concat_directive]
    rfl
  | schema isExtension roots =>
    rw [of_concat_schema]
    cases isExtension with
    | true => rfl
    | false =>
      simp only [take, repetition?]
      by_cases seen : taken.any (·.isSchema) = true
      · simp [Assembly.of, seen]
      · simp [Assembly.of, seen]
  | type isExtension definition =>
    cases isExtension with
    | true =>
      rw [of_concat_extension]
      rfl
    | false =>
      rw [of_concat_base]
      simp only [take, repetition?, contains_of]
      split <;> rfl

/-- The loop over definitions behind those that are taken already. -/
theorem Assembly.foldlM_take (taken rest : List Definition) :
    rest.foldlM Assembly.take (Assembly.of taken) =
      match repetitionsAfter taken rest with
      | e :: _ => .error e
      | [] => .ok (Assembly.of (taken ++ rest)) := by
  -- on what is left, for any prefix: `Assembly.of` is the invariant of the loop
  induction rest generalizing taken with
  | nil => simp [repetitionsAfter, pure, Except.pure]
  | cons d rest ih =>
    rw [List.foldlM_cons, take_of]
    unfold repetitionsAfter
    cases repetition? taken d with
    | some e => rfl
    | none =>
      show rest.foldlM Assembly.take (Assembly.of (taken ++ [d])) = _
      rw [ih (taken ++ [d]), List.append_assoc]
      rfl

/-- Without repetitions no two types have the same name. -/
theorem nodup_bases_of_repetitionsAfter (taken rest : List Definition)
    (none : repetitionsAfter taken rest = [])
    (nodup : ((bases taken).map (·.name)).Nodup) :
    ((bases (taken ++ rest)).map (·.name)).Nodup := by
  induction rest generalizing taken with
  | nil => simpa using nodup
  | cons d rest ih =>
    obtain ⟨here, later⟩ := List.append_eq_nil_iff.mp none
    have next : ((bases (taken ++ [d])).map (·.name)).Nodup := by
      rw [bases_concat, List.map_append, List.nodup_append]
      refine ⟨nodup, ?_, ?_⟩
      · cases d.base? <;> simp
      · -- a base definition that shared its name would have been a repetition
        intro a ha b hb same
        cases d with
        | directive => simp [Definition.base?] at hb
        | schema => simp [Definition.base?] at hb
        | type isExtension definition =>
          cases isExtension with
          | true => simp [Definition.base?] at hb
          | false =>
            have named : b = definition.name := by simpa [Definition.base?] using hb
            rw [repetition?, if_pos (named ▸ same ▸ ha)] at here
            simp at here
    simpa using ih (taken ++ [d]) later next

theorem nodup_bases {definitions : List Definition} (none : repetitions definitions = []) :
    ((bases definitions).map (·.name)).Nodup :=
  nodup_bases_of_repetitionsAfter [] definitions none (by simp [bases])

/-! ## The second loop -/

theorem mem_extendedTypes {bases extensions : List TypeDef} {d : TypeDef} :
    d ∈ extendedTypes bases extensions ↔
      ∃ base ∈ bases, base.extendedBy (extensions.filter fun e => e.name = base.name) = d :=
  List.mem_map

/-- Changing the body of one type is what one more extension of that type describes. -/
theorem map_body_extendedTypes {bases : List TypeDef} (nodup : (bases.map (·.name)).Nodup)
    (applied : List TypeDef) {base e : TypeDef} (member : base ∈ bases)
    (named : base.name = e.name) {body : TypeBody}
    (joined : body =
      (base.extendedBy ((applied.filter fun x => x.name = base.name) ++ [e])).body) :
    ((extendedTypes bases applied).map fun d => if d.name = e.name then { d with body } else d) =
      extendedTypes bases (applied ++ [e]) := by
  unfold extendedTypes
  rw [List.map_map]
  apply List.map_congr_left
  intro d hd
  rw [Function.comp_apply, TypeDef.name_extendedBy]
  by_cases same : d.name = e.name
  · -- names are distinct, so this is the only definition that the name stands for
    obtain rfl : d = base := List.inj_on_of_nodup_map nodup hd member (same.trans named.symm)
    rw [if_pos same, joined]
    simp [same, TypeDef.extendedBy]
  · have other : ¬e.name = d.name := fun h => same h.symm
    rw [if_neg same]
    simp [List.filter_append, other]

/-- A name stands for its base definition with the content applied so far. -/
theorem find?_extendedTypes {bases : List TypeDef} (nodup : (bases.map (·.name)).Nodup)
    (roots : Roots) (applied : List TypeDef) (name : String) :
    (Schema.ofTypes (extendedTypes bases applied) roots).find? name =
      (bases.find? fun d => d.name = name).map fun base =>
        base.extendedBy (applied.filter fun e => e.name = base.name) := by
  have built := Schema.built_ofTypes (extendedTypes bases applied) roots
  have names : ((Schema.ofTypes (extendedTypes bases applied) roots).types.map (·.name)).Nodup := by
    rw [Schema.types_ofTypes, map_name_extendedTypes]
    exact nodup
  cases found : bases.find? fun d => d.name = name with
  | none =>
    rw [Option.map_none, Option.eq_none_iff_forall_ne_some]
    intro d hd
    obtain ⟨member, named⟩ := built.mem_of_find? hd
    rw [Schema.types_ofTypes, mem_extendedTypes] at member
    obtain ⟨base, member, rfl⟩ := member
    exact absurd named (by simpa using List.find?_eq_none.mp found base member)
  | some base =>
    have named : base.name = name := by simpa using List.find?_some found
    rw [Option.map_some, built.find?_eq_some_iff names, Schema.types_ofTypes]
    exact ⟨mem_extendedTypes.mpr ⟨base, List.mem_of_find?_eq_some found, rfl⟩, named⟩

/-- One step of the loop: a fault ends it, and any other extension is applied as described. -/
theorem extend_extendedTypes {bases : List TypeDef} (nodup : (bases.map (·.name)).Nodup)
    (roots : Roots) (applied : List TypeDef) (e : TypeDef) :
    (Schema.ofTypes (extendedTypes bases applied) roots).extend e =
      match extensionFault? bases e with
      | some error => .error error
      | none => .ok (.ofTypes (extendedTypes bases (applied ++ [e])) roots) := by
  have built := Schema.built_ofTypes (extendedTypes bases applied) roots
  have names : ((Schema.ofTypes (extendedTypes bases applied) roots).types.map (·.name)).Nodup := by
    rw [Schema.types_ofTypes, map_name_extendedTypes]
    exact nodup
  have known := find?_extendedTypes nodup roots applied e.name
  unfold extensionFault?
  cases found : bases.find? fun d => d.name = e.name with
  | none =>
    rw [found] at known
    rw [Schema.extend_eq, known]
    rfl
  | some base =>
    have member := List.mem_of_find?_eq_some found
    have named : base.name = e.name := by simpa using List.find?_some found
    rw [found, Option.map_some] at known
    -- kinds never change, so earlier extensions do not matter for the comparison
    by_cases kinds : base.kind = e.kind
    · have joined := TypeDef.append?_extendedBy
        (applied.filter fun x => x.name = base.name) kinds
      have step := Schema.extend_eq_ok_iff.mpr ⟨_, _, known, joined, rfl⟩
      simp only [if_pos kinds]
      rw [step, (built.extend e step).eq_ofTypes, Schema.roots_modify, Schema.roots_ofTypes,
        built.types_modify names, Schema.types_ofTypes,
        map_body_extendedTypes nodup applied member named rfl]
    · simp only [if_neg kinds]
      have apart := TypeBody.append?_eq_none_iff (b := (base.extendedBy
        (applied.filter fun x => x.name = base.name)).body) (c := e.body)
      rw [Schema.extend_eq, known]
      simp only [apart.mpr (by
        show (base.extendedBy _).kind ≠ e.kind
        rwa [TypeDef.kind_extendedBy]), TypeDef.kind_extendedBy]

/-- The loop over extensions behind those that are applied already. -/
theorem foldlM_extend {bases : List TypeDef} (nodup : (bases.map (·.name)).Nodup)
    (roots : Roots) (applied rest : List TypeDef) :
    rest.foldlM Schema.extend (Schema.ofTypes (extendedTypes bases applied) roots) =
      match rest.filterMap (extensionFault? bases) with
      | e :: _ => .error e
      | [] => .ok (.ofTypes (extendedTypes bases (applied ++ rest)) roots) := by
  -- the invariant is that the types are those extended by what is applied so far
  induction rest generalizing applied with
  | nil => simp [pure, Except.pure]
  | cons e rest ih =>
    rw [List.foldlM_cons, extend_extendedTypes nodup, List.filterMap_cons]
    cases extensionFault? bases e with
    | some error => rfl
    | none =>
      show rest.foldlM Schema.extend _ = _
      rw [ih (applied ++ [e]), List.append_assoc]
      rfl

end Sdl

/-! ## The outcome -/

namespace Schema

open Sdl

/-- The first repetition decides, then the first fault; otherwise the content is as described. -/
theorem ofDefinitions_eq (definitions : List Definition) :
    ofDefinitions definitions =
      match repetitions definitions, extensionFaults definitions with
      | e :: _, _ => .error e
      | [], e :: _ => .error e
      | [], [] => .ok (ofTypes (describedTypes definitions) (assignedRoots definitions)) := by
  have first := Assembly.foldlM_take [] definitions
  rw [Assembly.of_nil, List.nil_append] at first
  unfold ofDefinitions
  rw [first]
  cases none : repetitions definitions with
  | cons e rest =>
    rw [repetitions] at none
    rw [none]
    rfl
  | nil =>
    have second := foldlM_extend (nodup_bases none) (assignedRoots definitions) []
      (extensions definitions)
    rw [repetitions] at none
    rw [none]
    rw [show extendedTypes (bases definitions) [] = bases definitions by
      simp [extendedTypes]] at second
    show (extensions definitions).foldlM extend
      (ofTypes (bases definitions) (assignedRoots definitions)) = _
    rw [second]
    unfold extensionFaults
    cases (extensions definitions).filterMap (extensionFault? (bases definitions)) <;> rfl

/-- What a list of definitions describes, if it describes anything. -/
theorem of_ofDefinitions {definitions : List Definition} {s : Schema}
    (described : ofDefinitions definitions = .ok s) :
    repetitions definitions = [] ∧ extensionFaults definitions = [] ∧
      s = ofTypes (describedTypes definitions) (assignedRoots definitions) := by
  rw [ofDefinitions_eq] at described
  split at described
  · cases described
  · cases described
  · next none sound =>
    injection described with same
    exact ⟨none, sound, same.symm⟩

/-- What an extension of a described schema extends. -/
theorem exists_base {definitions : List Definition} (sound : extensionFaults definitions = [])
    {e : TypeDef} (he : e ∈ extensions definitions) :
    ∃ base ∈ bases definitions, base.name = e.name ∧ base.kind = e.kind := by
  have none := List.filterMap_eq_nil_iff.mp sound e he
  unfold extensionFault? at none
  cases found : (bases definitions).find? fun d => d.name = e.name with
  | none =>
    rw [found] at none
    cases none
  | some base =>
    rw [found] at none
    have named : base.name = e.name := by simpa using List.find?_some found
    refine ⟨base, List.mem_of_find?_eq_some found, named, ?_⟩
    by_contra kinds
    simp [kinds] at none

/-- What a list of definitions describes is built by the operations on schemas. -/
theorem Built.of_ofDefinitions {definitions : List Definition} {s : Schema}
    (described : ofDefinitions definitions = .ok s) : s.Built := by
  obtain ⟨-, -, rfl⟩ := Schema.of_ofDefinitions described
  exact built_ofTypes _ _

/-- A schema that is described has no two types of one name. -/
theorem nodup_of_ofDefinitions {definitions : List Definition} {s : Schema}
    (described : ofDefinitions definitions = .ok s) : (s.types.map (·.name)).Nodup := by
  obtain ⟨none, -, rfl⟩ := of_ofDefinitions described
  rw [types_ofTypes, describedTypes, map_name_extendedTypes]
  exact nodup_bases none

/-- A described type is a base definition with the content of its extensions. -/
theorem mem_types_of_ofDefinitions {definitions : List Definition} {s : Schema}
    (described : ofDefinitions definitions = .ok s) {d : TypeDef} :
    d ∈ s.types ↔ ∃ base ∈ bases definitions,
      base.extendedBy ((extensions definitions).filter fun e => e.name = base.name) = d := by
  obtain ⟨-, -, rfl⟩ := of_ofDefinitions described
  rw [types_ofTypes]
  exact mem_extendedTypes

/-- The members of unions are those that a definition or an extension of one lists. -/
theorem exists_member_iff {definitions : List Definition} {s : Schema}
    (described : ofDefinitions definitions = .ok s) {name : String} :
    (∃ d ∈ s.types, name ∈ d.members) ↔
      ∃ isExtension d, Definition.type isExtension d ∈ definitions ∧ name ∈ d.members := by
  constructor
  · rintro ⟨d, hd, member⟩
    obtain ⟨base, hb, rfl⟩ := (mem_types_of_ofDefinitions described).mp hd
    have union := TypeDef.kind_of_mem_members member
    rw [TypeDef.kind_extendedBy] at union
    rw [TypeDef.members_extendedBy _ union, List.mem_append, List.mem_flatMap] at member
    rcases member with member | ⟨e, he, member⟩
    · exact ⟨false, base, mem_bases.mp hb, member⟩
    · exact ⟨true, e, mem_extensions.mp (List.mem_filter.mp he).1, member⟩
  · rintro ⟨isExtension, d, hd, member⟩
    have union := TypeDef.kind_of_mem_members member
    -- either way there is a base, and what it is extended by holds the member if it does not
    have described_base {base : TypeDef} (hb : base ∈ bases definitions) (kind : base.kind = .union)
        (here : name ∈ base.members ∨ d.name = base.name ∧ d ∈ extensions definitions) :
        ∃ d ∈ s.types, name ∈ d.members := by
      refine ⟨_, (mem_types_of_ofDefinitions described).mpr ⟨base, hb, rfl⟩, ?_⟩
      rw [TypeDef.members_extendedBy _ kind, List.mem_append, List.mem_flatMap]
      refine here.imp id ?_
      rintro ⟨named, he⟩
      exact ⟨d, List.mem_filter.mpr ⟨he, decide_eq_true named⟩, member⟩
    cases isExtension with
    | false => exact described_base (mem_bases.mpr hd) union (.inl member)
    | true =>
      have he := mem_extensions.mpr hd
      obtain ⟨base, hb, named, kind⟩ := exists_base (of_ofDefinitions described).2.1 he
      exact described_base hb (kind.trans union) (.inr ⟨named.symm, he⟩)

theorem ofDocument_eq {text : String} {definitions : List Definition}
    (read : Sdl.definitions text = .ok definitions) :
    ofDocument text = ofDefinitions definitions := by
  rw [ofDocument, read]
  rfl

/-- A schema that a document describes comes from the definitions of the document. -/
theorem of_ofDocument {text : String} {s : Schema} (described : ofDocument text = .ok s) :
    ∃ definitions, Sdl.definitions text = .ok definitions ∧ ofDefinitions definitions = .ok s := by
  cases read : Sdl.definitions text with
  | error e =>
    rw [ofDocument, read] at described
    cases described
  | ok definitions => exact ⟨definitions, rfl, ofDocument_eq read ▸ described⟩

theorem Built.of_ofDocument {text : String} {s : Schema} (described : ofDocument text = .ok s) :
    s.Built := by
  obtain ⟨definitions, -, described⟩ := Schema.of_ofDocument described
  exact Built.of_ofDefinitions described

theorem nodup_of_ofDocument {text : String} {s : Schema} (described : ofDocument text = .ok s) :
    (s.types.map (·.name)).Nodup := by
  obtain ⟨definitions, -, described⟩ := Schema.of_ofDocument described
  exact nodup_of_ofDefinitions described

/-- The schema that a document describes. The first repetition of a type or schema definition is
its error, whatever the extensions are. Without one it is the first extension that has no base or
another kind than its base. Without that either, the types are the base definitions in order, no two
of one name, each with the content of its extensions behind its own, and each operation has the root
that was assigned to it last. -/
theorem ofDefinitions_describes (definitions : List Definition) :
    (∀ e rest, repetitions definitions = e :: rest → ofDefinitions definitions = .error e) ∧
    (∀ e rest, repetitions definitions = [] → extensionFaults definitions = e :: rest →
      ofDefinitions definitions = .error e) ∧
    (repetitions definitions = [] → extensionFaults definitions = [] →
      ∃ s, ofDefinitions definitions = .ok s ∧
        s.types = (bases definitions).map (fun d =>
          d.extendedBy ((extensions definitions).filter fun e => e.name = d.name)) ∧
        (s.types.map (·.name)).Nodup ∧ s.roots = assignedRoots definitions ∧ s.Built) := by
  rw [ofDefinitions_eq]
  refine ⟨?_, ?_, ?_⟩
  · intro e rest repeated
    rw [repeated]
  · intro e rest none faulty
    rw [none, faulty]
  · intro none sound
    rw [none, sound]
    refine ⟨_, rfl, types_ofTypes _ _, ?_, roots_ofTypes _ _, built_ofTypes _ _⟩
    rw [types_ofTypes, describedTypes, map_name_extendedTypes]
    exact nodup_bases none

/-- A repeated type behind an extension of nothing; a faulty extension in front of its base; and two
extensions around their base. -/
theorem ofDefinitions_describes_examples :
    ofDefinitions
        [.type true ⟨"B", none, .scalar⟩, .type false ⟨"A", none, .scalar⟩,
          .type false ⟨"A", none, .union ["X"]⟩] =
      .error (.duplicateDefinition "type" "A") ∧
    ofDefinitions
        [.type true ⟨"A", none, .union ["X"]⟩, .type true ⟨"B", none, .scalar⟩,
          .type false ⟨"A", none, .scalar⟩] =
      .error (.extensionKindMismatch "A" "scalar" "union") ∧
    ∃ s, ofDefinitions
        [.type true ⟨"U", none, .union ["X"]⟩, .type false ⟨"U", some "u", .union ["Y"]⟩,
          .schema true ⟨some "Q", none, none⟩, .type true ⟨"U", none, .union ["Z", "Y"]⟩] =
      .ok s ∧ s.types = [⟨"U", some "u", .union ["Y", "X", "Z", "Y"]⟩] ∧
        s.roots = ⟨some "Q", none, none⟩ := by
  refine ⟨?_, ?_, ?_⟩
  · exact (ofDefinitions_describes _).1 _ [] (by decide)
  · exact (ofDefinitions_describes _).2.1 _ [.unknownExtension "B"] (by decide) (by decide)
  · obtain ⟨s, described, types, -, roots, -⟩ := (ofDefinitions_describes
      [.type true ⟨"U", none, .union ["X"]⟩, .type false ⟨"U", some "u", .union ["Y"]⟩,
        .schema true ⟨some "Q", none, none⟩,
        .type true ⟨"U", none, .union ["Z", "Y"]⟩]).2.2 (by decide) (by decide)
    exact ⟨s, described, types.trans (by decide), roots.trans (by decide)⟩

end Schema

end ResolverTypes
