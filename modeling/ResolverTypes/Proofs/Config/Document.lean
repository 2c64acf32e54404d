import ResolverTypes.Config.Document
import ResolverTypes.Proofs.Json.Printing
import ResolverTypes.Proofs.OrderedMap

/-!
# Documents of a configuration

A configuration has many documents: its options may be written in any order, those that have their
default value may be left out, and members with other names may stand anywhere (`Writes`). All of
them are read as that configuration, in every spelling, unless it is rejected, and then they are
rejected for the same reason (`document_round_trips`).

While members are read, the configuration has its own values for the options that were written so
far and default values for the others (`partly`); each member adds its option (`step_of_writes`).
-/

namespace ResolverTypes.Config

/-! ## Ways to write a configuration -/

/-- Whether the value writes the override: a text for both types, or an object with a type for input
and one for output. -/
inductive WritesOverride : ScalarOverride → Json → Prop
  | uniform {type : String} : WritesOverride (.uniform type) (.ofString type)
  | split {input output : String} : WritesOverride (.split input output)
      (.ofMembers [("input", .ofString input), ("output", .ofString output)])
  | outputFirst {input output : String} : WritesOverride (.split input output)
      (.ofMembers [("output", .ofString output), ("input", .ofString input)])

/-- The names that options have in documents. -/
def optionNames : List String :=
  ["generateInternalResolversIfNeeded", "scalars", "defaultScalarType", "contextType",
    "rootValueType", "resolverTypeWrapperSignature", "maybeValue"]

/-- The values in an object under a name. -/
def valuesOf (name : String) (members : List (Option String × Json)) : List Json :=
  (members.filter fun m => m.1 = some name).map (·.2)

/-- Whether the names in an object are texts. -/
def Named (members : List (Option String × Json)) : Prop := ∀ m ∈ members, m.1 ≠ none

/-- Whether the value writes what the configuration has for the option of that name. -/
inductive WritesOption (c : Config) : String → Json → Prop
  /-- Other members do not matter. -/
  | internal {members : List (Option String × Json)} (named : Named members)
    (once : valuesOf "__isTypeOf" members = [.bool c.isTypeOfOnlyIfNeeded]) :
    WritesOption c "generateInternalResolversIfNeeded" (.object members)
  /-- The overrides in their order. -/
  | scalars {members : List (Option String × Json)}
    (overrides : List.Forall₂ (fun e m => m.1 = some e.1 ∧ WritesOverride e.2 m.2)
      c.scalars.entries members) :
    WritesOption c "scalars" (.object members)
  | text {name type : String} (member : (name, type) ∈ c.textOptions) :
    WritesOption c name (.ofString type)

/-- Whether an object with these members writes the configuration. -/
structure Writes (c : Config) (members : List (Option String × Json)) : Prop where
  named : Named members
  /-- No option is written twice. -/
  once : ∀ name ∈ optionNames, (valuesOf name members).length ≤ 1
  options : ∀ name ∈ optionNames, ∀ value ∈ valuesOf name members, c.WritesOption name value
  /-- What is not written has its default value. -/
  isTypeOf : valuesOf "generateInternalResolversIfNeeded" members = [] →
    c.isTypeOfOnlyIfNeeded = ({} : Config).isTypeOfOnlyIfNeeded
  scalars : valuesOf "scalars" members = [] → c.scalars = ({} : Config).scalars
  texts : ∀ e ∈ c.textOptions, valuesOf e.1 members = [] → e ∈ ({} : Config).textOptions

/-! ## Overrides -/

variable {c : Config} {members rest : List (Option String × Json)} {name : String} {value : Json}

theorem readOverride_of_writes {o : ScalarOverride} (writes : WritesOverride o value) :
    readOverride value = some o := by
  cases writes <;> rfl

theorem readScalars_of_writes {overrides : List (String × ScalarOverride)}
    (writes : List.Forall₂ (fun e m => m.1 = some e.1 ∧ WritesOverride e.2 m.2) overrides members)
    (m : OrderedMap ScalarOverride) :
    readScalars m members = some (overrides.foldl (fun m e => m.insert e.1 e.2) m) := by
  induction writes generalizing m with
  | nil => rfl
  | @cons e member overrides members first _ ih =>
    obtain ⟨name, value⟩ := member
    obtain ⟨rfl, writes⟩ := first
    rw [readScalars, readOverride_of_writes writes, Option.bind_some, ih, List.foldl_cons]

/-! ## Members -/

theorem valuesOf_cons_self (name : String) (value : Json) (rest : List (Option String × Json)) :
    valuesOf name ((some name, value) :: rest) = value :: valuesOf name rest := by
  simp [valuesOf]

theorem valuesOf_cons_of_ne {name other : String} (apart : other ≠ name) (value : Json)
    (rest : List (Option String × Json)) :
    valuesOf name ((some other, value) :: rest) = valuesOf name rest := by
  simp [valuesOf, apart]

theorem readMembers_unknown {options : Options} (unknown : options.lookup name = none)
    (taken : List String) (c : Config) (value : Json) :
    readMembers options taken c ((some name, value) :: rest) =
      readMembers options taken c rest := by
  rw [readMembers, unknown]

theorem readMembers_known {options : Options} {set : Setter} {taken : List String} {c d : Config}
    (known : options.lookup name = some set) (new : name ∉ taken) (made : set c value = some d) :
    readMembers options taken c ((some name, value) :: rest) =
      readMembers options (name :: taken) d rest := by
  rw [readMembers, known]
  simp only [if_neg new, made, Option.bind_some]

/-- Whether members can be read when some of the options have been given: none of these again, no
other one twice, and each with a value that fits it. -/
structure Readable (names : List String) (Fits : String → Json → Prop) (taken : List String)
    (members : List (Option String × Json)) : Prop where
  named : Named members
  once : ∀ name ∈ names, (valuesOf name members).length ≤ 1
  fits : ∀ name ∈ names, ∀ value ∈ valuesOf name members, Fits name value
  new : ∀ name ∈ names, name ∈ taken → valuesOf name members = []

variable {names taken : List String} {Fits : String → Json → Prop}

theorem Readable.of_known (readable : Readable names Fits taken ((some name, value) :: rest))
    (known : name ∈ names) :
    name ∉ taken ∧ Fits name value ∧ Readable names Fits (name :: taken) rest := by
  have alone : valuesOf name rest = [] := by
    have short := readable.once name known
    rw [valuesOf_cons_self, List.length_cons] at short
    exact List.eq_nil_of_length_eq_zero (by omega)
  -- the other options find the same values without this member
  have without {other : String} (apart : other ≠ name) :
      valuesOf other ((some name, value) :: rest) = valuesOf other rest :=
    valuesOf_cons_of_ne (Ne.symm apart) value rest
  refine ⟨fun old => ?_, ?_, (List.forall_mem_cons.mp readable.named).2, ?_, ?_, ?_⟩
  · have none := readable.new name known old
    rw [valuesOf_cons_self] at none
    cases none
  · exact readable.fits name known value (by simp [valuesOf_cons_self])
  · intro other isOption
    by_cases same : other = name
    · rw [same, alone]
      exact Nat.zero_le 1
    · exact without same ▸ readable.once other isOption
  · intro other isOption value there
    by_cases same : other = name
    · rw [same, alone] at there
      cases there
    · exact readable.fits other isOption value (without same ▸ there)
  · intro other isOption old
    by_cases same : other = name
    · rw [same, alone]
    · exact without same ▸ readable.new other isOption (List.mem_of_ne_of_mem same old)

theorem valuesOf_cons_of_unknown (unknown : name ∉ names) (value : Json)
    (rest : List (Option String × Json)) :
    ∀ other ∈ names, valuesOf other ((some name, value) :: rest) = valuesOf other rest := by
  intro other isOption
  refine valuesOf_cons_of_ne ?_ value rest
  rintro rfl
  exact unknown isOption

theorem Readable.of_unknown (readable : Readable names Fits taken ((some name, value) :: rest))
    (unknown : name ∉ names) : Readable names Fits taken rest := by
  have without := valuesOf_cons_of_unknown unknown value rest
  refine ⟨(List.forall_mem_cons.mp readable.named).2, ?_, ?_, ?_⟩
  · exact fun other isOption => without other isOption ▸ readable.once other isOption
  · exact fun other isOption => without other isOption ▸ readable.fits other isOption
  · exact fun other isOption => without other isOption ▸ readable.new other isOption

/-- What members make of a configuration, where `state` says what it is when some options have been
given. -/
theorem readMembers_eq {options : Options} {state : List String → Config}
    (step : ∀ name ∈ options.map Prod.fst, ∀ value, Fits name value → ∀ taken,
      ∃ set, options.lookup name = some set ∧
        set (state taken) value = some (state (name :: taken)))
    (readable : Readable (options.map Prod.fst) Fits taken members) :
    ∃ taken', readMembers options taken (state taken) members = some (state taken') ∧
      ∀ name ∈ options.map Prod.fst,
        (name ∈ taken' ↔ name ∈ taken ∨ valuesOf name members ≠ []) := by
  induction members generalizing taken with
  | nil => exact ⟨taken, rfl, fun name _ => by simp [valuesOf]⟩
  | cons m rest ih =>
    obtain ⟨name, value⟩ := m
    obtain ⟨name, rfl⟩ := Option.ne_none_iff_exists'.mp (readable.named _ List.mem_cons_self)
    by_cases known : name ∈ options.map Prod.fst
    · obtain ⟨untaken, first, later⟩ := readable.of_known known
      obtain ⟨set, found, made⟩ := step name known value first taken
      obtain ⟨taken', read, given⟩ := ih later
      rw [readMembers_known found untaken made]
      refine ⟨taken', read, fun other isOption => (given other isOption).trans ?_⟩
      by_cases same : other = name
      · subst same
        simp [valuesOf_cons_self]
      · simp [valuesOf_cons_of_ne (Ne.symm same), same]
    · have unknown : options.lookup name = none := by
        rw [List.lookup_eq_none_iff]
        intro e he
        simpa using fun same : name = e.1 => known (List.mem_map.mpr ⟨e, he, same.symm⟩)
      obtain ⟨taken', read, given⟩ := ih (readable.of_unknown known)
      rw [readMembers_unknown unknown]
      refine ⟨taken', read, fun other isOption => ?_⟩
      rw [valuesOf_cons_of_unknown known value rest other isOption]
      exact given other isOption

/-! ## Options -/

/-- The configuration with its own values for the options of these names, and default values for the
others. -/
def partly (c : Config) (taken : List String) : Config :=
  let d : Config := {}
  { isTypeOfOnlyIfNeeded := if "generateInternalResolversIfNeeded" ∈ taken then
      c.isTypeOfOnlyIfNeeded else d.isTypeOfOnlyIfNeeded
    scalars := if "scalars" ∈ taken then c.scalars else d.scalars
    defaultScalarType := if "defaultScalarType" ∈ taken then c.defaultScalarType
      else d.defaultScalarType
    contextType := if "contextType" ∈ taken then c.contextType else d.contextType
    rootValueType := if "rootValueType" ∈ taken then c.rootValueType else d.rootValueType
    resolverTypeWrapperSignature := if "resolverTypeWrapperSignature" ∈ taken then
      c.resolverTypeWrapperSignature else d.resolverTypeWrapperSignature
    maybeValue := if "maybeValue" ∈ taken then c.maybeValue else d.maybeValue }

/-- The same while the options about internal resolvers are read, where `inner` are those given. -/
def internally (c : Config) (taken inner : List String) : Config :=
  if "__isTypeOf" ∈ inner then partly c ("generateInternalResolversIfNeeded" :: taken)
  else partly c taken

theorem step_of_internal (named : Named members)
    (once : valuesOf "__isTypeOf" members = [.bool c.isTypeOfOnlyIfNeeded])
    (taken : List String) :
    readOptions internalOptions (partly c taken) (.object members) =
      some (partly c ("generateInternalResolversIfNeeded" :: taken)) := by
  have step : ∀ name ∈ internalOptions.map Prod.fst, ∀ value,
      value = .bool c.isTypeOfOnlyIfNeeded → ∀ inner, ∃ set,
        internalOptions.lookup name = some set ∧
          set (internally c taken inner) value = some (internally c taken (name :: inner)) := by
    rintro name isOption _ rfl inner
    obtain rfl : name = "__isTypeOf" := List.mem_singleton.mp isOption
    refine ⟨_, rfl, ?_⟩
    by_cases old : "__isTypeOf" ∈ inner <;> simp [internally, boolSetter, partly, old]
  have values : ∀ name ∈ internalOptions.map Prod.fst,
      valuesOf name members = [.bool c.isTypeOfOnlyIfNeeded] := by
    intro name isOption
    obtain rfl : name = "__isTypeOf" := List.mem_singleton.mp isOption
    exact once
  have readable : Readable (internalOptions.map Prod.fst)
      (fun _ value => value = .bool c.isTypeOfOnlyIfNeeded) [] members := {
    named
    once := fun name isOption => Nat.le_of_eq (congrArg List.length (values name isOption))
    fits := fun name isOption value there => List.mem_singleton.mp (values name isOption ▸ there)
    new := fun _ _ => nofun }
  obtain ⟨inner, read, given⟩ := readMembers_eq step readable
  have there : "__isTypeOf" ∈ inner := by
    rw [given _ (List.mem_singleton_self _), once]
    exact .inr (List.cons_ne_nil _ _)
  rw [readOptions]
  simpa [internally, there] using read

theorem step_of_text {type : String} (member : (name, type) ∈ c.textOptions)
    (taken : List String) : ∃ set, options.lookup name = some set ∧
      set (partly c taken) (.ofString type) = some (partly c (name :: taken)) := by
  simp only [textOptions, List.mem_cons, Prod.mk.injEq, List.not_mem_nil, or_false] at member
  rcases member with ⟨rfl, rfl⟩ | ⟨rfl, rfl⟩ | ⟨rfl, rfl⟩ | ⟨rfl, rfl⟩ | ⟨rfl, rfl⟩
  all_goals
    refine ⟨_, rfl, ?_⟩
    simp [partly, textSetter, Json.ofString]

/-- Reading a value that an option of the configuration has adds this option. -/
theorem step_of_writes (writes : c.WritesOption name value) (taken : List String) :
    ∃ set, options.lookup name = some set ∧
      set (partly c taken) value = some (partly c (name :: taken)) := by
  cases writes with
  | internal named once => exact ⟨_, rfl, step_of_internal named once taken⟩
  | scalars overrides =>
    refine ⟨_, rfl, ?_⟩
    have read := readScalars_of_writes overrides ∅
    have kept : c.scalars.entries.foldl (fun m e => m.insert e.1 e.2) ∅ = c.scalars :=
      OrderedMap.ext (OrderedMap.entries_ofList c.scalars.keys_nodup)
    rw [kept] at read
    simp [partly, read]
  | text member => exact step_of_text member taken

/-- Options that are not written are not missed. -/
theorem partly_eq (writes : c.Writes members) {taken : List String}
    (given : ∀ name ∈ optionNames, name ∈ taken ↔ valuesOf name members ≠ []) :
    partly c taken = c := by
  have pick {α : Type} (name : String) (own default : α) (isOption : name ∈ optionNames)
      (left : valuesOf name members = [] → own = default) :
      (if name ∈ taken then own else default) = own := by
    split
    · rfl
    · next absent =>
      rw [given name isOption, not_not] at absent
      exact (left absent).symm
  have text (name : String) (own : Config → String) (isOption : name ∈ optionNames)
      (stands : ∀ (c : Config) (type : String), (name, type) ∈ c.textOptions ↔ type = own c) :
      (if name ∈ taken then own c else own {}) = own c :=
    pick name _ _ isOption fun left =>
      (stands {} _).mp (writes.texts _ ((stands c _).mpr rfl) left)
  have isTypeOf := pick "generateInternalResolversIfNeeded" _ _ (by decide) writes.isTypeOf
  have scalars := pick "scalars" _ _ (by decide) writes.scalars
  have scalarType := text "defaultScalarType" (·.defaultScalarType) (by decide)
    (by simp [textOptions])
  have context := text "contextType" (·.contextType) (by decide) (by simp [textOptions])
  have rootValue := text "rootValueType" (·.rootValueType) (by decide) (by simp [textOptions])
  have wrapper := text "resolverTypeWrapperSignature" (·.resolverTypeWrapperSignature) (by decide)
    (by simp [textOptions])
  have maybe := text "maybeValue" (·.maybeValue) (by decide) (by simp [textOptions])
  unfold partly
  simp only [isTypeOf, scalars, scalarType, context, rootValue, wrapper, maybe]

theorem ofJson?_of_writes (writes : c.Writes members) : ofJson? (.object members) = some c := by
  have names : options.map Prod.fst = optionNames := rfl
  have step : ∀ name ∈ options.map Prod.fst, ∀ value, c.WritesOption name value → ∀ taken,
      ∃ set, options.lookup name = some set ∧
        set (partly c taken) value = some (partly c (name :: taken)) :=
    fun _ _ _ writes taken => step_of_writes writes taken
  have readable : Readable (options.map Prod.fst) c.WritesOption [] members := {
    named := writes.named
    once := names ▸ writes.once
    fits := names ▸ writes.options
    new := fun _ _ => nofun }
  obtain ⟨taken, read, given⟩ := readMembers_eq step readable
  have whole : partly c taken = c := partly_eq writes fun name isOption => by
    simpa using given name (names ▸ isOption)
  rw [whole] at read
  exact read

/-! ## Rejected configurations -/

theorem invalidValue_of_mem_violations {e : Error} (violation : e ∈ c.violations) :
    ∃ option message, e = .invalidValue option message := by
  rcases List.mem_append.mp violation with blankText | blankScalar
  · obtain ⟨⟨option, _⟩, _, made⟩ := List.mem_map.mp blankText
    exact ⟨option, _, made.symm⟩
  · obtain ⟨⟨name, _⟩, _, made⟩ := List.mem_map.mp blankScalar
    exact ⟨"scalars." ++ name, _, made.symm⟩

theorem invalidValue_of_validate {e : Error} (invalid : c.validate = .error e) :
    ∃ option message, e = .invalidValue option message := by
  rw [validate] at invalid
  split at invalid
  · cases invalid
  · next first rest violations =>
    obtain rfl : first = e := Except.error.inj invalid
    exact invalidValue_of_mem_violations (violations ▸ List.mem_cons_self)

/-! ## Documents -/

theorem ofDocument_of_writes (writes : c.Writes members) {text : String}
    (described : Json.Describes text (.object members)) :
    ofDocument text = c.validate.map fun _ => c := by
  rw [ofDocument, Json.parse?_of_describes described, Option.bind_some, ofJson?_of_writes writes]

/-! ## The document that is written -/

theorem writesOverride_overrideJson (o : ScalarOverride) : WritesOverride o (overrideJson o) := by
  cases o with
  | uniform type => exact .uniform
  | split input output => exact .split

/-- The document that is written for a configuration has all its options. -/
theorem writes_toJson (c : Config) : ∃ members, c.toJson = .object members ∧ c.Writes members := by
  have internal : c.WritesOption "generateInternalResolversIfNeeded"
      (.ofMembers [("__isTypeOf", .bool c.isTypeOfOnlyIfNeeded)]) :=
    .internal (by simp [Named]) (by simp [valuesOf])
  have scalars : c.WritesOption "scalars"
      (.ofMembers (c.scalars.entries.map fun e => (e.1, overrideJson e.2))) := by
    refine .scalars ?_
    rw [List.map_map, List.forall₂_map_right_iff, List.forall₂_same]
    exact fun e _ => ⟨rfl, writesOverride_overrideJson e.2⟩
  have texts : ∀ e ∈ c.textOptions, c.WritesOption e.1 (.ofString e.2) := fun _ => .text
  rw [textOptions] at texts
  simp only [List.forall_mem_cons] at texts
  refine ⟨_, rfl, ?_, ?_, ?_, ?_, ?_, ?_⟩
  · simp [Named]
  · simp [optionNames, valuesOf]
  · simp [optionNames, valuesOf, internal, scalars, texts]
  · simp [valuesOf]
  · simp [valuesOf]
  · simp only [textOptions, List.forall_mem_cons]
    simp [valuesOf]

/-- What is written for a configuration is one of its documents. -/
theorem describes_document (c : Config) : ∃ members, c.Writes members ∧
    Json.Describes c.document (.object members) := by
  obtain ⟨members, made, writes⟩ := writes_toJson c
  exact ⟨members, writes, made ▸ Json.describes_render c.toJson⟩

/-- What is written for a configuration is read as that configuration, or as what is wrong with
it. -/
theorem ofDocument_document (c : Config) : ofDocument c.document = c.validate.map fun _ => c := by
  obtain ⟨members, writes, described⟩ := describes_document c
  exact ofDocument_of_writes writes described

/-! ## All documents -/

/-- Every document of a configuration is read as that configuration, if it is accepted, and is
rejected for what is wrong with it otherwise. -/
theorem document_round_trips (writes : c.Writes members) {text : String}
    (described : Json.Describes text (.object members)) :
    (c.validate = .ok () → ofDocument text = .ok c) ∧
    ∀ e, c.validate = .error e →
      ofDocument text = .error e ∧ ∃ option message, e = .invalidValue option message := by
  rw [ofDocument_of_writes writes described]
  refine ⟨fun valid => ?_, fun e invalid => ⟨?_, invalidValue_of_validate invalid⟩⟩
  · rw [valid]
    rfl
  · rw [invalid]
    rfl

open Json in
/-- Blanks, an escaped letter, a member that names no option, and options that are left out; and a
configuration that is rejected, in the document that is written for it. -/
theorem document_round_trips_example :
    ofDocument "\x7b \"contextType\": \"\\u0043\", \"more\": [null] \x7d" =
      .ok { contextType := "C" } ∧
    ofDocument (document { contextType := " " }) =
      .error (.invalidValue "contextType" "must not be empty") := by
  have context : WritesOption { contextType := "C" } "contextType" (.ofString "C") :=
    .text (by simp [textOptions])
  have writes : ({ contextType := "C" } : Config).Writes
      [(some "contextType", .ofString "C"), (some "more", .array [.null])] := by
    refine ⟨?_, ?_, ?_, ?_, ?_, ?_⟩
    · simp [Named]
    · simp [optionNames, valuesOf]
    · simpa [optionNames, valuesOf] using context
    · simp
    · simp
    · simp only [textOptions, List.forall_mem_cons]
      simp [valuesOf]
  have blank : IsGap [' '] := by decide
  have letter : SpellsText (inQuotes [['\\', 'u', '0', '0', '4', '3']]) (some "C") :=
    .text (.cons (.number rfl) .nil)
  have list : Spells ('[' :: (withCommas [['n', 'u', 'l', 'l']] ++ [']'])) (.array [.null]) :=
    .items (.cons (spellsItem_of_spells .null) .nil)
  have first : SpellsMember _ (some "contextType", .ofString "C") :=
    .mk blank (spellsText_quote _) isGap_nil (.mk blank (.string letter) isGap_nil)
  have second : SpellsMember _ (some "more", .array [.null]) :=
    .mk blank (spellsText_quote _) isGap_nil (.mk blank list blank)
  have described : Describes "\x7b \"contextType\": \"\\u0043\", \"more\": [null] \x7d"
      (.object [(some "contextType", .ofString "C"), (some "more", .array [.null])]) :=
    spellsItem_of_spells (.members (.cons first (.cons second .nil)))
  have usable : validate { contextType := "C" } = .ok () := validate_eq_ok_iff.mpr (by decide)
  have unusable : validate { contextType := " " } =
      .error (.invalidValue "contextType" "must not be empty") := by decide
  obtain ⟨members, rejected, written⟩ := describes_document { contextType := " " }
  exact ⟨(document_round_trips writes described).1 usable,
    ((document_round_trips rejected written).2 _ unusable).1⟩

end ResolverTypes.Config
