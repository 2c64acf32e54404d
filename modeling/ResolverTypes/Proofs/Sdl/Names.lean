import ResolverTypes.Proofs.Sdl.Assembly

/-!
# The names of described types and of their values

The grammar reads nothing else as a name than a letter or an underscore and what may follow it. Of a
parser this says what it may answer with (`Parser.Yields`), and such a fact goes through a grammar
rule by rule: a sequence yields what its last step yields from what the earlier ones did, a choice
what both of its branches do. So every type of a schema that a document describes has a name in the
sense of the grammar, and none is called nothing at all; and so has every value of an enum.
-/

namespace ResolverTypes

namespace Parser

variable {α β : Type} {p q : Parser α} {P : α → Prop}

/-- Whatever the parser answers with has the property. -/
def Yields (p : Parser α) (P : α → Prop) : Prop := ∀ s a rest, p s = some (a, rest) → P a

theorem Yields.mono {Q : α → Prop} (h : p.Yields P) (weaker : ∀ a, P a → Q a) : p.Yields Q :=
  fun s a rest read => weaker a (h s a rest read)

theorem yields_pure {a : α} (h : P a) : Yields (pure a) P := by
  intro s b rest read
  obtain ⟨rfl, -⟩ := Prod.mk.inj (Option.some.inj read)
  exact h

theorem Yields.bind {Q : β → Prop} {f : α → Parser β} (first : p.Yields P)
    (next : ∀ a, P a → (f a).Yields Q) : Yields (p >>= f) Q := by
  intro s b rest read
  obtain ⟨⟨a, s'⟩, here, later⟩ := Option.bind_eq_some_iff.mp read
  exact next a (first s a s' here) s' b rest later

/-- What comes first does not matter if the rest yields something in any case. -/
theorem Yields.after {Q : β → Prop} {f : α → Parser β} (p : Parser α)
    (next : ∀ a, (f a).Yields Q) : Yields (p >>= f) Q :=
  Yields.bind (P := fun _ => True) (fun _ _ _ _ => trivial) fun a _ => next a

theorem Yields.orElse (left : p.Yields P) (right : q.Yields P) : Yields (p <|> q) P := by
  intro s a rest read
  have choice : (p <|> q) s = (p s).or (q s) := by
    show (p s <|> q s) = _
    cases p s <;> rfl
  rw [choice, Option.or_eq_some_iff] at read
  rcases read with read | ⟨-, read⟩
  · exact left s a rest read
  · exact right s a rest read

theorem Yields.optional (h : p.Yields P) : Yields (optional p) fun o => ∀ a ∈ o, P a := by
  refine .orElse ?_ (yields_pure nofun)
  refine h.bind (f := fun a => pure (some a)) ?_
  intro a ha
  refine yields_pure ?_
  rintro _ ⟨⟩
  exact ha

theorem yields_satisfy (p : Char → Bool) : Yields (satisfy p) fun c => p c = true := by
  intro s c rest read
  cases s with
  | nil => cases read
  | cons d s =>
    rw [satisfy] at read
    split at read
    · next holds =>
      obtain ⟨rfl, -⟩ := Prod.mk.inj (Option.some.inj read)
      exact holds
    · cases read

theorem yields_takeWhile (p : Char → Bool) : Yields (takeWhile p) fun l => ∀ c ∈ l, p c = true := by
  intro s l rest read c hc
  obtain ⟨rfl, -⟩ := Prod.mk.inj (Option.some.inj read)
  exact List.all_eq_true.mp List.all_takeWhile c hc

theorem forall_mem_manyFrom (h : p.Yields P) (s : List Char) : ∀ a ∈ (manyFrom p s).1, P a := by
  induction s using manyFrom.induct p with
  | case1 s none =>
    rw [manyFrom_of_none none]
    intro a ha
    cases ha
  | case2 s a rest read shorter _ _ _ ih =>
    rw [manyFrom_of_some read shorter]
    exact List.forall_mem_cons.mpr ⟨h s a rest read, ih⟩
  | case3 s a rest read longer =>
    rw [manyFrom, read]
    simp only [if_neg longer]
    intro a ha
    cases ha

theorem Yields.many (h : p.Yields P) : Yields (many p) fun l => ∀ a ∈ l, P a := by
  intro s l rest read
  obtain ⟨rfl, -⟩ := Prod.mk.inj (Option.some.inj read)
  exact forall_mem_manyFrom h s

theorem Yields.many1 (h : p.Yields P) : Yields (many1 p) fun l => ∀ a ∈ l, P a :=
  h.bind fun _ first => h.many.bind fun _ rest =>
    yields_pure (List.forall_mem_cons.mpr ⟨first, rest⟩)

theorem Yields.of_parse? (h : p.Yields P) {text : String} {a : α} (read : p.parse? text = some a) :
    P a := by
  unfold parse? at read
  split at read
  · next b whole =>
    obtain rfl := Option.some.inj read
    exact h _ _ _ whole
  · cases read

end Parser

namespace Sdl

open ResolverTypes.Parser

/-- A name in the sense of the grammar. -/
def IsName (name : String) : Prop :=
  ∃ first rest, name.toList = first :: rest ∧ isNameStart first = true ∧
    ∀ c ∈ rest, isNameRest c = true

theorem IsName.ofList {first : Char} {rest : List Char}
    (letters : (isNameStart first && rest.all isNameRest) = true) :
    IsName (String.ofList (first :: rest)) := by
  obtain ⟨start, others⟩ := (Bool.and_eq_true _ _).mp letters
  exact ⟨first, rest, String.toList_ofList, start, List.all_eq_true.mp others⟩

theorem IsName.ne_empty {name : String} (h : IsName name) : name ≠ "" := by
  rintro rfl
  obtain ⟨first, rest, empty, -⟩ := h
  cases empty

theorem IsName.isNameRest {name : String} (h : IsName name) :
    ∀ c ∈ name.toList, isNameRest c = true := by
  obtain ⟨first, rest, letters, start, others⟩ := h
  rw [letters]
  refine List.forall_mem_cons.mpr ⟨?_, others⟩
  rcases Bool.or_eq_true_iff.mp start with letter | underscore
  · rw [Sdl.isNameRest, Char.isAlphanum, letter, Bool.true_or, Bool.true_or]
  · rw [Sdl.isNameRest, underscore, Bool.or_true]

theorem yields_token {α : Type} {p : Parser α} {P : α → Prop} (h : p.Yields P) :
    (token p).Yields P :=
  h.bind fun _ ha => .after skip fun _ => yields_pure ha

theorem yields_nameText : nameText.Yields IsName := by
  refine (yields_satisfy isNameStart).bind ?_
  intro first start
  refine (yields_takeWhile isNameRest).bind ?_
  intro rest others
  exact yields_pure ⟨first, rest, String.toList_ofList, start, others⟩

theorem yields_name : name.Yields IsName := yields_token yields_nameText

theorem yields_enumValue : enumValue.Yields IsName := by
  refine yields_token ?_
  intro s a rest read
  unfold enumText at read
  split at read
  · cases read
  · exact yields_nameText s a rest read

/-! ## Definitions -/

/-- Every rule for a type begins with its keyword and its name. -/
theorem yields_kind {keyword : Parser Unit} {f : String → Parser (String × TypeBody × List Decimal)}
    (keeps : ∀ name, (f name).Yields fun body => body.1 = name) :
    Yields (do keyword; f (← name)) fun body => IsName body.1 := by
  refine .after keyword fun _ => yields_name.bind ?_
  intro name isName
  refine (keeps name).mono ?_
  rintro body rfl
  exact isName

theorem yields_typeBody : typeBody.Yields fun body => IsName body.1 := by
  refine .orElse (yields_kind ?_) <| .orElse (yields_kind ?_) <| .orElse (yields_kind ?_) <|
    .orElse (yields_kind ?_) <| .orElse (yields_kind ?_) (yields_kind ?_)
  · intro name
    exact .after _ fun _ => yields_pure rfl
  · intro name
    exact .after _ fun _ => .after _ fun _ => yields_pure rfl
  · intro name
    exact .after _ fun _ => .after _ fun _ => yields_pure rfl
  · intro name
    exact .after _ fun _ => yields_pure rfl
  · intro name
    exact .after _ fun _ => yields_pure rfl
  · intro name
    exact .after _ fun _ => yields_pure rfl

/-- Whether the draft is no definition of a type, or one with a name. -/
def Draft.Named (d : Draft) : Prop :=
  ∀ definition, d.content = .type false definition → IsName definition.name

theorem yields_typeDefinition : typeDefinition.Yields Draft.Named := by
  refine .orElse ?_ ?_
  · refine .after _ fun _ => yields_typeBody.bind ?_
    rintro ⟨name, body, numbers⟩ isName
    refine yields_pure ?_
    rintro definition content
    obtain ⟨-, rfl⟩ := Draft.Content.type.inj content
    exact isName
  · exact .after _ fun _ => .after _ fun _ => yields_pure nofun

/-- Root types and directives make drafts of something else than a type. -/
theorem yields_definition_of {P : Draft → Prop} (types : typeDefinition.Yields P)
    (others : ∀ d : Draft, (∀ isExtension definition, d.content ≠ .type isExtension definition) →
      P d) : definition.Yields P := by
  refine .orElse ?_ (.orElse types ?_)
  · refine .orElse ?_ ?_
    · exact .after _ fun _ => .after _ fun _ => .after _ fun _ => yields_pure (others _ nofun)
    · refine .after _ fun _ => .after _ fun _ => .orElse ?_ ?_
      · exact .after _ fun _ => .after _ fun _ => yields_pure (others _ nofun)
      · exact .after _ fun _ => yields_pure (others _ nofun)
  · iterate 10 refine .after _ fun _ => ?_
    exact yields_pure (others _ nofun)

theorem yields_definition : definition.Yields Draft.Named :=
  yields_definition_of yields_typeDefinition fun _ other definition content =>
    absurd content (other false definition)

theorem yields_document : document.Yields fun drafts => ∀ d ∈ drafts, d.Named :=
  .after skip fun _ => yields_definition.many1

/-- What a draft that is checked may have been. -/
theorem Draft.check_cases {draft : Draft} {definition : Definition}
    (checked : draft.check = .ok definition) :
    (∃ isExtension d, draft.content = .type isExtension d ∧ definition = .type isExtension d) ∨
    (∃ isExtension assignments roots, draft.content = .schema isExtension assignments ∧
      assignRoots {} assignments = .ok roots ∧ (isExtension = true ∨ roots.query.isSome = true) ∧
      definition = .schema isExtension roots) ∨
    draft.content = .directive ∧ definition = .directive := by
  obtain ⟨content, numbers⟩ := draft
  unfold Draft.check at checked
  split at checked
  · cases content with
    | type isExtension d =>
      cases checked
      exact .inl ⟨isExtension, d, rfl, rfl⟩
    | schema isExtension assignments =>
      change (assignRoots {} assignments).bind _ = _ at checked
      cases assigned : assignRoots {} assignments with
      | error e =>
        rw [assigned] at checked
        cases checked
      | ok roots =>
        rw [assigned] at checked
        change (if !isExtension && roots.query.isNone then _ else _) = _ at checked
        split at checked
        · cases checked
        · next named =>
          cases checked
          refine .inr (.inl ⟨isExtension, assignments, roots, rfl, assigned, ?_, rfl⟩)
          cases isExtension with
          | true => exact .inl rfl
          | false => exact .inr (by simpa [Option.isSome_iff_ne_none] using named)
    | directive =>
      cases checked
      exact .inr (.inr ⟨rfl, rfl⟩)
  · cases checked

/-- Whatever is in the result was made from something that was given. -/
theorem mem_of_mapM {α β ε : Type} {f : α → Except ε β} {given : List α} {made : List β}
    (done : given.mapM f = .ok made) {b : β} (hb : b ∈ made) : ∃ a ∈ given, f a = .ok b := by
  induction given generalizing made with
  | nil =>
    cases done
    cases hb
  | cons a rest ih =>
    rw [List.mapM_cons] at done
    cases first : f a with
    | error e =>
      rw [first] at done
      cases done
    | ok b' =>
      cases others : rest.mapM f with
      | error e =>
        rw [first, others] at done
        cases done
      | ok made' =>
        rw [first, others] at done
        cases done
        rcases List.mem_cons.mp hb with rfl | hb
        · exact ⟨a, List.mem_cons_self, first⟩
        · obtain ⟨a', member, same⟩ := ih others hb
          exact ⟨a', List.mem_cons_of_mem _ member, same⟩

/-- What a document says of a type was the content of a draft. -/
theorem exists_draft {text : String} {definitions : List Definition}
    (read : Sdl.definitions text = .ok definitions) {isExtension : Bool} {d : TypeDef}
    (hd : .type isExtension d ∈ definitions) : ∃ drafts, document.parse? text = some drafts ∧
      ∃ draft ∈ drafts, draft.content = .type isExtension d := by
  unfold Sdl.definitions at read
  split at read
  · cases read
  · next drafts parsed =>
    obtain ⟨draft, member, checked⟩ := mem_of_mapM read hd
    obtain ⟨_, _, content, same⟩ | ⟨_, _, _, -, -, -, same⟩ | ⟨-, same⟩ :=
      Draft.check_cases checked
    · cases same
      exact ⟨drafts, parsed, draft, member, content⟩
    · cases same
    · cases same

/-- Every type that a document defines has a name. -/
theorem isName_of_definitions {text : String} {definitions : List Definition}
    (read : Sdl.definitions text = .ok definitions) {d : TypeDef} (hd : d ∈ bases definitions) :
    IsName d.name := by
  obtain ⟨drafts, parsed, draft, member, content⟩ := exists_draft read (mem_bases.mp hd)
  exact yields_document.of_parse? parsed draft member d content

/-! ## Enum values -/

variable {α : Type} {P : α → Prop}

theorem yields_braced {part : Parser (α × List Decimal)} (each : part.Yields fun a => P a.1) :
    (braced part).Yields fun all => ∀ a ∈ all.1, P a := by
  refine .after _ fun _ => each.many1.bind ?_
  intro parts named
  refine .after _ fun _ => yields_pure ?_
  intro a ha
  obtain ⟨part, member, rfl⟩ := List.mem_map.mp ha
  exact named part member

theorem yields_contents {content : Parser (List α × List Decimal)}
    (each : content.Yields fun all => ∀ a ∈ all.1, P a) :
    (contents content).Yields fun all => ∀ a ∈ all.1, P a := by
  refine .after _ fun _ => each.optional.bind ?_
  rintro (none | parts) named
  · exact yields_pure nofun
  · exact yields_pure (named parts rfl)

theorem yields_addedContents {content : Parser (List α × List Decimal)}
    (each : content.Yields fun all => ∀ a ∈ all.1, P a) :
    (addedContents content).Yields fun all => ∀ a ∈ all.1, P a := by
  refine .orElse ?_ (.after _ fun _ => yields_pure nofun)
  exact .after _ fun _ => each.bind fun _ named => yields_pure named

theorem yields_enumValues :
    (braced enumValueDefinition).Yields fun all => ∀ v ∈ all.1, IsName v.name := by
  refine yields_braced (P := fun v : EnumValue => IsName v.name) ?_
  refine .after _ fun _ => yields_enumValue.bind ?_
  exact fun _ isName => .after _ fun _ => yields_pure isName

theorem values_typeBody : typeBody.Yields fun body => ∀ v ∈ body.2.1.values, IsName v.name := by
  -- only enums have values
  refine .orElse ?_ <| .orElse ?_ <| .orElse ?_ <| .orElse ?_ <| .orElse ?_ ?_
  · exact .after _ fun _ => .after _ fun _ => .after _ fun _ => yields_pure nofun
  · exact .after _ fun _ => .after _ fun _ => .after _ fun _ => .after _ fun _ => yields_pure nofun
  · exact .after _ fun _ => .after _ fun _ => .after _ fun _ => .after _ fun _ => yields_pure nofun
  · exact .after _ fun _ => .after _ fun _ => .after _ fun _ => yields_pure nofun
  · exact .after _ fun _ => .after _ fun _ =>
      (yields_contents yields_enumValues).bind fun _ named => yields_pure named
  · exact .after _ fun _ => .after _ fun _ => .after _ fun _ => yields_pure nofun

theorem values_addedBody : addedBody.Yields fun body => ∀ v ∈ body.2.1.values, IsName v.name := by
  refine .orElse ?_ <| .orElse ?_ <| .orElse ?_ <| .orElse ?_ <| .orElse ?_ ?_
  · exact .after _ fun _ => .after _ fun _ => .after _ fun _ => yields_pure nofun
  · exact .after _ fun _ => .after _ fun _ => .after _ fun _ => yields_pure nofun
  · exact .after _ fun _ => .after _ fun _ => .after _ fun _ => .after _ fun _ => yields_pure nofun
  · exact .after _ fun _ => .after _ fun _ => .after _ fun _ => yields_pure nofun
  · exact .after _ fun _ => .after _ fun _ =>
      (yields_addedContents yields_enumValues).bind fun _ named => yields_pure named
  · exact .after _ fun _ => .after _ fun _ => .after _ fun _ => yields_pure nofun

/-- Whether the values that the draft lists, if it is about an enum, have names. -/
def Draft.ValuesNamed (d : Draft) : Prop :=
  ∀ isExtension definition, d.content = .type isExtension definition →
    ∀ v ∈ definition.body.values, IsName v.name

theorem values_typeDefinition : typeDefinition.Yields Draft.ValuesNamed := by
  refine .orElse ?_ ?_
  · refine .after _ fun _ => values_typeBody.bind ?_
    rintro ⟨name, body, numbers⟩ named
    refine yields_pure ?_
    rintro _ _ ⟨⟩
    exact named
  · refine .after _ fun _ => values_addedBody.bind ?_
    rintro ⟨name, body, numbers⟩ named
    refine yields_pure ?_
    rintro _ _ ⟨⟩
    exact named

/-- Every value that a document lists for an enum, or for an extension of one, has a name. -/
theorem isName_value_of_definitions {text : String} {definitions : List Definition}
    (read : Sdl.definitions text = .ok definitions) {isExtension : Bool} {d : TypeDef}
    (hd : .type isExtension d ∈ definitions) : ∀ v ∈ d.body.values, IsName v.name := by
  obtain ⟨drafts, parsed, draft, member, content⟩ := exists_draft read hd
  have named : document.Yields fun drafts => ∀ d ∈ drafts, d.ValuesNamed :=
    .after skip fun _ => (yields_definition_of values_typeDefinition fun _ other _ _ content =>
      absurd content (other _ _)).many1
  exact named.of_parse? parsed draft member isExtension d content

end Sdl

namespace Schema

/-- Every type of a schema that a document describes has a name. -/
theorem isName_of_ofDocument {text : String} {s : Schema} (described : ofDocument text = .ok s) :
    ∀ d ∈ s.types, Sdl.IsName d.name := by
  intro d hd
  obtain ⟨definitions, read, described⟩ := of_ofDocument described
  obtain ⟨base, hb, rfl⟩ := (mem_types_of_ofDefinitions described).mp hd
  show Sdl.IsName base.name
  exact Sdl.isName_of_definitions read hb

/-- Every value of an enum of a schema that a document describes has a name. -/
theorem isName_value_of_ofDocument {text : String} {s : Schema}
    (described : ofDocument text = .ok s) {d : TypeDef} (hd : d ∈ s.types) :
    ∀ v ∈ d.body.values, Sdl.IsName v.name := by
  obtain ⟨definitions, read, described⟩ := of_ofDocument described
  obtain ⟨base, hb, rfl⟩ := (mem_types_of_ofDefinitions described).mp hd
  intro v hv
  have enum := TypeDef.kind_of_mem_values hv
  rw [TypeDef.kind_extendedBy] at enum
  rw [TypeDef.values_extendedBy _ enum] at hv
  rcases List.mem_append.mp hv with hv | hv
  · exact Sdl.isName_value_of_definitions read (Sdl.mem_bases.mp hb) v hv
  · obtain ⟨extension, he, hv⟩ := List.mem_flatMap.mp hv
    exact Sdl.isName_value_of_definitions read
      (Sdl.mem_extensions.mp (List.mem_filter.mp he).1) v hv

end Schema

end ResolverTypes
