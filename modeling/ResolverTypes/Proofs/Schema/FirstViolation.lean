import ResolverTypes.Proofs.Schema.WellFormed

/-!
# Which violation is reported

What can be wrong with a schema is said here place by place, each violation for itself and whatever
else is wrong. A place is the list of the parts that one goes into, and places are read in
lexicographic order (`Before`): explicit roots before types, inside an object or interface the
implemented interfaces before the fields, and inside a field its name before its result type before
its arguments.

The checks run through the same parts with lists of names that were met before, and stop at the
first violation. `First` says of a list of errors that it begins with the violation that is read
before all others; it is kept by putting checks one after the other (`first_append`) and by running
through a list (`first_inTurn`), so it holds of all violations of a schema
(`Built.first_violations`).
-/

namespace ResolverTypes.Schema

/-- A place in a schema: the number of a part, then the number of a part of that, and so on. -/
abbrev Place := List Nat

/-- Whether the one place is read before the other. -/
def Before (p q : Place) : Prop := List.Lex (· < ·) p q

/-! ## Violations by place -/

/-- What is wrong with an argument or input field, behind others of the given names. -/
inductive InputViolation (s : Schema) (owner kind : String) (earlier : List String)
    (v : InputValue) : Place → Error → Prop
  | repeated (taken : v.name ∈ earlier) :
    InputViolation s owner kind earlier v [0] (.duplicateMember owner kind v.name)
  | unresolved (unknown : ¬s.Provides v.type.innermost) :
    InputViolation s owner kind earlier v [1] (.typeNotFound v.type.innermost (path owner v.name))

/-- What is wrong with a field behind others of the given names. -/
inductive FieldViolation (s : Schema) (owner : String) (earlier : List String) (f : Field) :
    Place → Error → Prop
  | repeated (taken : f.name ∈ earlier) :
    FieldViolation s owner earlier f [0] (.duplicateMember owner "field" f.name)
  | unresolved (unknown : ¬s.Provides f.type.innermost) :
    FieldViolation s owner earlier f [1] (.typeNotFound f.type.innermost (path owner f.name))
  | argument {i : Nat} {a : InputValue} {place : Place} {e : Error} (there : f.args[i]? = some a)
    (wrong : InputViolation s (path owner f.name) "argument" ((f.args.take i).map (·.name)) a
      place e) :
    FieldViolation s owner earlier f (2 :: i :: place) e

/-- What is wrong with an implemented interface. -/
inductive InterfaceViolation (s : Schema) (owner name : String) : Error → Prop
  | undeclared (unknown : ¬s.Declares name) :
    InterfaceViolation s owner name (.typeNotFound name owner)
  | other {d : TypeDef} (found : s.StandsFor name d) (other : d.kind ≠ .interface) :
    InterfaceViolation s owner name (.invalidImplements owner name)

/-- What is wrong with a member of a union. -/
inductive MemberViolation (s : Schema) (union name : String) : Error → Prop
  | unresolved (unknown : ¬s.Provides name) :
    MemberViolation s union name (.typeNotFound name union)
  | builtin (undeclared : ¬s.Declares name) (scalar : BuiltinScalar) (named : scalar.name = name) :
    MemberViolation s union name (.invalidUnionMember union name TypeKind.scalar.text)
  | other {d : TypeDef} (found : s.StandsFor name d) (other : d.kind ≠ .object) :
    MemberViolation s union name (.invalidUnionMember union name d.kind.text)

/-- What is wrong with a definition. -/
inductive TypeViolation (s : Schema) (d : TypeDef) : Place → Error → Prop
  | interface {i : Nat} {name : String} {e : Error} (there : d.interfaces[i]? = some name)
    (wrong : s.InterfaceViolation d.name name e) : TypeViolation s d [0, i] e
  | field {i : Nat} {f : Field} {place : Place} {e : Error} (there : d.fields[i]? = some f)
    (wrong : s.FieldViolation d.name ((d.fields.take i).map (·.name)) f place e) :
    TypeViolation s d (1 :: i :: place) e
  | emptyUnion (empty : d.body = .union []) : TypeViolation s d [0] (.emptyUnion d.name)
  | member {i : Nat} {name : String} {e : Error} (there : d.members[i]? = some name)
    (wrong : s.MemberViolation d.name name e) : TypeViolation s d [i] e
  | value {i : Nat} {v : EnumValue} (there : d.body.values[i]? = some v)
    (taken : v.name ∈ (d.body.values.take i).map (·.name)) :
    TypeViolation s d [i] (.duplicateMember d.name "value" v.name)
  | inputField {i : Nat} {v : InputValue} {place : Place} {e : Error}
    (there : d.body.inputFields[i]? = some v)
    (wrong : s.InputViolation d.name "input field" ((d.body.inputFields.take i).map (·.name)) v
      place e) :
    TypeViolation s d (i :: place) e
  | redefined (scalar : d.kind = .scalar) (builtin : BuiltinScalar)
    (named : builtin.name = d.name) :
    TypeViolation s d [0] (.builtinRedefined d.name)

/-- What is wrong with a schema. -/
inductive Violation (s : Schema) : Place → Error → Prop
  | root {i : Nat} {op : Operation} {name : String} (there : Operation.all[i]? = some op)
    (named : s.roots.get? op = some name) (other : ¬s.Names name .object) :
    Violation s [0, i] (.invalidRootType op.text name)
  | type {i : Nat} {d : TypeDef} {place : Place} {e : Error} (there : s.types[i]? = some d)
    (wrong : s.TypeViolation d place e) : Violation s (1 :: i :: place) e

/-! ## Lists that begin with what is read first -/

/-- Whether the list is empty if there is no violation, and else begins with the one that is read
before all others. -/
def First (V : Place → Error → Prop) : List Error → Prop
  | [] => ∀ place e, ¬V place e
  | e :: _ =>
    ∃ place, V place e ∧ ∀ place' e', V place' e' → Before place place' ∨ place = place' ∧ e = e'

/-- The violations of something that is not gone into. -/
def Here (V : Error → Prop) (place : Place) (e : Error) : Prop := place = [] ∧ V e

/-- The violations of numbered parts. -/
def InParts : List (Place → Error → Prop) → Place → Error → Prop
  | V :: _, 0 :: place, e => V place e
  | _ :: parts, (i + 1) :: place, e => InParts parts (i :: place) e
  | _, _, _ => False

variable {V W : Place → Error → Prop} {parts : List (Place → Error → Prop)} {l m : List Error}
  {place : Place} {e : Error}

theorem before_cons_iff {i j : Nat} {p q : Place} :
    Before (i :: p) (j :: q) ↔ i < j ∨ i = j ∧ Before p q := List.cons_lex_cons_iff

theorem not_inParts_nil : ¬InParts [] place e := nofun

theorem not_inParts_here : ¬InParts parts [] e := by cases parts <;> exact nofun

theorem inParts_iff {i : Nat} :
    InParts parts (i :: place) e ↔ ∃ V, parts[i]? = some V ∧ V place e := by
  induction parts generalizing i with
  | nil => simp [InParts]
  | cons V parts ih =>
    cases i with
    | zero => simp [InParts]
    | succ i => simpa [InParts] using ih

theorem inParts_one (wrong : InParts [V] place e) : ∃ rest, place = 0 :: rest ∧ V rest e := by
  obtain _ | ⟨_ | i, rest⟩ := place
  · exact absurd wrong not_inParts_here
  · exact ⟨rest, rfl, wrong⟩
  · cases wrong

theorem inParts_two (wrong : InParts [V, W] place e) :
    (∃ rest, place = 0 :: rest ∧ V rest e) ∨ ∃ rest, place = 1 :: rest ∧ W rest e := by
  obtain _ | ⟨_ | i, rest⟩ := place
  · exact absurd wrong not_inParts_here
  · exact .inl ⟨rest, rfl, wrong⟩
  · obtain ⟨_, same, there⟩ := inParts_one (V := W) wrong
    cases same
    exact .inr ⟨rest, rfl, there⟩

theorem inParts_mapIdx {α : Type} {f : Nat → α → Place → Error → Prop} {l : List α} :
    InParts (l.mapIdx f) place e ↔
      ∃ i a rest, place = i :: rest ∧ l[i]? = some a ∧ f i a rest e := by
  cases place with
  | nil => simp [not_inParts_here]
  | cons i rest => simp [inParts_iff, and_assoc]

theorem inParts_map {α : Type} {f : α → Place → Error → Prop} {l : List α} :
    InParts (l.map f) place e ↔ ∃ i a rest, place = i :: rest ∧ l[i]? = some a ∧ f a rest e := by
  cases place with
  | nil => simp [not_inParts_here]
  | cons i rest => simp [inParts_iff, and_assoc]

theorem First.congr (first : First V l) (same : ∀ place e, V place e ↔ W place e) : First W l := by
  obtain rfl : V = W := by
    funext place e
    exact propext (same place e)
  exact first

theorem first_here {V : Error → Prop} (wrong : V e) (only : ∀ e', V e' → e = e') :
    First (Here V) [e] :=
  ⟨[], ⟨rfl, wrong⟩, fun _ e' ⟨here, wrong'⟩ => .inr ⟨here.symm, only e' wrong'⟩⟩

theorem first_nil_here {V : Error → Prop} (right : ∀ e, ¬V e) : First (Here V) [] :=
  fun _ e wrong => right e wrong.2

theorem first_ite {p : Prop} [Decidable p] :
    First (Here fun e' => p ∧ e' = e) (if p then [e] else []) := by
  split
  · next h => exact first_here ⟨h, rfl⟩ fun _ wrong => wrong.2.symm
  · next h => exact first_nil_here fun _ wrong => h wrong.1

theorem first_nil : First (InParts []) [] := fun _ _ => not_inParts_nil

/-- The check of a part in front of those of all later parts. -/
theorem first_append (front : First V l) (back : First (InParts parts) m) :
    First (InParts (V :: parts)) (l ++ m) := by
  cases l with
  | nil =>
    -- nothing is wrong with the first part, and the others only count one further
    have later {place : Place} {e : Error} (wrong : InParts (V :: parts) place e) :
        ∃ i rest, place = (i + 1) :: rest ∧ InParts parts (i :: rest) e := by
      match place, wrong with
      | 0 :: rest, wrong => exact absurd wrong (front rest e)
      | (i + 1) :: rest, wrong => exact ⟨i, rest, rfl, wrong⟩
    cases m with
    | nil =>
      intro place e wrong
      obtain ⟨i, rest, -, wrong⟩ := later wrong
      exact back (i :: rest) e wrong
    | cons e m =>
      obtain ⟨_ | ⟨i, rest⟩, wrong, least⟩ := back
      · exact absurd wrong not_inParts_here
      refine ⟨(i + 1) :: rest, wrong, fun place' e' wrong' => ?_⟩
      obtain ⟨j, rest', rfl, there⟩ := later wrong'
      simpa [before_cons_iff] using least (j :: rest') e' there
  | cons e l =>
    obtain ⟨place, wrong, least⟩ := front
    refine ⟨0 :: place, wrong, fun place' e' wrong' => ?_⟩
    match place', wrong' with
    | 0 :: rest, there => simpa [before_cons_iff] using least rest e' there
    | (j + 1) :: rest, _ => exact .inl (before_cons_iff.mpr (.inl j.succ_pos))

theorem first_last (last : First V l) : First (InParts [V]) l := by
  have both := first_append last first_nil
  rwa [List.append_nil] at both

/-! ## Checks along a list -/

section InTurn

variable {α : Type}

/-- The checks of elements one after the other, each with the names of those before it. -/
def inTurn (name : α → String) (check : List String → α → List Error) (taken : List String) :
    List α → List Error
  | [] => []
  | a :: rest => check taken a ++ inTurn name check (name a :: taken) rest

/-- Which names are taken matters, and not in which order they were met. -/
def SameNames (taken earlier : List String) : Prop := ∀ n, n ∈ taken ↔ n ∈ earlier

theorem first_inTurn {name : α → String} {check : List String → α → List Error}
    {wrong : List String → α → Place → Error → Prop}
    (each : ∀ {taken earlier}, SameNames taken earlier →
      ∀ a, First (wrong earlier a) (check taken a))
    {taken earlier : List String} (same : SameNames taken earlier) (l : List α) :
    First (InParts (l.mapIdx fun i a => wrong (earlier ++ (l.take i).map name) a))
      (inTurn name check taken l) := by
  induction l generalizing taken earlier with
  | nil => exact first_nil
  | cons a l ih =>
    have next : SameNames (name a :: taken) (earlier ++ [name a]) := by
      intro n
      rw [List.mem_cons, List.mem_append, List.mem_singleton, same n, or_comm]
    have rest := ih next
    simp only [List.append_assoc, List.singleton_append] at rest
    simp only [List.mapIdx_cons, List.take_zero, List.map_nil, List.append_nil, List.take_succ_cons,
      List.map_cons]
    exact first_append (each same a) rest

theorem first_flatMap {check : α → List Error} {wrong : α → Place → Error → Prop}
    (each : ∀ a, First (wrong a) (check a)) (l : List α) :
    First (InParts (l.map wrong)) (l.flatMap check) := by
  induction l with
  | nil => exact first_nil
  | cons a l ih => exact first_append (each a) ih

end InTurn

variable {s : Schema}

theorem inputViolations_eq (owner kind : String) (taken : List String) (values : List InputValue) :
    s.inputViolations owner kind taken values =
      inTurn (·.name) (fun taken v => repetitionViolations owner kind v.name taken ++
        s.referenceViolations v.type.innermost (path owner v.name)) taken values := by
  induction values generalizing taken with
  | nil => rfl
  | cons v rest ih => rw [inputViolations, inTurn, ih]

theorem fieldViolations_eq (owner : String) (taken : List String) (fields : List Field) :
    s.fieldViolations owner taken fields =
      inTurn (·.name) (fun taken f => repetitionViolations owner "field" f.name taken ++
        (s.referenceViolations f.type.innermost (path owner f.name) ++
          s.inputViolations (path owner f.name) "argument" [] f.args)) taken fields := by
  induction fields generalizing taken with
  | nil => rfl
  | cons f rest ih => simp only [fieldViolations, inTurn, ih, List.append_assoc]

theorem valueViolations_eq (owner : String) (taken : List String) (values : List EnumValue) :
    valueViolations owner taken values =
      inTurn (·.name) (fun taken v => repetitionViolations owner "value" v.name taken) taken
        values := by
  induction values generalizing taken with
  | nil => rfl
  | cons v rest ih => rw [valueViolations, inTurn, ih]

/-! ## The checks of a schema -/

theorem first_repetition {owner kind name : String} {taken earlier : List String}
    (same : SameNames taken earlier) :
    First (Here fun e => name ∈ earlier ∧ e = .duplicateMember owner kind name)
      (repetitionViolations owner kind name taken) := by
  rw [← same name]
  exact first_ite

theorem first_values (owner : String) (values : List EnumValue) :
    First (InParts (values.mapIdx fun i v => Here fun e =>
        v.name ∈ (values.take i).map (·.name) ∧ e = .duplicateMember owner "value" v.name))
      (valueViolations owner [] values) := by
  rw [valueViolations_eq]
  have each {taken earlier : List String} (same : SameNames taken earlier) (v : EnumValue) :
      First (Here fun e => v.name ∈ earlier ∧ e = .duplicateMember owner "value" v.name)
        (repetitionViolations owner "value" v.name taken) :=
    first_repetition same
  exact first_inTurn each (fun _ => Iff.rfl) values

theorem Built.first_reference (built : s.Built) {name referencedBy : String} :
    First (Here fun e => ¬s.Provides name ∧ e = .typeNotFound name referencedBy)
      (s.referenceViolations name referencedBy) := by
  have known :
      (s.contains name || (BuiltinScalar.ofName? name).isSome) = true ↔ s.Provides name := by
    rw [Bool.or_eq_true, ← built.knows_iff, Knows]
  rw [referenceViolations, ← ite_not, ← known]
  exact first_ite

theorem Built.first_input (built : s.Built) {owner kind : String} {taken earlier : List String}
    (same : SameNames taken earlier) (v : InputValue) :
    First (s.InputViolation owner kind earlier v)
      (repetitionViolations owner kind v.name taken ++
        s.referenceViolations v.type.innermost (path owner v.name)) := by
  refine (first_append (first_repetition same) (first_last built.first_reference)).congr ?_
  intro place e
  constructor
  · intro wrong
    obtain ⟨_, rfl, rfl, taken, rfl⟩ | ⟨_, rfl, rfl, unknown, rfl⟩ := inParts_two wrong
    · exact .repeated taken
    · exact .unresolved unknown
  · intro wrong
    cases wrong with
    | repeated taken => exact ⟨rfl, taken, rfl⟩
    | unresolved unknown => exact ⟨rfl, unknown, rfl⟩

theorem Built.first_inputs (built : s.Built) (owner kind : String) (values : List InputValue) :
    First (InParts (values.mapIdx fun i v =>
        s.InputViolation owner kind ((values.take i).map (·.name)) v))
      (s.inputViolations owner kind [] values) := by
  rw [inputViolations_eq]
  exact first_inTurn built.first_input (fun _ => Iff.rfl) values

theorem Built.first_field (built : s.Built) {owner : String} {taken earlier : List String}
    (same : SameNames taken earlier) (f : Field) :
    First (s.FieldViolation owner earlier f)
      (repetitionViolations owner "field" f.name taken ++
        (s.referenceViolations f.type.innermost (path owner f.name) ++
          s.inputViolations (path owner f.name) "argument" [] f.args)) := by
  refine (first_append (first_repetition same) (first_append built.first_reference
    (first_last (built.first_inputs (path owner f.name) "argument" f.args)))).congr ?_
  intro place e
  constructor
  · intro wrong
    match place, e, wrong with
    | 0 :: _, _, ⟨rfl, taken, rfl⟩ => exact .repeated taken
    | 1 :: _, _, ⟨rfl, unknown, rfl⟩ => exact .unresolved unknown
    | 2 :: place, e, wrong =>
      obtain ⟨i, a, rest, rfl, there, wrong⟩ := inParts_mapIdx.mp wrong
      exact .argument there wrong
  · intro wrong
    cases wrong with
    | repeated taken => exact ⟨rfl, taken, rfl⟩
    | unresolved unknown => exact ⟨rfl, unknown, rfl⟩
    | argument there wrong => exact inParts_mapIdx.mpr ⟨_, _, _, rfl, there, wrong⟩

theorem Built.first_interface (built : s.Built) (owner name : String) :
    First (Here (s.InterfaceViolation owner name)) (s.interfaceViolations owner name) := by
  unfold interfaceViolations
  cases found : s.find? name with
  | none =>
    have unknown := built.find?_eq_none_iff.mp found
    refine first_here (.undeclared unknown) fun e' wrong => ?_
    cases wrong with
    | undeclared => rfl
    | other last => exact absurd last.declares unknown
  | some d =>
    have stands := built.find?_eq_some_iff_standsFor.mp found
    by_cases h : d.kind = .interface
    · simp only [h, if_true]
      refine first_nil_here fun e wrong => ?_
      cases wrong with
      | undeclared unknown => exact unknown stands.declares
      | other last other => exact other (built.standsFor_unique last stands ▸ h)
    · simp only [h, if_false]
      refine first_here (.other stands h) fun e wrong => ?_
      cases wrong with
      | undeclared unknown => exact absurd stands.declares unknown
      | other => rfl

theorem Built.first_member (built : s.Built) (union name : String) :
    First (Here (s.MemberViolation union name)) (s.memberViolations union name) := by
  unfold memberViolations
  cases found : s.find? name with
  | none =>
    have undeclared := built.find?_eq_none_iff.mp found
    by_cases h : (BuiltinScalar.ofName? name).isSome = true
    · simp only [h, if_true]
      obtain ⟨scalar, named⟩ := isSome_ofName?_iff.mp h
      refine first_here (.builtin undeclared scalar named) fun e wrong => ?_
      cases wrong with
      | unresolved unknown => exact absurd (.inr ⟨scalar, named⟩) unknown
      | builtin => rfl
      | other last => exact absurd last.declares undeclared
    · simp only [h]
      have unknown : ¬s.Provides name := fun provided =>
        provided.elim undeclared fun scalar => h (isSome_ofName?_iff.mpr scalar)
      refine first_here (.unresolved unknown) fun e wrong => ?_
      cases wrong with
      | unresolved => rfl
      | builtin _ scalar named => exact absurd (.inr ⟨scalar, named⟩) unknown
      | other last => exact absurd last.declares undeclared
  | some d =>
    have stands := built.find?_eq_some_iff_standsFor.mp found
    by_cases h : d.kind = .object
    · simp only [h, if_true]
      refine first_nil_here fun e wrong => ?_
      cases wrong with
      | unresolved unknown => exact unknown (.inl stands.declares)
      | builtin undeclared => exact undeclared stands.declares
      | other last other => exact other (built.standsFor_unique last stands ▸ h)
    · simp only [h, if_false]
      refine first_here (.other stands h) fun e wrong => ?_
      cases wrong with
      | unresolved unknown => exact absurd (.inl stands.declares) unknown
      | builtin undeclared => exact absurd stands.declares undeclared
      | other last => rw [built.standsFor_unique last stands]

/-- Objects and interfaces are checked alike. -/
theorem Built.first_output (built : s.Built) (owner : String) (interfaces : List String)
    (fields : List Field) :
    First (InParts [InParts (interfaces.map fun name => Here (s.InterfaceViolation owner name)),
        InParts (fields.mapIdx fun i f =>
          s.FieldViolation owner ((fields.take i).map (·.name)) f)])
      (interfaces.flatMap (s.interfaceViolations owner) ++ s.fieldViolations owner [] fields) := by
  rw [fieldViolations_eq]
  exact first_append (first_flatMap (built.first_interface owner) interfaces)
    (first_last (first_inTurn built.first_field (fun _ => Iff.rfl) fields))

theorem Built.first_type (built : s.Built) (d : TypeDef) :
    First (s.TypeViolation d) (s.definitionViolations d) := by
  obtain ⟨name, description, body⟩ := d
  -- a definition has the parts of its own kind only, so all other violations are out of question
  cases body with
  | object interfaces fields | interface interfaces fields =>
    refine (built.first_output name interfaces fields).congr fun place e => ⟨?_, ?_⟩
    · intro parts
      obtain ⟨_, rfl, part⟩ | ⟨_, rfl, part⟩ := inParts_two parts
      · obtain ⟨i, n, rest, rfl, there, rfl, wrong⟩ := inParts_map.mp part
        exact .interface there wrong
      · obtain ⟨i, f, rest, rfl, there, wrong⟩ := inParts_mapIdx.mp part
        exact .field there wrong
    · intro wrong
      cases wrong with
      | interface there wrong => exact inParts_map.mpr ⟨_, _, _, rfl, there, rfl, wrong⟩
      | field there wrong => exact inParts_mapIdx.mpr ⟨_, _, _, rfl, there, wrong⟩
      | _ => contradiction
  | union members =>
    cases members with
    | nil =>
      refine ⟨[0], .emptyUnion rfl, fun place e wrong => ?_⟩
      cases wrong with
      | emptyUnion => exact .inr ⟨rfl, rfl⟩
      | _ => contradiction
    | cons m rest =>
      refine (first_flatMap (built.first_member name) (m :: rest)).congr fun place e => ⟨?_, ?_⟩
      · intro part
        obtain ⟨i, m, rest, rfl, there, rfl, wrong⟩ := inParts_map.mp part
        exact .member there wrong
      · intro wrong
        cases wrong with
        | member there wrong => exact inParts_map.mpr ⟨_, _, _, rfl, there, rfl, wrong⟩
        | emptyUnion empty => cases empty
        | _ => contradiction
  | scalar =>
    rw [definitionViolations]
    refine (first_last first_ite).congr fun place e => ⟨?_, ?_⟩
    · intro part
      obtain ⟨_, rfl, rfl, taken, rfl⟩ := inParts_one part
      obtain ⟨builtin, named⟩ := isSome_ofName?_iff.mp taken
      exact .redefined rfl builtin named
    · intro wrong
      cases wrong with
      | redefined _ builtin named => exact ⟨rfl, isSome_ofName?_iff.mpr ⟨builtin, named⟩, rfl⟩
      | _ => contradiction
  | enum values =>
    refine (first_values name values).congr fun place e => ⟨?_, ?_⟩
    · intro part
      obtain ⟨i, v, rest, rfl, there, rfl, taken, rfl⟩ := inParts_mapIdx.mp part
      exact .value there taken
    · intro wrong
      cases wrong with
      | value there taken => exact inParts_mapIdx.mpr ⟨_, _, _, rfl, there, rfl, taken, rfl⟩
      | _ => contradiction
  | inputObject fields =>
    refine (built.first_inputs name "input field" fields).congr fun place e => ⟨?_, ?_⟩
    · intro part
      obtain ⟨i, v, rest, rfl, there, wrong⟩ := inParts_mapIdx.mp part
      exact .inputField there wrong
    · intro wrong
      cases wrong with
      | inputField there wrong => exact inParts_mapIdx.mpr ⟨_, _, _, rfl, there, wrong⟩
      | _ => contradiction

theorem Built.first_root (built : s.Built) (op : Operation) :
    First (Here fun e => ∃ name, s.roots.get? op = some name ∧ ¬s.Names name .object ∧
        e = .invalidRootType op.text name)
      (s.rootViolations op) := by
  unfold rootViolations
  cases named : s.roots.get? op with
  | none => exact first_nil_here (by simp)
  | some name =>
    by_cases object : s.Names name .object
    · simp only [built.isObject_iff.mpr object, if_true]
      exact first_nil_here fun e ⟨_, there, other, _⟩ => other (Option.some.inj there ▸ object)
    · simp only [mt built.isObject_iff.mp object]
      refine first_here ⟨name, rfl, object, rfl⟩ fun e ⟨_, there, _, wrong⟩ => ?_
      rw [wrong, Option.some.inj there]

/-- The violations of a built schema begin with the one that is read first. -/
theorem Built.first_violations (built : s.Built) : First s.Violation s.violations := by
  refine (first_append (first_flatMap built.first_root Operation.all)
    (first_last (first_flatMap built.first_type s.types))).congr fun place e => ⟨?_, ?_⟩
  · intro parts
    obtain ⟨_, rfl, part⟩ | ⟨_, rfl, part⟩ := inParts_two parts
    · obtain ⟨i, op, rest, rfl, there, rfl, name, named, other, rfl⟩ := inParts_map.mp part
      exact .root there named other
    · obtain ⟨i, d, rest, rfl, there, wrong⟩ := inParts_map.mp part
      exact .type there wrong
  · intro wrong
    cases wrong with
    | root there named other =>
      exact inParts_map.mpr ⟨_, _, _, rfl, there, rfl, _, named, other, rfl⟩
    | type there wrong => exact inParts_map.mpr ⟨_, _, _, rfl, there, wrong⟩

/-- A schema is accepted exactly if it is well-formed, and any other is refused with the violation
that is read first. -/
theorem validate_reports (built : s.Built) :
    (s.validate = .ok () ↔ s.WellFormed) ∧
      ∀ e, s.validate = .error e ↔
        ∃ place, s.Violation place e ∧
          ∀ place' e', s.Violation place' e' → place = place' ∨ Before place place' := by
  have first := built.first_violations
  refine ⟨validate_eq_ok_iff.trans built.violations_eq_nil_iff, fun e => ?_⟩
  unfold validate
  cases violations : s.violations with
  | nil =>
    rw [violations] at first
    exact iff_of_false nofun fun ⟨place, wrong, _⟩ => first place e wrong
  | cons e₀ rest =>
    rw [violations] at first
    obtain ⟨place₀, wrong₀, least⟩ := first
    rw [Except.error.injEq]
    constructor
    · rintro rfl
      refine ⟨place₀, wrong₀, fun place' e' wrong => ?_⟩
      exact (least place' e' wrong).symm.imp And.left id
    · rintro ⟨place, wrong, first⟩
      obtain before | ⟨-, same⟩ := least place e wrong
      · obtain rfl | after := first place₀ e₀ wrong₀
        · exact absurd before (List.lex_irrefl Nat.lt_irrefl place)
        · exact absurd after (List.lex_asymm Nat.lt_asymm before)
      · exact same

/-- Two schemas that declare a name twice. With the interface last everything is in order; with the
enum last the interface that is implemented is none, which is read before the repeated field. -/
theorem validate_reports_examples :
    let query (fields : List Field) : TypeDef := ⟨"Query", none, .object ["Shape"] fields⟩
    let enum : TypeDef := ⟨"Shape", none, .enum [{ name := "ROUND" }]⟩
    let interface : TypeDef := ⟨"Shape", none, .interface [] []⟩
    let a : Field := { name := "a", type := .named "Shape" }
    let right := ofTypes [query [a], enum, interface] { query := some "Query" }
    let wrong := ofTypes [query [a, a], interface, enum] { query := some "Query" }
    right.WellFormed ∧
      ∃ place, wrong.Violation place (.invalidImplements "Query" "Shape") ∧
        ∀ place' e', wrong.Violation place' e' → place = place' ∨ Before place place' := by
  intro query enum interface a right wrong
  constructor
  · exact (validate_reports (built_ofTypes _ _)).1.mp rfl
  · exact ((validate_reports (built_ofTypes _ _)).2 _).mp rfl

end ResolverTypes.Schema
