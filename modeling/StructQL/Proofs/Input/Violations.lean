import StructQL.Proofs.Input.Exact
import StructQL.Proofs.Table

/-!
# What is wrong with an input value

Each fault of an input value tells of one sub-value, to which its place leads, and of what is wrong
with this sub-value at the type that is reached there.

* `Json.at?`: the sub-value to which steps lead.
* `InputCoercer.Reaches`: the sub-values, each with its type, that are looked at.
* `InputProblem`, `InputCoercer.HasProblem`: what can be wrong with a value at a type.
* `InputProblem.fault`: what is reported of it at a place.
* `InputViolation`: a problem, and the steps to the value that has it.
* `mem_valueFaults_iff`: the faults of a value are those of the problems of its sub-values.
* `InputViolation.Holds.eq_of_fault`: no fault tells of two violations.
* `coerce_reports_violations`: **each fault tells of one violation, and each violation is reported
  once.**
-/

namespace StructQL

/-- **The sub-value to which steps lead.** -/
def Json.at? : List InputStep → Json → Option Json
  | [], v => some v
  | .field name :: steps, .object entries =>
    match entries.lookup name.text with
    | some v => at? steps v
    | none => none
  | .index i :: steps, .array items =>
    match items[i]? with
    | some v => at? steps v
    | none => none
  | _ :: _, _ => none

/-- **What can be wrong with a value** at a type, with all that is said about it. -/
inductive InputProblem where
  /-- Null is no value of the type. -/
  | null (type : TypeRef)
  /-- The scalar or the enum does not take the value. -/
  | leaf (message : String)
  /-- The type is not defined. -/
  | undefined (name : Name)
  /-- Values of the kind cannot be coerced. -/
  | uncoercible (name : Name) (kind : TypeKind)
  /-- The value of a struct is no object. -/
  | noStruct (name : Name) (found : Json)
  /-- The value of a struct union is no object. -/
  | noMember (name : Name) (found : Json)
  /-- The object says that it is something else. -/
  | otherTypename (name : Name) (found : Json)
  /-- The object does not say which member it is. -/
  | missingDiscriminator (union : Name)
  /-- The object says that it is something that is no member. -/
  | unknownDiscriminator (union : Name) (found : Json)
  /-- The object lacks a field that must not be null. -/
  | missingField (struct field : Name)
  /-- The object has a field that is not defined. -/
  | unknownField (struct : Name) (key : String)

/-- **What is reported of a problem** at a place. -/
def InputProblem.fault (path : InputPath) : InputProblem → Fault
  | null type =>
    .invalidInputValue path.text s!"Expected a non-null value of type \"{type}\""
  | leaf message => .invalidInputValue path.text message
  | undefined name => .invalidInputValue path.text s!"Unknown type \"{name}\""
  | uncoercible name kind =>
    .invalidInputValue path.text s!"\"{name}\" is {kind} and cannot be coerced as struct input"
  | noStruct name found =>
    .invalidInputValue path.text
      s!"Expected an object for struct \"{name}\", found {found.compact}"
  | noMember name found =>
    .invalidInputValue path.text
      s!"Expected an object for struct union \"{name}\", found {found.compact}"
  | otherTypename name found => .typeMismatch path.text name (InputCoercer.discriminatorText found)
  | missingDiscriminator union => .missingDiscriminator path.text union
  | unknownDiscriminator union found =>
    .unknownDiscriminator path.text union (InputCoercer.discriminatorText found)
  | missingField struct field => .missingRequiredField path.text struct field
  | unknownField struct key => .unknownInputField path.text struct key

namespace InputCoercer

/-- **The struct that an object is taken for** at a named type: the struct of the name, or the member
of the struct union that the object names. -/
inductive TakenFor (c : InputCoercer) (name : Name) (entries : List (String × Json)) :
    StructType → Prop where
  | struct {type : StructType} : c.schema.type? name = some (.struct type) →
    (∀ v, entries.lookup Name.typename.text = some v → v = .string name.text) →
    TakenFor c name entries type
  | member {union : UnionType} {member : Name} {type : StructType} :
    c.schema.type? name = some (.structUnion union) → member ∈ union.members →
    entries.lookup Name.typename.text = some (.string member.text) →
    c.schema.type? member = some (.struct type) → TakenFor c name entries type

/-- **A sub-value that is looked at**, and its type: the steps lead there from a value at a type. No
step is taken where a single value stands for a list of one. Below a value that is refused as a whole
nothing is looked at. -/
inductive Reaches (c : InputCoercer) : TypeRef → Json → List InputStep → TypeRef → Json → Prop where
  | here {type : TypeRef} {v : Json} : Reaches c type v [] type v
  | item {item type : TypeRef} {nonNull : Bool} {items : List Json} {i : Nat} {v w : Json}
    {steps : List InputStep} : items[i]? = some v → Reaches c item v steps type w →
    Reaches c (.list item nonNull) (.array items) (.index i :: steps) type w
  | single {item type : TypeRef} {nonNull : Bool} {v w : Json} {steps : List InputStep} :
    v ≠ .null → (∀ items, v ≠ .array items) → Reaches c item v steps type w →
    Reaches c (.list item nonNull) v steps type w
  | field {name : Name} {type : TypeRef} {nonNull : Bool} {entries : List (String × Json)}
    {struct : StructType} {field : Field} {v w : Json} {steps : List InputStep} :
    TakenFor c name entries struct → field ∈ struct.fields.toList →
    entries.lookup field.name.text = some v → Reaches c field.type v steps type w →
    Reaches c (.named name nonNull) (.object entries) (.field field.name :: steps) type w

/-- **What is wrong with a value itself** at a type. -/
inductive HasProblem (c : InputCoercer) : TypeRef → Json → InputProblem → Prop where
  | null {type : TypeRef} : type.isNonNull = true → HasProblem c type .null (.null type)
  | scalar {name scalarName : Name} {nonNull : Bool} {v : Json} {message : String} : v ≠ .null →
    c.schema.type? name = some (.scalar scalarName) → c.leaves.scalar name v = .error message →
    HasProblem c (.named name nonNull) v (.leaf message)
  | enum {name : Name} {nonNull : Bool} {v : Json} {type : EnumType} {message : String} :
    v ≠ .null → c.schema.type? name = some (.enum type) → c.leaves.enum type v = .error message →
    HasProblem c (.named name nonNull) v (.leaf message)
  | undefined {name : Name} {nonNull : Bool} {v : Json} : v ≠ .null →
    c.schema.type? name = none → HasProblem c (.named name nonNull) v (.undefined name)
  | uncoercible {name : Name} {nonNull : Bool} {v : Json} {type : TypeDefinition} : v ≠ .null →
    c.schema.type? name = some type →
    type.kind ∈ [TypeKind.object, .interface, .union, .inputObject] →
    HasProblem c (.named name nonNull) v (.uncoercible name type.kind)
  | noStruct {name : Name} {nonNull : Bool} {v : Json} {type : StructType} : v ≠ .null →
    c.schema.type? name = some (.struct type) → (∀ entries, v ≠ .object entries) →
    HasProblem c (.named name nonNull) v (.noStruct name v)
  | noMember {name : Name} {nonNull : Bool} {v : Json} {type : UnionType} : v ≠ .null →
    c.schema.type? name = some (.structUnion type) → (∀ entries, v ≠ .object entries) →
    HasProblem c (.named name nonNull) v (.noMember name v)
  | otherTypename {name : Name} {nonNull : Bool} {entries : List (String × Json)}
    {type : StructType} {found : Json} : c.schema.type? name = some (.struct type) →
    entries.lookup Name.typename.text = some found → found ≠ .string name.text →
    HasProblem c (.named name nonNull) (.object entries) (.otherTypename name found)
  | missingDiscriminator {name : Name} {nonNull : Bool} {entries : List (String × Json)}
    {type : UnionType} : c.schema.type? name = some (.structUnion type) →
    entries.lookup Name.typename.text = none ∨ entries.lookup Name.typename.text = some .null →
    HasProblem c (.named name nonNull) (.object entries) (.missingDiscriminator name)
  | unknownDiscriminator {name : Name} {nonNull : Bool} {entries : List (String × Json)}
    {type : UnionType} {found : Json} : c.schema.type? name = some (.structUnion type) →
    entries.lookup Name.typename.text = some found → found ≠ .null →
    (∀ member ∈ type.members, found ≠ .string member.text) →
    HasProblem c (.named name nonNull) (.object entries) (.unknownDiscriminator name found)
  | missingField {name : Name} {nonNull : Bool} {entries : List (String × Json)}
    {struct : StructType} {field : Field} : TakenFor c name entries struct →
    field ∈ struct.fields.toList → entries.lookup field.name.text = none →
    field.type.isNonNull = true →
    HasProblem c (.named name nonNull) (.object entries) (.missingField struct.name field.name)
  | unknownField {name : Name} {nonNull : Bool} {entries : List (String × Json)}
    {struct : StructType} {key : String} : TakenFor c name entries struct →
    c.config.rejectUnknownInputFields = true → key ∈ entries.map Prod.fst →
    key ≠ Name.typename.text → (∀ field ∈ struct.fields.toList, field.name.text ≠ key) →
    HasProblem c (.named name nonNull) (.object entries) (.unknownField struct.name key)

end InputCoercer

/-- **A problem of a sub-value**, and the steps to this value. -/
structure InputViolation where
  steps : List InputStep
  problem : InputProblem

namespace InputViolation

/-- **The sub-value is looked at, and it has the problem** at the type that is reached. -/
def Holds (c : InputCoercer) (type : TypeRef) (v : Json) (x : InputViolation) : Prop :=
  ∃ there w, c.Reaches type v x.steps there w ∧ c.HasProblem there w x.problem

/-- **What is reported of the violation** in a value at a place. -/
def fault (path : InputPath) (x : InputViolation) : Fault :=
  x.problem.fault ⟨path.root, path.steps ++ x.steps⟩

end InputViolation

namespace InputCoercer

variable {c : InputCoercer} {type item there : TypeRef} {name : Name} {nonNull : Bool} {v w : Json}
  {entries : List (String × Json)} {struct : StructType} {steps : List InputStep}
  {path : InputPath} {p q : InputProblem} {f : Fault}

/-! ## Sub-values -/

/-- **The steps lead to a sub-value** of the input. -/
theorem Reaches.at? (h : c.Reaches type v steps there w) : v.at? steps = some w := by
  induction h with
  | here => rw [Json.at?]
  | item hget _ ih =>
    rw [Json.at?, hget]
    exact ih
  | single _ _ _ ih => exact ih
  | field _ _ hl _ ih =>
    rw [Json.at?, hl]
    exact ih

/-- An object is taken for one struct. -/
theorem TakenFor.unique {other : StructType} (h : TakenFor c name entries struct)
    (h' : TakenFor c name entries other) : struct = other := by
  cases h with
  | struct htype _ =>
    cases h' with
    | struct htype' _ =>
      rw [htype] at htype'
      exact TypeDefinition.struct.inj (Option.some.inj htype')
    | member htype' _ _ _ =>
      rw [htype] at htype'
      cases htype'
  | member htype _ hl hstruct =>
    cases h' with
    | struct htype' _ =>
      rw [htype] at htype'
      cases htype'
    | member _ _ hl' hstruct' =>
      rw [hl] at hl'
      obtain rfl := Name.ext_text (Json.string.inj (Option.some.inj hl'))
      rw [hstruct] at hstruct'
      exact TypeDefinition.struct.inj (Option.some.inj hstruct')

/-- No single value stands for a list here: the value is null, or it is of a named type. -/
def Settled (type : TypeRef) (v : Json) : Prop := v = .null ∨ ∃ name nonNull, type = .named name nonNull

theorem HasProblem.settled (h : c.HasProblem type v p) : Settled type v := by
  cases h with
  | null _ => exact .inl rfl
  | _ => exact .inr ⟨_, _, rfl⟩

/-- **Steps lead to one value** at which no single value stands for a list, and to one type. -/
theorem Reaches.unique {there' : TypeRef} {w' : Json} (h : c.Reaches type v steps there w)
    (h' : c.Reaches type v steps there' w') (hw : Settled there w) (hw' : Settled there' w') :
    there = there' ∧ w = w' := by
  induction h with
  | @here type v =>
    cases h' with
    | here => exact ⟨rfl, rfl⟩
    | single hv _ _ =>
      obtain hnull | ⟨_, _, htype⟩ := hw
      · exact absurd hnull hv
      · cases htype
  | item hget _ ih =>
    cases h' with
    | item hget' h' =>
      rw [hget] at hget'
      obtain rfl := Option.some.inj hget'
      exact ih h' hw
    | single _ ha _ => exact absurd rfl (ha _)
  | single hv ha _ ih =>
    cases h' with
    | here =>
      obtain hnull | ⟨_, _, htype⟩ := hw'
      · exact absurd hnull hv
      · cases htype
    | item => exact absurd rfl (ha _)
    | single _ _ h' => exact ih h' hw
  | @field name type nonNull entries struct field v w steps htaken hfield hl _ ih =>
    generalize hsteps : InputStep.field field.name :: steps = all at h'
    cases h' with
    | here => cases hsteps
    | @field _ _ _ _ _ other _ _ _ htaken' hother hl' h' =>
      obtain ⟨hstep, rfl⟩ := List.cons.inj hsteps
      obtain rfl := htaken.unique htaken'
      obtain rfl : field = other :=
        Table.eq_of_nameOf_eq hfield hother (InputStep.field.inj hstep)
      rw [hl] at hl'
      obtain rfl := Option.some.inj hl'
      exact ih h' hw

/-- **What is reported of a problem tells which it is**, among the problems of one value: those that
are reported alike are of types of different kinds. -/
theorem HasProblem.eq_of_fault (hp : c.HasProblem type v p) (hq : c.HasProblem type v q)
    (h : p.fault path = q.fault path) : p = q := by
  cases hp <;> cases hq <;> grind [InputProblem.fault, TypeDefinition.kind]

/-! ## Faults of items and fields -/

theorem mem_itemsFaults_iff {items : List Json} {i : Nat} :
    f ∈ c.itemsFaults item items path i ↔
      ∃ j v, items[j]? = some v ∧ f ∈ c.valueFaults item v (path.step (.index (i + j))) := by
  induction items generalizing i with
  | nil =>
    rw [itemsFaults]
    simp
  | cons first rest ih =>
    rw [itemsFaults, List.mem_append, ih]
    constructor
    · rintro (hf | ⟨j, v, hget, hf⟩)
      · exact ⟨0, first, rfl, hf⟩
      · refine ⟨j + 1, v, hget, ?_⟩
        rwa [show i + (j + 1) = i + 1 + j by omega]
    · rintro ⟨j, v, hget, hf⟩
      cases j with
      | zero =>
        obtain rfl : first = v := Option.some.inj hget
        exact .inl hf
      | succ j =>
        refine .inr ⟨j, v, hget, ?_⟩
        rwa [show i + 1 + j = i + (j + 1) by omega]

theorem mem_fieldsFaults_iff {structName : Name} {fields : List Field} :
    f ∈ c.fieldsFaults structName fields entries path ↔
      ∃ field ∈ fields,
        (∃ v, entries.lookup field.name.text = some v ∧
          f ∈ c.valueFaults field.type v (path.step (.field field.name))) ∨
        entries.lookup field.name.text = none ∧ field.type.isNonNull = true ∧
          f = .missingRequiredField path.text structName field.name := by
  induction fields with
  | nil =>
    rw [fieldsFaults]
    simp
  | cons field rest ih =>
    rw [List.exists_mem_cons_iff, ← ih]
    cases hl : entries.lookup field.name.text with
    | some v =>
      rw [fieldsFaults_some hl, List.mem_append]
      simp
    | none =>
      rw [fieldsFaults_none hl, List.mem_append, missingFaults]
      cases field.type.isNonNull <;> simp

theorem valueFaults_object :
    c.valueFaults (.named name nonNull) (.object entries) path =
      c.namedFaults name (.object entries) path :=
  valueFaults_named nofun

/-- An object has the faults of the struct that it is taken for. -/
theorem namedFaults_of_takenFor (h : TakenFor c name entries struct) :
    c.namedFaults name (.object entries) path = c.structFaults struct entries path := by
  rw [namedFaults.eq_def]
  cases h with
  | struct htype hname =>
    rw [htype]
    dsimp only
    rw [typenameFault?_eq_none_iff.2 hname]
  | member htype hmember hl hstruct =>
    rw [htype]
    dsimp only
    rw [discriminate_eq_ok_iff.2 ⟨_, hmember, hl, hstruct⟩]

/-! ## Problems are reported -/

/-- **A problem of a value is reported** at its place. -/
theorem HasProblem.mem_valueFaults (h : c.HasProblem type v p) :
    p.fault path ∈ c.valueFaults type v path := by
  cases h with
  | null hnonNull =>
    rw [valueFaults_null, if_pos hnonNull]
    exact List.mem_singleton_self _
  | scalar hv htype hleaf =>
    rw [valueFaults_named hv, namedFaults, htype]
    exact mem_leafFaults_iff.2 ⟨_, hleaf, rfl⟩
  | enum hv htype hleaf =>
    rw [valueFaults_named hv, namedFaults, htype]
    exact mem_leafFaults_iff.2 ⟨_, hleaf, rfl⟩
  | undefined hv htype =>
    rw [valueFaults_named hv, namedFaults, htype]
    exact List.mem_singleton_self _
  | @uncoercible name nonNull v type hv htype hkind =>
    rw [valueFaults_named hv, namedFaults, htype]
    cases type with
    | object _ | interface _ | union _ | inputObject _ => exact List.mem_singleton_self _
    | scalar _ | enum _ | struct _ | structUnion _ => simp [TypeDefinition.kind] at hkind
  | noStruct hv htype hobject =>
    rw [valueFaults_named hv, namedFaults, htype]
    cases v with
    | object entries => exact absurd rfl (hobject entries)
    | null | bool _ | number _ | string _ | array _ => exact List.mem_singleton_self _
  | noMember hv htype hobject =>
    rw [valueFaults_named hv, namedFaults, htype]
    cases v with
    | object entries => exact absurd rfl (hobject entries)
    | null | bool _ | number _ | string _ | array _ => exact List.mem_singleton_self _
  | otherTypename htype hl hother =>
    rw [valueFaults_object, namedFaults, htype]
    dsimp only
    rw [typenameFault?_eq_some_iff.2 ⟨_, hl, hother, rfl⟩]
    exact List.mem_singleton_self _
  | @missingDiscriminator name _ _ type htype hl =>
    rw [valueFaults_object, namedFaults, htype]
    dsimp only
    rw [discriminate_eq_error_iff.2 (.inl ⟨hl, rfl⟩)]
    have hname : type.name = name := Schema.name_of_type? htype
    rw [hname]
    exact List.mem_singleton_self _
  | @unknownDiscriminator name _ _ type _ htype hl hnull hmembers =>
    rw [valueFaults_object, namedFaults, htype]
    dsimp only
    rw [discriminate_eq_error_iff.2
      (.inr ⟨_, hl, hnull, fun member hmember _ _ => hmembers member hmember, rfl⟩)]
    have hname : type.name = name := Schema.name_of_type? htype
    rw [hname]
    exact List.mem_singleton_self _
  | missingField htaken hfield hl hnonNull =>
    rw [valueFaults_object, namedFaults_of_takenFor htaken, structFaults]
    refine List.mem_append_right _ (mem_fieldsFaults_iff.2 ⟨_, hfield, .inr ⟨hl, hnonNull, rfl⟩⟩)
  | unknownField htaken hreject hkey htypename hfields =>
    rw [valueFaults_object, namedFaults_of_takenFor htaken, structFaults]
    obtain ⟨e, he, rfl⟩ := List.mem_map.1 hkey
    exact List.mem_append_left _
      (mem_unknownFieldFaults.2 ⟨hreject, e, he, htypename, hfields, rfl⟩)

/-- **The faults of a sub-value are faults of the value.** -/
theorem Reaches.mem_valueFaults (h : c.Reaches type v steps there w) :
    ∀ {path : InputPath}, f ∈ c.valueFaults there w ⟨path.root, path.steps ++ steps⟩ →
      f ∈ c.valueFaults type v path := by
  induction h with
  | here =>
    intro path hf
    simpa using hf
  | @item item type nonNull items i v w steps hget _ ih =>
    intro path hf
    rw [valueFaults_array]
    refine mem_itemsFaults_iff.2 ⟨i, v, hget, ih ?_⟩
    simpa [InputPath.step] using hf
  | single hv ha _ ih =>
    intro path hf
    rw [valueFaults_single hv ha]
    exact ih hf
  | field htaken hfield hl _ ih =>
    intro path hf
    rw [valueFaults_object, namedFaults_of_takenFor htaken, structFaults]
    refine List.mem_append_right _ (mem_fieldsFaults_iff.2 ⟨_, hfield, .inl ⟨_, hl, ih ?_⟩⟩)
    simpa [InputPath.step] using hf

end InputCoercer

/-! ## Violations -/

namespace InputViolation

variable {c : InputCoercer} {type itemType : TypeRef} {v : Json} {name : Name} {nonNull : Bool}
  {entries : List (String × Json)} {struct : StructType} {path : InputPath} {p : InputProblem}
  {x y : InputViolation}

/-- The same problem, in a value that is one more step away. -/
def below (s : InputStep) (x : InputViolation) : InputViolation := ⟨s :: x.steps, x.problem⟩

theorem fault_here (path : InputPath) (p : InputProblem) :
    (InputViolation.mk [] p).fault path = p.fault path := by
  simp [fault]

theorem fault_below (path : InputPath) (s : InputStep) (x : InputViolation) :
    (x.below s).fault path = x.fault (path.step s) := by
  simp [fault, below, InputPath.step]

theorem place?_fault (path : InputPath) (x : InputViolation) :
    (x.fault path).place? = some (InputPath.mk path.root (path.steps ++ x.steps)).text := by
  obtain ⟨steps, problem⟩ := x
  cases problem <;> rfl

theorem Holds.here (h : c.HasProblem type v p) : (InputViolation.mk [] p).Holds c type v :=
  ⟨type, v, .here, h⟩

theorem Holds.item {items : List Json} {i : Nat} (hget : items[i]? = some v)
    (h : x.Holds c itemType v) :
    (x.below (.index i)).Holds c (.list itemType nonNull) (.array items) := by
  obtain ⟨there, w, hreach, hproblem⟩ := h
  exact ⟨there, w, .item hget hreach, hproblem⟩

theorem Holds.single (hv : v ≠ .null) (ha : ∀ items, v ≠ .array items)
    (h : x.Holds c itemType v) : x.Holds c (.list itemType nonNull) v := by
  obtain ⟨there, w, hreach, hproblem⟩ := h
  exact ⟨there, w, .single hv ha hreach, hproblem⟩

theorem Holds.field {field : Field} (htaken : c.TakenFor name entries struct)
    (hfield : field ∈ struct.fields.toList) (hl : entries.lookup field.name.text = some v)
    (h : x.Holds c field.type v) :
    (x.below (.field field.name)).Holds c (.named name nonNull) (.object entries) := by
  obtain ⟨there, w, hreach, hproblem⟩ := h
  exact ⟨there, w, .field htaken hfield hl hreach, hproblem⟩

/-- **No fault tells of two violations.** -/
theorem Holds.eq_of_fault (hx : x.Holds c type v) (hy : y.Holds c type v)
    (h : x.fault path = y.fault path) : x = y := by
  obtain ⟨steps, p⟩ := x
  obtain ⟨steps', q⟩ := y
  obtain ⟨there, w, hreach, hp⟩ := hx
  obtain ⟨there', w', hreach', hq⟩ := hy
  -- the faults are at one place, so the same steps lead there
  have hplace := congrArg Fault.place? h
  rw [place?_fault, place?_fault] at hplace
  have hsteps := InputPath.steps_of_text (Option.some.inj hplace)
  obtain rfl : steps = steps' := List.append_cancel_left hsteps
  obtain ⟨rfl, rfl⟩ := hreach.unique hreach' hp.settled hq.settled
  obtain rfl : p = q := hp.eq_of_fault hq h
  rfl

end InputViolation

namespace InputCoercer

variable {c : InputCoercer} {type : TypeRef} {name : Name} {nonNull : Bool} {v : Json}
  {path : InputPath} {f : Fault}

/-! ## Faults tell of problems -/

/-- An object that cannot be taken for a member of a struct union has a problem. -/
theorem exists_problem_of_discriminate {union : UnionType} {entries : List (String × Json)}
    (nonNull : Bool) (hs : c.schema.WellShaped)
    (htype : c.schema.type? name = some (.structUnion union))
    (h : c.discriminate union entries path = .error f) :
    ∃ p, c.HasProblem (.named name nonNull) (.object entries) p ∧ f = p.fault path := by
  obtain rfl : union.name = name := Schema.name_of_type? htype
  obtain ⟨hmissing, rfl⟩ | ⟨found, hl, hnull, hother, rfl⟩ := discriminate_eq_error_iff.1 h
  · exact ⟨_, .missingDiscriminator htype hmissing, rfl⟩
  · -- every member of the union is a struct
    have hmembers : ∀ member ∈ union.members, found ≠ .string member.text := by
      intro member hmember
      obtain ⟨struct, hstruct⟩ := hs.struct_of_member htype hmember
      exact hother member hmember struct hstruct
    exact ⟨_, .unknownDiscriminator htype hl hnull hmembers, rfl⟩

/-- A fault of a value of a named type tells of a problem of the value, or the value is an object that
is taken for a struct. -/
theorem of_mem_namedFaults (nonNull : Bool) (hs : c.schema.WellShaped) (hv : v ≠ .null)
    (h : f ∈ c.namedFaults name v path) :
    (∃ p, c.HasProblem (.named name nonNull) v p ∧ f = p.fault path) ∨
      ∃ entries struct, v = .object entries ∧ TakenFor c name entries struct := by
  rw [namedFaults.eq_def] at h
  dsimp only at h
  cases htype : c.schema.type? name with
  | none =>
    rw [htype] at h
    exact .inl ⟨_, .undefined hv htype, List.mem_singleton.1 h⟩
  | some definition =>
    rw [htype] at h
    cases definition with
    | scalar _ =>
      obtain ⟨message, hleaf, rfl⟩ := mem_leafFaults_iff.1 h
      exact .inl ⟨_, .scalar hv htype hleaf, rfl⟩
    | enum type =>
      obtain ⟨message, hleaf, rfl⟩ := mem_leafFaults_iff.1 h
      exact .inl ⟨_, .enum hv htype hleaf, rfl⟩
    | object _ | interface _ | union _ | inputObject _ =>
      exact .inl ⟨_, .uncoercible hv htype (by simp [TypeDefinition.kind]), List.mem_singleton.1 h⟩
    | struct struct =>
      cases v with
      | object entries =>
        dsimp only at h
        cases hname : typenameFault? name entries path with
        | none => exact .inr ⟨entries, struct, rfl, .struct htype (typenameFault?_eq_none_iff.1 hname)⟩
        | some fault =>
          rw [hname] at h
          obtain ⟨found, hl, hother, rfl⟩ := typenameFault?_eq_some_iff.1 hname
          exact .inl ⟨_, .otherTypename htype hl hother, List.mem_singleton.1 h⟩
      | null | bool _ | number _ | string _ | array _ =>
        exact .inl ⟨_, .noStruct hv htype nofun, List.mem_singleton.1 h⟩
    | structUnion union =>
      cases v with
      | object entries =>
        dsimp only at h
        cases hunion : c.discriminate union entries path with
        | ok struct =>
          obtain ⟨member, hmember, hl, hstruct⟩ := discriminate_eq_ok_iff.1 hunion
          exact .inr ⟨entries, struct, rfl, .member htype hmember hl hstruct⟩
        | error fault =>
          rw [hunion] at h
          obtain ⟨p, hp, rfl⟩ := exists_problem_of_discriminate nonNull hs htype hunion
          exact .inl ⟨p, hp, List.mem_singleton.1 h⟩
      | null | bool _ | number _ | string _ | array _ =>
        exact .inl ⟨_, .noMember hv htype nofun, List.mem_singleton.1 h⟩

/-- A fault of a value of a named type tells of a violation, if those of smaller values do. -/
theorem exists_violation_of_named (hs : c.schema.WellShaped) (hv : v ≠ .null)
    (ih : ∀ type w path, sizeOf w < sizeOf v → f ∈ c.valueFaults type w path →
      ∃ x : InputViolation, x.Holds c type w ∧ f = x.fault path)
    (h : f ∈ c.valueFaults (.named name nonNull) v path) :
    ∃ x : InputViolation, x.Holds c (.named name nonNull) v ∧ f = x.fault path := by
  rw [valueFaults_named hv] at h
  obtain ⟨p, hp, rfl⟩ | ⟨entries, struct, rfl, htaken⟩ := of_mem_namedFaults nonNull hs hv h
  · exact ⟨⟨[], p⟩, .here hp, (InputViolation.fault_here path p).symm⟩
  · rw [namedFaults_of_takenFor htaken, structFaults, List.mem_append] at h
    obtain hunknown | hfields := h
    · obtain ⟨hreject, e, he, htypename, hother, rfl⟩ := mem_unknownFieldFaults.1 hunknown
      have hkey : e.1 ∈ entries.map Prod.fst := List.mem_map_of_mem he
      exact ⟨⟨[], .unknownField struct.name e.1⟩,
        .here (.unknownField htaken hreject hkey htypename hother),
        (InputViolation.fault_here path (.unknownField struct.name e.1)).symm⟩
    · obtain ⟨field, hfield, ⟨w, hl, hf⟩ | ⟨hl, hnonNull, rfl⟩⟩ := mem_fieldsFaults_iff.1 hfields
      · have hsize : sizeOf w < sizeOf (Json.object entries) := by
          have := Pairs.sizeOf_lookup_lt hl
          rw [Json.object.sizeOf_spec]
          omega
        obtain ⟨x, hx, rfl⟩ := ih field.type w (path.step (.field field.name)) hsize hf
        exact ⟨x.below (.field field.name), hx.field htaken hfield hl,
          (InputViolation.fault_below path _ x).symm⟩
      · exact ⟨⟨[], .missingField struct.name field.name⟩,
          .here (.missingField htaken hfield hl hnonNull),
          (InputViolation.fault_here path (.missingField struct.name field.name)).symm⟩

/-- **A fault of a value tells of a violation.** -/
theorem exists_violation_of_mem_valueFaults (hs : c.schema.WellShaped) (type : TypeRef) (v : Json)
    (path : InputPath) (h : f ∈ c.valueFaults type v path) :
    ∃ x : InputViolation, x.Holds c type v ∧ f = x.fault path := by
  by_cases hv : v = .null
  · subst hv
    rw [valueFaults_null] at h
    split at h
    · rename_i hnonNull
      refine ⟨⟨[], .null type⟩, .here (.null hnonNull), ?_⟩
      rw [InputViolation.fault_here]
      exact List.mem_singleton.1 h
    · cases h
  match type with
  | .named name nonNull =>
    refine exists_violation_of_named hs hv (fun type w path _ hf => ?_) h
    exact exists_violation_of_mem_valueFaults hs type w path hf
  | .list item nonNull =>
    by_cases ha : ∃ items, v = .array items
    · obtain ⟨items, hitems⟩ := ha
      rw [hitems, valueFaults_array] at h
      obtain ⟨i, w, hget, hf⟩ := mem_itemsFaults_iff.1 h
      have hsize : sizeOf w < sizeOf v := by
        have := List.sizeOf_lt_of_mem (List.mem_of_getElem? hget)
        rw [hitems, Json.array.sizeOf_spec]
        omega
      rw [Nat.zero_add] at hf
      obtain ⟨x, hx, rfl⟩ := exists_violation_of_mem_valueFaults hs item w _ hf
      rw [hitems]
      exact ⟨x.below (.index i), hx.item hget, (InputViolation.fault_below path _ x).symm⟩
    · have ha : ∀ items, v ≠ .array items := fun items e => ha ⟨items, e⟩
      rw [valueFaults_single hv ha] at h
      obtain ⟨x, hx, rfl⟩ := exists_violation_of_mem_valueFaults hs item v path h
      exact ⟨x, hx.single hv ha, rfl⟩
termination_by (sizeOf v, sizeOf type)

/-! ## Violations and faults -/

/-- **The faults of a value are those of the violations that hold of it.** -/
theorem mem_valueFaults_iff (hs : c.schema.WellShaped) :
    f ∈ c.valueFaults type v path ↔ ∃ x : InputViolation, x.Holds c type v ∧ f = x.fault path := by
  constructor
  · exact exists_violation_of_mem_valueFaults hs type v path
  · rintro ⟨x, ⟨there, w, hreach, hproblem⟩, rfl⟩
    exact hreach.mem_valueFaults hproblem.mem_valueFaults

/-- **Each fault tells of one violation, and each violation is reported once.** The place of a fault
is the root with the steps to a sub-value of the input, and different steps make different places. -/
theorem coerce_reports_violations (s : ValidSchema) (config : Config) (leaves : LeafCoercion)
    (root : String) (type : TypeRef) (v : Json) :
    let c : InputCoercer := ⟨s.schema, config, leaves⟩
    let reported := faultsOf (c.coerce root type v)
    (∀ f ∈ reported, ∃! x : InputViolation, x.Holds c type v ∧ f = x.fault ⟨root, []⟩) ∧
      (∀ x : InputViolation, x.Holds c type v → reported.count (x.fault ⟨root, []⟩) = 1) ∧
      (∀ x : InputViolation, x.Holds c type v →
        (x.fault ⟨root, []⟩).place? = some (InputPath.mk root x.steps).text ∧
          ∃ there w, v.at? x.steps = some w ∧ c.Reaches type v x.steps there w ∧
            c.HasProblem there w x.problem) ∧
      ∀ a b : List InputStep, (InputPath.mk root a).text = (InputPath.mk root b).text → a = b := by
  intro c reported
  have hs : c.schema.WellShaped := s.wellShaped
  have hreported : reported = (Report.ofList (c.valueFaults type v ⟨root, []⟩)).faults :=
    faultsOf_coerce root type v
  refine ⟨?_, ?_, ?_, fun a b => InputPath.steps_of_text⟩
  · intro f hf
    rw [hreported, Report.mem_ofList, mem_valueFaults_iff hs] at hf
    obtain ⟨x, hx, rfl⟩ := hf
    exact ⟨x, ⟨hx, rfl⟩, fun y hy => hy.1.eq_of_fault hx hy.2.symm⟩
  · intro x hx
    rw [hreported, List.count_eq_one_of_mem (Report.nodup_ofList _)]
    rw [Report.mem_ofList, mem_valueFaults_iff hs]
    exact ⟨x, hx, rfl⟩
  · rintro x ⟨there, w, hreach, hproblem⟩
    exact ⟨InputViolation.place?_fault _ x, there, w, hreach.at?, hreach, hproblem⟩

end InputCoercer

end StructQL
