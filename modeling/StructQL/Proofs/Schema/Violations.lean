import Mathlib.Data.List.Count
import Mathlib.Data.List.Duplicate
import StructQL.Proofs.Fault.Report
import StructQL.Proofs.Name
import StructQL.Proofs.Schema.Members
import StructQL.Proofs.Schema.SimpleCycle
import StructQL.Proofs.Table

/-!
# What is wrong with a schema

The rules for structs and struct unions, each place where one is broken, and what is reported of it.

* `Schema.ObeysRules`: the rules.
* `Violation`: a place where a rule is broken.
* `Violation.Holds`: the rule is broken there.
* `Violation.ReportedAs`: the fault that is reported of it.
* `exists_violation`, `exists_fault`: each fault reports a violation, and each violation is
  reported.
* `reportedAs_unique`, `reportedAs_functional`: no fault reports two violations, and no violation
  is reported by two faults.
* `validate_exact`: **a schema is valid exactly if it obeys the rules, and else each violation is
  reported by one fault and each fault reports one violation.**
-/

namespace StructQL

namespace Schema

/-- A field of a struct. -/
def HasField (s : Schema) (struct : Name) (field : Field) : Prop :=
  ∃ type, s.type? struct = some (.struct type) ∧ field ∈ type.fields.toList

/-- A member of a struct union. -/
def HasMember (s : Schema) (union member : Name) : Prop :=
  ∃ type, s.type? union = some (.structUnion type) ∧ member ∈ type.members

/-- **The rules for structs and struct unions.** -/
structure ObeysRules (s : Schema) : Prop where
  fields_ne_nil : ∀ name type, s.type? name = some (.struct type) → type.fields.toList ≠ []
  arguments_eq_nil : ∀ struct field, s.HasField struct field → field.arguments = []
  /-- Fields are of scalars, enums, structs and struct unions. -/
  field_type : ∀ struct field, s.HasField struct field →
    ∃ type, s.type? field.type.base = some type ∧
      type.kind ∈ [TypeKind.scalar, .enum, .struct, .structUnion]
  members_ne_nil : ∀ name type, s.type? name = some (.structUnion type) → type.members ≠ []
  members_nodup : ∀ name type, s.type? name = some (.structUnion type) → type.members.Nodup
  member_struct : ∀ union member, s.HasMember union member →
    ∃ type, s.type? member = some (.struct type)
  /-- Every struct has a value: each set that is closed under building values has it. -/
  has_value : ∀ name type, s.type? name = some (.struct type) → ∀ K, s.IsClosed K → name ∈ K

end Schema

/-- **A place where a rule is broken.** -/
inductive Violation where
  | emptyStruct (struct : Name)
  | fieldArguments (struct field : Name)
  | unknownFieldType (struct field : Name)
  | forbiddenFieldType (struct field : Name)
  | emptyUnion (union : Name)
  | duplicateMember (union member : Name)
  | unknownMember (union member : Name)
  | invalidMember (union member : Name)
  | noValue (struct : Name)

namespace Violation

/-- **The rule is broken there.** -/
def Holds (s : Schema) : Violation → Prop
  | emptyStruct struct =>
    ∃ type, s.type? struct = some (.struct type) ∧ type.fields.toList = []
  | fieldArguments struct name =>
    ∃ field, s.HasField struct field ∧ field.name = name ∧ field.arguments ≠ []
  | unknownFieldType struct name =>
    ∃ field, s.HasField struct field ∧ field.name = name ∧ s.type? field.type.base = none
  | forbiddenFieldType struct name =>
    ∃ field type, s.HasField struct field ∧ field.name = name ∧
      s.type? field.type.base = some type ∧
      type.kind ∉ [TypeKind.scalar, .enum, .struct, .structUnion]
  | emptyUnion union =>
    ∃ type, s.type? union = some (.structUnion type) ∧ type.members = []
  | duplicateMember union member =>
    ∃ type, s.type? union = some (.structUnion type) ∧ 2 ≤ type.members.count member
  | unknownMember union member => s.HasMember union member ∧ s.type? member = none
  | invalidMember union member =>
    s.HasMember union member ∧ ∃ type, s.type? member = some type ∧ type.kind ≠ .struct
  | noValue struct =>
    (∃ type, s.type? struct = some (.struct type)) ∧ ∃ K, s.IsClosed K ∧ struct ∉ K

/-- **What is reported of a violation.** It names the place, the type that is wrong there and its
kind, and for a struct without a value a cycle that shows it. -/
def ReportedAs (s : Schema) : Violation → Fault → Prop
  | emptyStruct struct, f => f = .emptyStruct struct
  | fieldArguments struct name, f => f = .structFieldArguments struct name
  | unknownFieldType struct name, f =>
    ∃ field, s.HasField struct field ∧ field.name = name ∧
      f = .unknownType s!"Field \"{struct}.{name}\"" field.type.base
  | forbiddenFieldType struct name, f =>
    ∃ field type, s.HasField struct field ∧ field.name = name ∧
      s.type? field.type.base = some type ∧
      f = .forbiddenMember struct name field.type.base type.kind
  | emptyUnion union, f => f = .emptyUnion union
  | duplicateMember union member, f => f = .duplicateMember union member
  | unknownMember union member, f => f = .unknownType s!"Struct union \"{union}\"" member
  | invalidMember union member, f =>
    ∃ type, s.type? member = some type ∧ f = .invalidUnionMember union member type.kind
  | noValue struct, f =>
    ∃ cycle, f = .cycle struct (Reference.describe cycle) ∧ s.ShowsNoValue struct cycle

end Violation

namespace Schema

variable {s : Schema} {struct union name member : Name} {field other : Field} {f : Fault}

/-! ## Fields -/

theorem mem_isAllowedInStruct_iff {kind : TypeKind} :
    kind.isAllowedInStruct = true ↔ kind ∈ [TypeKind.scalar, .enum, .struct, .structUnion] := by
  cases kind <;> decide

/-- Fields of one struct are told apart by their names. -/
theorem HasField.eq (h : s.HasField struct field) (h' : s.HasField struct other)
    (hname : field.name = other.name) : field = other := by
  obtain ⟨type, htype, hf⟩ := h
  obtain ⟨type', htype', hf'⟩ := h'
  obtain rfl : type = type' := by
    rw [htype] at htype'
    exact TypeDefinition.struct.inj (Option.some.inj htype')
  exact Table.eq_of_nameOf_eq hf hf' hname

theorem mem_fieldFaults :
    f ∈ s.fieldFaults struct field ↔
      (field.arguments ≠ [] ∧ f = .structFieldArguments struct field.name) ∨
      (s.type? field.type.base = none ∧
        f = .unknownType s!"Field \"{struct}.{field.name}\"" field.type.base) ∨
      ∃ type, s.type? field.type.base = some type ∧
        type.kind ∉ [TypeKind.scalar, .enum, .struct, .structUnion] ∧
        f = .forbiddenMember struct field.name field.type.base type.kind := by
  unfold fieldFaults kind?
  rw [List.mem_append]
  refine or_congr ?_ ?_
  · cases field.arguments <;> simp
  · cases s.type? field.type.base with
    | none => simp
    | some type =>
      simp only [Option.map_some, reduceCtorEq, false_and, Option.some.injEq, exists_eq_left',
        false_or, ← mem_isAllowedInStruct_iff]
      cases type.kind.isAllowedInStruct <;> simp

theorem mem_structFaults_iff :
    f ∈ s.structs.flatMap s.structFaults ↔
      ∃ struct, ((Violation.emptyStruct struct).Holds s ∧ f = .emptyStruct struct) ∨
        ∃ field, s.HasField struct field ∧ f ∈ s.fieldFaults struct field := by
  rw [List.mem_flatMap]
  constructor
  · rintro ⟨type, htype, hf⟩
    have hfound := type?_of_mem_structs htype
    refine ⟨type.name, ?_⟩
    rcases List.mem_append.1 hf with hempty | hfield
    · cases hfields : type.fields.toList with
      | nil =>
        rw [hfields] at hempty
        exact .inl ⟨⟨type, hfound, hfields⟩, List.mem_singleton.1 hempty⟩
      | cons _ _ =>
        rw [hfields] at hempty
        cases hempty
    · obtain ⟨field, hmem, hf⟩ := List.mem_flatMap.1 hfield
      exact .inr ⟨field, ⟨type, hfound, hmem⟩, hf⟩
  · rintro ⟨struct, ⟨⟨type, htype, hfields⟩, rfl⟩ | ⟨field, ⟨type, htype, hmem⟩, hf⟩⟩
    · refine ⟨type, mem_structs htype, List.mem_append_left _ ?_⟩
      rw [hfields, show type.name = struct from name_of_type? htype]
      exact List.mem_cons_self
    · refine ⟨type, mem_structs htype, List.mem_append_right _ (List.mem_flatMap.2 ⟨field, hmem, ?_⟩)⟩
      rwa [show type.name = struct from name_of_type? htype]

/-! ## Members -/

theorem mem_memberFaults :
    f ∈ s.memberFaults union member ↔
      (s.type? member = none ∧ f = .unknownType s!"Struct union \"{union}\"" member) ∨
      ∃ type, s.type? member = some type ∧ type.kind ≠ .struct ∧
        f = .invalidUnionMember union member type.kind := by
  unfold memberFaults kind?
  cases s.type? member with
  | none => simp
  | some type => cases hkind : type.kind <;> simp [hkind]

/-- What a list, after what was seen, lists again: its first item, if that was seen, and what the
rest lists again after that. -/
theorem listed_again_iff {first : Name} {seen rest : List Name} :
    (member ∈ first :: rest ∧ member ∈ seen ∨ 2 ≤ (first :: rest).count member) ↔
      (member = first ∧ first ∈ seen) ∨
        (member ∈ rest ∧ member ∈ seen ++ [first] ∨ 2 ≤ rest.count member) := by
  rw [List.count_cons, List.mem_cons, List.mem_append, List.mem_singleton]
  have hpos := @List.count_pos_iff _ _ _ member rest
  by_cases h : first = member
  · subst h
    simp only [beq_self_eq_true, if_true, true_or, true_and, or_true, and_true]
    constructor
    · rintro (hs | hc)
      · exact .inl hs
      · exact .inr (.inl (hpos.1 (by omega)))
    · rintro (hs | hm | hc)
      · exact .inl hs
      · have := hpos.2 hm
        exact .inr (by omega)
      · exact .inr (by omega)
  · simp [h, Ne.symm h]

/-- **A member is a fault where it is listed again**, and it is looked at where it comes first. -/
theorem mem_membersFaults {members : List Name} :
    ∀ {seen : List Name}, f ∈ s.membersFaults union seen members ↔
      (∃ member, (member ∈ members ∧ member ∈ seen ∨ 2 ≤ members.count member) ∧
        f = .duplicateMember union member) ∨
      ∃ member ∈ members, member ∉ seen ∧ f ∈ s.memberFaults union member := by
  induction members with
  | nil => intro seen; simp [membersFaults]
  | cons first rest ih =>
    intro seen
    rw [membersFaults, List.mem_append, ih]
    simp only [listed_again_iff]
    by_cases hseen : first ∈ seen
    · simp only [hseen, if_true]
      grind
    · simp only [hseen, if_false]
      grind

theorem type?_of_mem_structUnions {type : UnionType} (h : type ∈ s.structUnions) :
    s.type? type.name = some (.structUnion type) := by
  obtain ⟨t, ht, hunion⟩ := List.mem_filterMap.1 h
  cases t <;> cases hunion
  exact type?_of_mem ht

theorem mem_unionFaults_iff :
    f ∈ s.structUnions.flatMap s.unionFaults ↔
      ∃ union, ((Violation.emptyUnion union).Holds s ∧ f = .emptyUnion union) ∨
        (∃ member, (Violation.duplicateMember union member).Holds s ∧
          f = .duplicateMember union member) ∨
        ∃ member, s.HasMember union member ∧ f ∈ s.memberFaults union member := by
  rw [List.mem_flatMap]
  constructor
  · rintro ⟨type, htype, hf⟩
    have hfound := type?_of_mem_structUnions htype
    refine ⟨type.name, ?_⟩
    unfold unionFaults at hf
    split at hf
    · rename_i hempty
      exact .inl ⟨⟨type, hfound, List.isEmpty_iff.1 hempty⟩, List.mem_singleton.1 hf⟩
    · rcases mem_membersFaults.1 hf with ⟨member, hagain, rfl⟩ | ⟨member, hm, -, hf⟩
      · exact .inr (.inl ⟨member, ⟨type, hfound, by simpa using hagain⟩, rfl⟩)
      · exact .inr (.inr ⟨member, ⟨type, hfound, hm⟩, hf⟩)
  · rintro ⟨union, ⟨⟨type, htype, hempty⟩, rfl⟩ | ⟨member, ⟨type, htype, hcount⟩, rfl⟩ |
      ⟨member, ⟨type, htype, hm⟩, hf⟩⟩
    all_goals
      have hname : type.name = union := name_of_type? htype
      refine ⟨type, mem_structUnions htype, ?_⟩
      unfold unionFaults
    · rw [hempty, hname]
      exact List.mem_cons_self
    · have hne : type.members ≠ [] := by
        intro hnil
        simp [hnil] at hcount
      rw [if_neg (by simpa using hne), hname]
      exact mem_membersFaults.2 (.inl ⟨member, .inr hcount, rfl⟩)
    · rw [if_neg (by simpa using List.ne_nil_of_mem hm), hname]
      exact mem_membersFaults.2 (.inr ⟨member, hm, by simp, hf⟩)

/-! ## Cycles -/

theorem mem_cycleFaults_iff :
    f ∈ s.cycleFaults ↔ ∃ struct type cycle, s.type? struct = some (.struct type) ∧
      s.unbreakableCycle? s.instantiable struct = some cycle ∧
      f = .cycle struct (Reference.describe cycle) := by
  unfold cycleFaults
  rw [List.mem_filterMap]
  constructor
  · rintro ⟨type, htype, hf⟩
    obtain ⟨cycle, hcycle, rfl⟩ := Option.map_eq_some_iff.1 hf
    exact ⟨type.name, type, cycle, type?_of_mem_structs htype, hcycle, rfl⟩
  · rintro ⟨struct, type, cycle, htype, hcycle, rfl⟩
    refine ⟨type, mem_structs htype, ?_⟩
    rw [show type.name = struct from name_of_type? htype, hcycle]
    rfl

/-- Faults that tell of a cycle come from the search for cycles. -/
theorem mem_cycleFaults_of_mem {path : String} (h : Fault.cycle struct path ∈ s.shapeFaults) :
    Fault.cycle struct path ∈ s.cycleFaults := by
  rcases List.mem_append.1 h with h | h
  · exfalso
    rcases List.mem_append.1 h with h | h
    · obtain ⟨_, ⟨-, he⟩ | ⟨field, -, hf⟩⟩ := mem_structFaults_iff.1 h
      · cases he
      · rcases mem_fieldFaults.1 hf with ⟨-, he⟩ | ⟨-, he⟩ | ⟨_, -, -, he⟩ <;> cases he
    · obtain ⟨_, ⟨-, he⟩ | ⟨_, -, he⟩ | ⟨_, -, hf⟩⟩ := mem_unionFaults_iff.1 h
      · cases he
      · cases he
      · rcases mem_memberFaults.1 hf with ⟨-, he⟩ | ⟨_, -, -, he⟩ <;> cases he
  · exact h

theorem isStructLike_of_struct {type : StructType} (h : s.type? struct = some (.struct type)) :
    s.isStructLike struct = true := isStructLike_eq_true_iff.2 ⟨_, h, rfl⟩

theorem noValue_iff {type : StructType} (h : s.type? struct = some (.struct type)) :
    (Violation.noValue struct).Holds s ↔
      (s.unbreakableCycle? s.instantiable struct).isSome = true := by
  rw [unbreakableCycle?_isSome_iff (isStructLike_of_struct h), mem_instantiable_iff]
  simp only [Violation.Holds, h, Option.some.injEq, not_forall]
  constructor
  · rintro ⟨-, K, hK, hout⟩
    exact ⟨K, hK, hout⟩
  · rintro ⟨K, hK, hout⟩
    exact ⟨⟨type, rfl⟩, K, hK, hout⟩

/-! ## All violations -/

/-- **Each fault reports a violation.** -/
theorem exists_violation (h : f ∈ s.shapeFaults) :
    ∃ v : Violation, v.Holds s ∧ v.ReportedAs s f := by
  rcases List.mem_append.1 h with h | h
  · rcases List.mem_append.1 h with h | h
    · obtain ⟨struct, ⟨hempty, rfl⟩ | ⟨field, hfield, hf⟩⟩ := mem_structFaults_iff.1 h
      · exact ⟨.emptyStruct struct, hempty, rfl⟩
      · rcases mem_fieldFaults.1 hf with ⟨ha, rfl⟩ | ⟨hnone, rfl⟩ | ⟨type, htype, hkind, rfl⟩
        · exact ⟨.fieldArguments struct field.name, ⟨field, hfield, rfl, ha⟩, rfl⟩
        · exact ⟨.unknownFieldType struct field.name, ⟨field, hfield, rfl, hnone⟩,
            field, hfield, rfl, rfl⟩
        · exact ⟨.forbiddenFieldType struct field.name, ⟨field, type, hfield, rfl, htype, hkind⟩,
            field, type, hfield, rfl, htype, rfl⟩
    · obtain ⟨union, ⟨hempty, rfl⟩ | ⟨member, hagain, rfl⟩ | ⟨member, hmember, hf⟩⟩ :=
        mem_unionFaults_iff.1 h
      · exact ⟨.emptyUnion union, hempty, rfl⟩
      · exact ⟨.duplicateMember union member, hagain, rfl⟩
      · rcases mem_memberFaults.1 hf with ⟨hnone, rfl⟩ | ⟨type, htype, hkind, rfl⟩
        · exact ⟨.unknownMember union member, ⟨hmember, hnone⟩, rfl⟩
        · exact ⟨.invalidMember union member, ⟨hmember, type, htype, hkind⟩, type, htype, rfl⟩
  · obtain ⟨struct, type, cycle, htype, hcycle, rfl⟩ := mem_cycleFaults_iff.1 h
    refine ⟨.noValue struct, (noValue_iff htype).2 (by rw [hcycle]; rfl), cycle, rfl, ?_⟩
    exact showsNoValue_of_unbreakableCycle? hcycle

/-- **Each violation is reported.** -/
theorem exists_fault {v : Violation} (h : v.Holds s) : ∃ f ∈ s.shapeFaults, v.ReportedAs s f := by
  have hfields : ∀ f, f ∈ s.structs.flatMap s.structFaults → f ∈ s.shapeFaults :=
    fun f hf => List.mem_append_left _ (List.mem_append_left _ hf)
  have hmembers : ∀ f, f ∈ s.structUnions.flatMap s.unionFaults → f ∈ s.shapeFaults :=
    fun f hf => List.mem_append_left _ (List.mem_append_right _ hf)
  cases v with
  | emptyStruct struct => exact ⟨_, hfields _ (mem_structFaults_iff.2 ⟨struct, .inl ⟨h, rfl⟩⟩), rfl⟩
  | fieldArguments struct name =>
    obtain ⟨field, hfield, rfl, ha⟩ := h
    exact ⟨_, hfields _ (mem_structFaults_iff.2 ⟨struct, .inr ⟨field, hfield,
      mem_fieldFaults.2 (.inl ⟨ha, rfl⟩)⟩⟩), rfl⟩
  | unknownFieldType struct name =>
    obtain ⟨field, hfield, rfl, hnone⟩ := h
    exact ⟨_, hfields _ (mem_structFaults_iff.2 ⟨struct, .inr ⟨field, hfield,
      mem_fieldFaults.2 (.inr (.inl ⟨hnone, rfl⟩))⟩⟩), field, hfield, rfl, rfl⟩
  | forbiddenFieldType struct name =>
    obtain ⟨field, type, hfield, rfl, htype, hkind⟩ := h
    exact ⟨_, hfields _ (mem_structFaults_iff.2 ⟨struct, .inr ⟨field, hfield,
      mem_fieldFaults.2 (.inr (.inr ⟨type, htype, hkind, rfl⟩))⟩⟩),
      field, type, hfield, rfl, htype, rfl⟩
  | emptyUnion union => exact ⟨_, hmembers _ (mem_unionFaults_iff.2 ⟨union, .inl ⟨h, rfl⟩⟩), rfl⟩
  | duplicateMember union member =>
    exact ⟨_, hmembers _ (mem_unionFaults_iff.2 ⟨union, .inr (.inl ⟨member, h, rfl⟩)⟩), rfl⟩
  | unknownMember union member =>
    exact ⟨_, hmembers _ (mem_unionFaults_iff.2 ⟨union, .inr (.inr ⟨member, h.1,
      mem_memberFaults.2 (.inl ⟨h.2, rfl⟩)⟩)⟩), rfl⟩
  | invalidMember union member =>
    obtain ⟨hmember, type, htype, hkind⟩ := h
    exact ⟨_, hmembers _ (mem_unionFaults_iff.2 ⟨union, .inr (.inr ⟨member, hmember,
      mem_memberFaults.2 (.inr ⟨type, htype, hkind, rfl⟩)⟩)⟩), type, htype, rfl⟩
  | noValue struct =>
    obtain ⟨type, htype⟩ := h.1
    obtain ⟨cycle, hcycle⟩ := Option.isSome_iff_exists.1 ((noValue_iff htype).1 h)
    exact ⟨_, List.mem_append_right _ (mem_cycleFaults_iff.2 ⟨struct, type, cycle, htype, hcycle, rfl⟩),
      cycle, rfl, showsNoValue_of_unbreakableCycle? hcycle⟩

/-! ## One fault each -/

/-- Places of fields are told apart by their texts. -/
theorem fieldPlace_inj {a b c d : Name}
    (h : s!"Field \"{a}.{b}\"" = s!"Field \"{c}.{d}\"") : a = c ∧ b = d := by
  have hl : a.text.toList ++ '.' :: (b.text.toList ++ ['"']) =
      c.text.toList ++ '.' :: (d.text.toList ++ ['"']) := by
    simpa [toString] using congrArg String.toList h
  -- the struct's name ends at the point, and the field's name at the quote
  have hpoint : ∀ l : List Char, ('.' :: l).takeWhile isNameContinue = [] :=
    fun l => List.takeWhile_cons_of_neg (by decide)
  obtain ⟨hstruct, hrest⟩ := Name.eq_of_append hl (hpoint _) (hpoint _)
  obtain ⟨hfield, -⟩ := Name.eq_of_append (List.cons.inj hrest).2 (by decide) (by decide)
  exact ⟨hstruct, hfield⟩

theorem unionPlace_inj {a b : Name}
    (h : s!"Struct union \"{a}\"" = s!"Struct union \"{b}\"") : a = b := by
  have hl : a.text.toList = b.text.toList := by
    simpa [toString] using congrArg String.toList h
  exact Name.ext_text (String.toList_inj.1 hl)

theorem fieldPlace_ne_unionPlace {a b c : Name} :
    s!"Field \"{a}.{b}\"" ≠ s!"Struct union \"{c}\"" := by
  intro h
  have hl := congrArg String.toList h
  simp [toString] at hl

/-- **A fault reports one violation only.** Of unknown types, the text says whose type it is. -/
theorem reportedAs_unique {v w : Violation} (h : v.ReportedAs s f) (h' : w.ReportedAs s f) :
    v = w := by
  cases v with
  | unknownFieldType struct name =>
    obtain ⟨field, -, -, rfl⟩ := h
    cases w with
    | unknownFieldType =>
      obtain ⟨other, -, -, he⟩ := h'
      obtain ⟨rfl, rfl⟩ := fieldPlace_inj (Fault.unknownType.inj he).1
      rfl
    | unknownMember => exact absurd (Fault.unknownType.inj h').1 fieldPlace_ne_unionPlace
    | _ => simp [Violation.ReportedAs] at h'
  | unknownMember union member =>
    cases h
    cases w with
    | unknownFieldType =>
      obtain ⟨other, -, -, he⟩ := h'
      exact absurd (Fault.unknownType.inj he).1.symm fieldPlace_ne_unionPlace
    | unknownMember =>
      obtain ⟨hplace, rfl⟩ := Fault.unknownType.inj h'
      rw [unionPlace_inj hplace]
    | _ => simp [Violation.ReportedAs] at h'
  | _ => cases w <;> simp only [Violation.ReportedAs] at h h' <;> grind

/-- **A violation is reported once.** -/
theorem reportedAs_functional {v : Violation} {g : Fault} (h : v.ReportedAs s f)
    (h' : v.ReportedAs s g) (hf : f ∈ s.shapeFaults) (hg : g ∈ s.shapeFaults) : f = g := by
  cases v with
  | unknownFieldType struct name =>
    obtain ⟨field, hfield, rfl, rfl⟩ := h
    obtain ⟨other, hother, hname, rfl⟩ := h'
    rw [hfield.eq hother hname.symm]
  | forbiddenFieldType struct name =>
    obtain ⟨field, type, hfield, rfl, htype, rfl⟩ := h
    obtain ⟨other, type', hother, hname, htype', rfl⟩ := h'
    obtain rfl := hfield.eq hother hname.symm
    rw [htype] at htype'
    rw [Option.some.inj htype']
  | invalidMember union member =>
    obtain ⟨type, htype, rfl⟩ := h
    obtain ⟨type', htype', rfl⟩ := h'
    rw [htype] at htype'
    rw [Option.some.inj htype']
  | noValue struct =>
    -- the search for a cycle has one answer
    obtain ⟨cycle, rfl, -⟩ := h
    obtain ⟨cycle', rfl, -⟩ := h'
    obtain ⟨_, _, found, -, hfound, he⟩ := mem_cycleFaults_iff.1 (mem_cycleFaults_of_mem hf)
    obtain ⟨_, _, found', -, hfound', he'⟩ := mem_cycleFaults_iff.1 (mem_cycleFaults_of_mem hg)
    obtain ⟨rfl, hpath⟩ := Fault.cycle.inj he
    obtain ⟨rfl, hpath'⟩ := Fault.cycle.inj he'
    rw [hfound] at hfound'
    rw [hpath, hpath', Option.some.inj hfound']
  | _ => exact Eq.trans h (Eq.symm h')

/-- The rules are obeyed where no violation is found. -/
theorem obeysRules_of_forall_not (h : ∀ v : Violation, ¬ v.Holds s) : s.ObeysRules where
  fields_ne_nil name type htype hnil := h (.emptyStruct name) ⟨type, htype, hnil⟩
  arguments_eq_nil struct field hfield := by
    by_contra ha
    exact h (.fieldArguments struct field.name) ⟨field, hfield, rfl, ha⟩
  field_type struct field hfield := by
    cases htype : s.type? field.type.base with
    | none => exact absurd ⟨field, hfield, rfl, htype⟩ (h (.unknownFieldType struct field.name))
    | some type =>
      by_contra hkind
      refine h (.forbiddenFieldType struct field.name) ⟨field, type, hfield, rfl, htype, ?_⟩
      exact fun hmem => hkind ⟨type, rfl, hmem⟩
  members_ne_nil name type htype hnil := h (.emptyUnion name) ⟨type, htype, hnil⟩
  members_nodup name type htype := by
    rw [List.nodup_iff_count_le_one]
    intro member
    by_contra hcount
    exact h (.duplicateMember name member) ⟨type, htype, by omega⟩
  member_struct union member hmember := by
    cases htype : s.type? member with
    | none => exact absurd ⟨hmember, htype⟩ (h (.unknownMember union member))
    | some type =>
      by_contra hstruct
      refine h (.invalidMember union member) ⟨hmember, type, htype, fun hkind => hstruct ?_⟩
      cases type <;> cases hkind
      exact ⟨_, rfl⟩
  has_value name type htype K hK := by
    by_contra hout
    exact h (.noValue name) ⟨⟨type, htype⟩, K, hK, hout⟩

/-- Where the rules are obeyed there is no violation. -/
theorem ObeysRules.not_holds (h : s.ObeysRules) (v : Violation) : ¬ v.Holds s := by
  intro hv
  cases v with
  | emptyStruct struct =>
    obtain ⟨type, htype, hnil⟩ := hv
    exact h.fields_ne_nil struct type htype hnil
  | fieldArguments struct name =>
    obtain ⟨field, hfield, -, ha⟩ := hv
    exact ha (h.arguments_eq_nil struct field hfield)
  | unknownFieldType struct name =>
    obtain ⟨field, hfield, -, hnone⟩ := hv
    obtain ⟨type, htype, -⟩ := h.field_type struct field hfield
    rw [hnone] at htype
    cases htype
  | forbiddenFieldType struct name =>
    obtain ⟨field, type, hfield, -, htype, hkind⟩ := hv
    obtain ⟨type', htype', hmem⟩ := h.field_type struct field hfield
    rw [htype] at htype'
    exact hkind (Option.some.inj htype' ▸ hmem)
  | emptyUnion union =>
    obtain ⟨type, htype, hnil⟩ := hv
    exact h.members_ne_nil union type htype hnil
  | duplicateMember union member =>
    obtain ⟨type, htype, hcount⟩ := hv
    have := List.nodup_iff_count_le_one.1 (h.members_nodup union type htype) member
    omega
  | unknownMember union member =>
    obtain ⟨hmember, hnone⟩ := hv
    obtain ⟨type, htype⟩ := h.member_struct union member hmember
    rw [hnone] at htype
    cases htype
  | invalidMember union member =>
    obtain ⟨hmember, type, htype, hkind⟩ := hv
    obtain ⟨struct, hstruct⟩ := h.member_struct union member hmember
    rw [hstruct] at htype
    exact hkind (Option.some.inj htype ▸ rfl)
  | noValue struct =>
    obtain ⟨⟨type, htype⟩, K, hK, hout⟩ := hv
    exact hout (h.has_value struct type htype K hK)

/-- **A schema without faults obeys the rules**, and only such a schema. -/
theorem shapeFaults_eq_nil_iff : s.shapeFaults = [] ↔ s.ObeysRules := by
  constructor
  · intro hnil
    refine obeysRules_of_forall_not fun v hv => ?_
    obtain ⟨f, hf, -⟩ := exists_fault hv
    rw [hnil] at hf
    cases hf
  · intro h
    refine List.eq_nil_iff_forall_not_mem.2 fun f hf => ?_
    obtain ⟨v, hv, -⟩ := exists_violation hf
    exact h.not_holds v hv

/-- **Validation is exact.** A schema is valid exactly if it obeys the rules for structs and struct
unions. Else it fails with distinct faults: each violation of a rule is reported by one of them, and
each of them reports one violation. -/
theorem validate_exact (s : Schema) :
    ((∃ valid, s.validate = .ok valid ∧ valid.schema = s) ↔ s.ObeysRules) ∧
      ∀ failure, s.validate = .error failure →
        failure.faults.Nodup ∧
        (∀ v : Violation, v.Holds s → ∃! f, f ∈ failure.faults ∧ v.ReportedAs s f) ∧
        ∀ f ∈ failure.faults, ∃! v : Violation, v.Holds s ∧ v.ReportedAs s f := by
  unfold validate
  by_cases h : s.shapeFaults = []
  · rw [dif_pos h]
    refine ⟨iff_of_true ⟨_, rfl, rfl⟩ (shapeFaults_eq_nil_iff.1 h), nofun⟩
  · rw [dif_neg h]
    refine ⟨iff_of_false nofun fun hr => h (shapeFaults_eq_nil_iff.2 hr), ?_⟩
    rintro _ ⟨⟩
    simp only [Failure.mem_faults_ofFaults]
    refine ⟨Failure.nodup_ofFaults _, fun v hv => ?_, fun f hf => ?_⟩
    · obtain ⟨f, hf, hreported⟩ := exists_fault hv
      exact ⟨f, ⟨hf, hreported⟩, fun g hg => reportedAs_functional hg.2 hreported hg.1 hf⟩
    · obtain ⟨v, hv, hreported⟩ := exists_violation hf
      exact ⟨v, ⟨hv, hreported⟩, fun w hw => reportedAs_unique hw.2 hreported⟩

end Schema

end StructQL
