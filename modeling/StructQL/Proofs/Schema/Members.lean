import Mathlib.Data.List.Nodup
import StructQL.Schema.PossibleTypes
import StructQL.Schema.Valid

/-!
# What the structs of a well-shaped schema are made of

* `Schema.WellShaped`: nothing is wrong with the fields of the structs and with the members of the
  struct unions.
* `WellShaped.nodup_members`: no member of a struct union is listed twice.
* `WellShaped.struct_of_member`: the members of struct unions are structs.
* `WellShaped.struct_of_possible`: so are the possible types of structs and struct unions.
* `WellShaped.kind_of_field`: the fields of structs are of leaves, structs and struct unions.
-/

namespace StructQL

namespace Schema

variable {s : Schema}

theorem mem_structs {name : Name} {type : StructType} (h : s.type? name = some (.struct type)) :
    type ∈ s.structs :=
  List.mem_filterMap.2 ⟨_, mem_of_type? h, rfl⟩

theorem type?_of_mem_structs {type : StructType} (h : type ∈ s.structs) :
    s.type? type.name = some (.struct type) := by
  obtain ⟨t, ht, hstruct⟩ := List.mem_filterMap.1 h
  cases t <;> cases hstruct
  exact type?_of_mem ht

theorem mem_structUnions {name : Name} {type : UnionType}
    (h : s.type? name = some (.structUnion type)) : type ∈ s.structUnions :=
  List.mem_filterMap.2 ⟨_, mem_of_type? h, rfl⟩

/-- **Nothing is wrong with the fields of the structs and the members of the struct unions.** -/
structure WellShaped (s : Schema) : Prop where
  structs : s.structs.flatMap s.structFaults = []
  structUnions : s.structUnions.flatMap s.unionFaults = []

theorem struct_of_kind? {name : Name} (h : s.kind? name = some .struct) :
    ∃ type, s.type? name = some (.struct type) := by
  obtain ⟨type, htype, hkind⟩ := Option.map_eq_some_iff.1 h
  cases type <;> cases hkind
  exact ⟨_, htype⟩

theorem kind_of_memberFaults {unionName member : Name}
    (h : s.memberFaults unionName member = []) : s.kind? member = some .struct := by
  unfold memberFaults at h
  split at h
  · cases h
  · assumption
  · cases h

theorem kind_of_membersFaults {unionName : Name} {members : List Name} :
    ∀ {seen : List Name}, s.membersFaults unionName seen members = [] →
      ∀ member ∈ members, s.kind? member = some .struct := by
  induction members with
  | nil => intro seen _ member hm; cases hm
  | cons first rest ih =>
    intro seen h member hm
    rw [membersFaults, List.append_eq_nil_iff] at h
    rcases List.mem_cons.1 hm with rfl | hm
    · apply @kind_of_memberFaults s unionName
      by_cases hseen : member ∈ seen
      · simp [hseen] at h
      · simpa [hseen] using h.1
    · exact ih h.2 member hm

/-- A member that was listed before is a fault, so that without faults each is listed once. -/
theorem nodup_of_membersFaults {unionName : Name} {members : List Name} :
    ∀ {seen : List Name}, seen.Nodup → s.membersFaults unionName seen members = [] →
      (seen ++ members).Nodup := by
  induction members with
  | nil =>
    intro seen hseen _
    simpa using hseen
  | cons first rest ih =>
    intro seen hseen h
    rw [membersFaults, List.append_eq_nil_iff] at h
    have hnew : first ∉ seen := by
      intro hmem
      simp [hmem] at h
    have hnext : (seen ++ [first]).Nodup := by
      rw [← List.concat_eq_append]
      exact hseen.concat hnew
    simpa using ih hnext h.2

namespace WellShaped

variable {name : Name}

theorem members_ne_nil (hs : s.WellShaped) {union : UnionType}
    (h : s.type? name = some (.structUnion union)) : union.members ≠ [] := by
  have hf := List.flatMap_eq_nil_iff.1 hs.structUnions union (mem_structUnions h)
  intro hnil
  simp [unionFaults, hnil] at hf

theorem membersFaults_eq_nil (hs : s.WellShaped) {union : UnionType}
    (h : s.type? name = some (.structUnion union)) :
    s.membersFaults union.name [] union.members = [] := by
  have hf := List.flatMap_eq_nil_iff.1 hs.structUnions union (mem_structUnions h)
  unfold unionFaults at hf
  split at hf
  · cases hf
  · exact hf

/-- **No member of a struct union is listed twice.** -/
theorem nodup_members (hs : s.WellShaped) {union : UnionType}
    (h : s.type? name = some (.structUnion union)) : union.members.Nodup :=
  nodup_of_membersFaults List.nodup_nil (hs.membersFaults_eq_nil h)

/-- **The members of struct unions are structs.** -/
theorem struct_of_member (hs : s.WellShaped) {union : UnionType} {member : Name}
    (h : s.type? name = some (.structUnion union)) (hm : member ∈ union.members) :
    ∃ type, s.type? member = some (.struct type) :=
  struct_of_kind? (kind_of_membersFaults (hs.membersFaults_eq_nil h) member hm)

/-- **The structs that are possible for a struct or a struct union** are in the schema. -/
theorem struct_of_possible (hs : s.WellShaped) {scope : Name} (hlike : s.isStructLike scope = true)
    (h : name ∈ s.possibleTypes scope) : ∃ type, s.type? name = some (.struct type) := by
  obtain ⟨definition, hdefinition, hkind⟩ := isStructLike_eq_true_iff.1 hlike
  unfold possibleTypes at h
  rw [hdefinition] at h
  cases definition with
  | struct type =>
    obtain rfl : name = scope := by simpa using h
    exact ⟨type, hdefinition⟩
  | structUnion union => exact hs.struct_of_member hdefinition (mem_distinctNames.1 h)
  | scalar | object | interface | union | enum | inputObject => cases hkind

/-- **The fields of structs are of leaves, structs and struct unions.** -/
theorem kind_of_field (hs : s.WellShaped) {type : StructType} {field : Field}
    (h : s.type? name = some (.struct type)) (hf : field ∈ type.fields.toList) :
    ∃ kind, s.kind? field.type.base = some kind ∧ kind.isAllowedInStruct = true := by
  have hall := List.flatMap_eq_nil_iff.1 hs.structs type (mem_structs h)
  unfold structFaults at hall
  have hfield := List.flatMap_eq_nil_iff.1 (List.append_eq_nil_iff.1 hall).2 field hf
  unfold fieldFaults at hfield
  dsimp only at hfield
  have hkind := (List.append_eq_nil_iff.1 hfield).2
  split at hkind
  · cases hkind
  · rename_i kind hk
    by_cases ha : kind.isAllowedInStruct = true
    · exact ⟨kind, hk, ha⟩
    · simp [ha] at hkind

end WellShaped

end Schema

/-- A valid schema is well shaped. -/
theorem ValidSchema.wellShaped (v : ValidSchema) : v.schema.WellShaped := by
  have h := v.shapeFaults_eq_nil
  unfold Schema.shapeFaults at h
  rw [List.append_eq_nil_iff, List.append_eq_nil_iff] at h
  exact ⟨h.1.1, h.1.2⟩

end StructQL
