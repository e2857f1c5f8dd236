import StructQL.Proofs.Input.RoundTrip
import StructQL.Schema.PossibleTypes

/-!
# The types of coerced values

A value that was coerced at a type is of the named type inside it, wherever lists and nulls stand:
its structs are of that name or a member of it, and so on with their fields.

* `CoercedValue.OfType`: the values of a named type.
* `OfType.mono`: a value of a member is a value of the struct union.
* `Coerces.ofType`: **coercion gives values of the named type.**
-/

namespace StructQL

/-- **A value of a named type**, or null, or a list of such values at any depth. A struct is one of
the possible types, and its fields are declared and have values of their own types. -/
inductive CoercedValue.OfType (schema : Schema) : Name → CoercedValue → Prop where
  | null {base : Name} : OfType schema base .null
  | leaf {base : Name} {value : Json} :
    schema.isStructLike base = false → OfType schema base (.leaf value)
  | list {base : Name} {items : List CoercedValue} :
    (∀ v ∈ items, OfType schema base v) → OfType schema base (.list items)
  | struct {base name : Name} {type : StructType} {fields : List (Name × CoercedValue)} :
    name ∈ schema.possibleTypes base → schema.type? name = some (.struct type) →
    InputCoercer.OfStruct type fields →
    (∀ field v, field ∈ type.fields.toList → (field.name, v) ∈ fields →
      OfType schema field.type.base v) →
    OfType schema base (.struct name fields)

namespace CoercedValue

variable {schema : Schema} {base other : Name} {v : CoercedValue}

/-- **A value of a struct is a value of a type that may be this struct.** -/
theorem OfType.mono (h : OfType schema base v) (hlike : schema.isStructLike base = true)
    (hsub : schema.possibleTypes base ⊆ schema.possibleTypes other) : OfType schema other v := by
  induction h with
  | null => exact .null
  | leaf hleaf => simp [hlike] at hleaf
  | list _ ih => exact .list fun v hv => ih v hv hlike hsub
  | struct hname htype hfields hvalues _ => exact .struct (hsub hname) htype hfields hvalues

end CoercedValue

namespace InputCoercer

open CoercedValue

variable {c : InputCoercer} {type : TypeRef} {v : Json} {value : CoercedValue}

theorem isStructLike_of_leaf {schema : Schema} {name : Name} {type : TypeDefinition}
    (h : schema.type? name = some type) (hkind : type.kind.isStructLike = false) :
    schema.isStructLike name = false := by
  rw [Bool.eq_false_iff]
  intro hlike
  obtain ⟨other, hother, hstruct⟩ := Schema.isStructLike_eq_true_iff.1 hlike
  obtain rfl : type = other := Option.some.inj (h.symm.trans hother)
  simp [hkind] at hstruct

/-- **Coercion gives values of the named type.** -/
theorem Coerces.ofType (hs : c.schema.WellShaped) (h : Coerces c type v value) :
    OfType c.schema type.base value := by
  induction h with
  | null => exact .null
  | @items item _ vs values hlength _ ih =>
    refine .list ?_
    intro x hx
    obtain ⟨i, v, hv, hget⟩ := exists_item_of_mem hlength hx
    exact ih i v x hv hget
  | single _ _ _ ih =>
    refine .list ?_
    intro x hx
    obtain rfl := List.mem_singleton.1 hx
    exact ih
  | scalar _ htype _ => exact .leaf (isStructLike_of_leaf htype rfl)
  | enum _ htype _ => exact .leaf (isStructLike_of_leaf htype rfl)
  | @struct name _ entries type fields htype _ hnames _ _ _ ih =>
    have hpossible : name ∈ c.schema.possibleTypes name := by
      simp [Schema.possibleTypes, htype]
    refine .struct hpossible htype (ofStruct_of_presentFields hnames) ?_
    intro field x hfield hx
    -- the field has a value, so the input gave one for it
    obtain ⟨-, -, -, w, hw⟩ := exists_given_of_mem hnames hx
    exact ih field w x hfield hw hx
  | @member name member _ _ union value hunion hmember _ _ ih =>
    obtain ⟨type, htype⟩ := hs.struct_of_member hunion hmember
    have hlike : c.schema.isStructLike member = true :=
      Schema.isStructLike_eq_true_iff.2 ⟨_, htype, rfl⟩
    refine ih.mono hlike ?_
    intro n hn
    obtain rfl : n = member := by simpa [Schema.possibleTypes, TypeRef.base, htype] using hn
    change n ∈ c.schema.possibleTypes name
    simpa [Schema.possibleTypes, hunion, mem_distinctNames] using hmember

end InputCoercer

end StructQL
