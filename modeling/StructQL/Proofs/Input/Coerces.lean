import StructQL.Coercion.Input

/-!
# What an input value means

The coercion of input values, said without places, faults and reports.

* `InputCoercer.Coerces`: the relation of a type, an input value and its coerced value.
* `name_mem_iff_given`, `exists_given_of_mem`: a struct has values for the fields that were given.
-/

namespace StructQL

namespace InputCoercer

/-- The fields that an object has, in the order in which they are declared. -/
def presentFields (fields : List Field) (entries : List (String × Json)) : List Field :=
  fields.filter fun field => (entries.lookup field.name.text).isSome

/-- The object has no keys but `__typename` and the fields of the struct. -/
def Known (type : StructType) (entries : List (String × Json)) : Prop :=
  ∀ e ∈ entries, e.1 = Name.typename.text ∨ ∃ field ∈ type.fields.toList, field.name.text = e.1

/-- **The value that an input value stands for** at a type. -/
inductive Coerces (c : InputCoercer) : TypeRef → Json → CoercedValue → Prop where
  /-- Null is a value of the nullable types. -/
  | null {type : TypeRef} : type.isNonNull = false → Coerces c type .null .null
  /-- An array is a list, item by item. -/
  | items {item : TypeRef} {nonNull : Bool} {vs : List Json} {values : List CoercedValue} :
    values.length = vs.length →
    (∀ (i : Nat) v value, vs[i]? = some v → values[i]? = some value → Coerces c item v value) →
    Coerces c (.list item nonNull) (.array vs) (.list values)
  /-- A single value is a list of one. -/
  | single {item : TypeRef} {nonNull : Bool} {v : Json} {value : CoercedValue} :
    v ≠ .null → (∀ vs, v ≠ .array vs) → Coerces c item v value →
    Coerces c (.list item nonNull) v (.list [value])
  | scalar {name : Name} {nonNull : Bool} {v leaf : Json} {scalarName : Name} :
    v ≠ .null → c.schema.type? name = some (.scalar scalarName) →
    c.leaves.scalar name v = .ok leaf →
    Coerces c (.named name nonNull) v (.leaf leaf)
  | enum {name : Name} {nonNull : Bool} {v leaf : Json} {type : EnumType} :
    v ≠ .null → c.schema.type? name = some (.enum type) → c.leaves.enum type v = .ok leaf →
    Coerces c (.named name nonNull) v (.leaf leaf)
  /-- An object is a struct: it may name the struct, each field that it has coerces, and each
  that it lacks is nullable. -/
  | struct {name : Name} {nonNull : Bool} {entries : List (String × Json)} {type : StructType}
    {fields : List (Name × CoercedValue)} :
    c.schema.type? name = some (.struct type) →
    (∀ v, entries.lookup Name.typename.text = some v → v = .string name.text) →
    fields.map Prod.fst = (presentFields type.fields.toList entries).map Field.name →
    (∀ field v value, field ∈ type.fields.toList → entries.lookup field.name.text = some v →
      (field.name, value) ∈ fields → Coerces c field.type v value) →
    (∀ field ∈ type.fields.toList, entries.lookup field.name.text = none →
      field.type.isNonNull = false) →
    (c.config.rejectUnknownInputFields = true → Known type entries) →
    Coerces c (.named name nonNull) (.object entries) (.struct name fields)
  /-- An object is a value of a struct union: it names a member, and it is one of its values. -/
  | member {name member : Name} {nonNull : Bool} {entries : List (String × Json)}
    {union : UnionType} {value : CoercedValue} :
    c.schema.type? name = some (.structUnion union) → member ∈ union.members →
    entries.lookup Name.typename.text = some (.string member.text) →
    Coerces c (.named member true) (.object entries) value →
    Coerces c (.named name nonNull) (.object entries) value

/-- What stands in a list was coerced from an item. -/
theorem exists_item_of_mem {vs : List Json} {values : List CoercedValue}
    (hlen : values.length = vs.length) {x : CoercedValue} (hx : x ∈ values) :
    ∃ (i : Nat) (v : Json), vs[i]? = some v ∧ values[i]? = some x := by
  obtain ⟨i, hi, rfl⟩ := List.mem_iff_getElem.1 hx
  have hvs : i < vs.length := by rwa [← hlen]
  exact ⟨i, vs[i], List.getElem?_eq_getElem hvs, List.getElem?_eq_getElem hi⟩

section

variable {decls : List Field} {entries : List (String × Json)}
  {fields : List (Name × CoercedValue)}

/-- **A declared field has a value just if it was given.** -/
theorem name_mem_iff_given
    (hnames : fields.map Prod.fst = (presentFields decls entries).map Field.name)
    {field : Field} (hf : field ∈ decls) :
    field.name ∈ fields.map Prod.fst ↔ (entries.lookup field.name.text).isSome = true := by
  rw [hnames]
  constructor
  · intro hname
    obtain ⟨g, hg, hgname⟩ := List.mem_map.1 hname
    rw [← hgname]
    exact (List.mem_filter.1 hg).2
  · intro hgiven
    exact List.mem_map_of_mem (List.mem_filter.2 ⟨hf, hgiven⟩)

/-- **What has a value was declared and given.** -/
theorem exists_given_of_mem
    (hnames : fields.map Prod.fst = (presentFields decls entries).map Field.name)
    {name : Name} {value : CoercedValue} (h : (name, value) ∈ fields) :
    ∃ field ∈ decls, field.name = name ∧ ∃ v, entries.lookup name.text = some v := by
  have hname : name ∈ (presentFields decls entries).map Field.name := by
    rw [← hnames]
    exact List.mem_map_of_mem h
  obtain ⟨field, hfield, rfl⟩ := List.mem_map.1 hname
  obtain ⟨hdeclared, hgiven⟩ := List.mem_filter.1 hfield
  exact ⟨field, hdeclared, rfl, Option.isSome_iff_exists.1 hgiven⟩

end

end InputCoercer

end StructQL
