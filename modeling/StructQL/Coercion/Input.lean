import StructQL.Coercion.Leaf
import StructQL.Coercion.Path
import StructQL.Coercion.Value
import StructQL.Config
import StructQL.Fault.Reporting
import StructQL.Schema.Valid

/-!
# Input coercion

An input value is coerced to its type. A value of a struct union names its struct by
`__typename`. All that is wrong is reported, each fault at the place of its value.

* `InputCoercer`: the schema, the settings and the rules for leaves.
* `InputCoercer.coerceValue`: the coercion of a value at a place.
* `InputCoercer.coerce`: the coercion of a whole input.
* `InputCoercer.resolveMember`: the member of a struct union that an input names.
-/

namespace StructQL

/-- What coercion depends on. -/
structure InputCoercer where
  schema : Schema
  config : Config := {}
  leaves : LeafCoercion := LeafCoercion.builtIn

namespace InputCoercer

open Reporting

/-- How a `__typename` is shown: a string as it is, anything else as JSON. -/
def discriminatorText (v : Json) : String := (v.asString?).getD v.compact

/-- A leaf, or the fault of one that is refused. -/
def leafOrRefusal (path : InputPath) : Except String Json → Reporting (Option CoercedValue)
  | .ok v => return some (.leaf v)
  | .error message => refuse (.invalidInputValue path.text message)

variable (c : InputCoercer)

/-- The struct that the object names, a member of the union. -/
def discriminate (union : UnionType) (entries : List (String × Json)) (path : InputPath) :
    Except Fault StructType :=
  match entries.lookup Name.typename.text with
  | none | some .null => .error (.missingDiscriminator path.text union.name)
  | some v =>
    let named := do
      let text ← v.asString?
      let member ← union.members.find? fun m => m.text = text
      c.schema.struct? member
    match named with
    | some type => .ok type
    | none => .error (.unknownDiscriminator path.text union.name (discriminatorText v))

/-- The keys of an object that are no fields of its struct. -/
def unknownFieldFaults (type : StructType) (entries : List (String × Json)) (path : InputPath) :
    List Fault :=
  if c.config.rejectUnknownInputFields then
    (entries.filter fun e =>
      e.1 ≠ Name.typename.text && !type.fields.toList.any fun f => f.name.text = e.1).map fun e =>
        .unknownInputField path.text type.name e.1
  else []

/-- The `__typename` of an object, if it has one, is the name of its struct. -/
def typenameFault? (name : Name) (entries : List (String × Json)) (path : InputPath) :
    Option Fault :=
  match entries.lookup Name.typename.text with
  | none => none
  | some v =>
    if v.asString? = some name.text then none
    else some (.typeMismatch path.text name (discriminatorText v))

mutual

/-- **The coercion of a value at a place.** A single value stands for a list of one. -/
def coerceValue (type : TypeRef) (v : Json) (path : InputPath) :
    Reporting (Option CoercedValue) :=
  match v with
  | .null =>
    if type.isNonNull then
      refuse (.invalidInputValue path.text s!"Expected a non-null value of type \"{type}\"")
    else return some .null
  | v =>
    match type with
    | .named name _ => coerceNamed name v path
    | .list item _ =>
      match v with
      | .array items => do
        let values ← coerceItems item items path 0
        return (values.mapM id).map .list
      | v => do
        let value ← coerceValue item v path
        return value.map fun one => .list [one]
termination_by (sizeOf v, sizeOf type, 0)

/-- The items of a list, from an index on. -/
def coerceItems (item : TypeRef) (items : List Json) (path : InputPath) (i : Nat) :
    Reporting (List (Option CoercedValue)) :=
  match items with
  | [] => return []
  | v :: rest => do
    let value ← coerceValue item v (path.step (.index i))
    let others ← coerceItems item rest path (i + 1)
    return value :: others
termination_by (sizeOf items, 0, 0)

/-- A value that is not null at a named type. -/
def coerceNamed (name : Name) (v : Json) (path : InputPath) : Reporting (Option CoercedValue) :=
  let refuseFor (message : String) : Reporting (Option CoercedValue) :=
    refuse (.invalidInputValue path.text message)
  match c.schema.type? name with
  | some (.scalar _) => leafOrRefusal path (c.leaves.scalar name v)
  | some (.enum type) => leafOrRefusal path (c.leaves.enum type v)
  | some (.struct type) =>
    match v with
    | .object entries =>
      match typenameFault? name entries path with
      | none => coerceStruct type entries path
      | some fault => refuse fault
    | v => refuseFor s!"Expected an object for struct \"{name}\", found {v.compact}"
  | some (.structUnion union) =>
    match v with
    | .object entries =>
      match discriminate c union entries path with
      | .ok type => coerceStruct type entries path
      | .error fault => refuse fault
    | v => refuseFor s!"Expected an object for struct union \"{name}\", found {v.compact}"
  | some other => refuseFor s!"\"{name}\" is {other.kind} and cannot be coerced as struct input"
  | none => refuseFor s!"Unknown type \"{name}\""
termination_by (sizeOf v, 0, 1)

/-- An object as a value of a struct. There is none if the report has grown meanwhile. -/
def coerceStruct (type : StructType) (entries : List (String × Json)) (path : InputPath) :
    Reporting (Option CoercedValue) := do
  let before ← faultCount
  reportAll (unknownFieldFaults c type entries path)
  let fields ← coerceFields type.name type.fields.toList entries path
  let after ← faultCount
  return if after = before then some (.struct type.name fields) else none
termination_by (sizeOf entries, 1, 0)

/-- The fields of a struct that have a value, in the order in which they are declared. -/
def coerceFields (structName : Name) (fields : List Field) (entries : List (String × Json))
    (path : InputPath) : Reporting (List (Name × CoercedValue)) :=
  match fields with
  | [] => return []
  | field :: rest =>
    match _h : entries.lookup field.name.text with
    | some v => do
      let value ← coerceValue field.type v (path.step (.field field.name))
      let others ← coerceFields structName rest entries path
      return (value.map fun value => (field.name, value)).toList ++ others
    | none => do
      if field.type.isNonNull then
        report (.missingRequiredField path.text structName field.name)
      coerceFields structName rest entries path
termination_by (sizeOf entries, 0, fields.length)
decreasing_by
  · exact .left _ _ (Pairs.sizeOf_lookup_lt _h)
  · exact .right _ (.right _ (Nat.lt_succ_self _))
  · exact .right _ (.right _ (Nat.lt_succ_self _))

end

section

variable {c} {type item : TypeRef} {name : Name} {nonNull : Bool} {v : Json} {path : InputPath}

theorem coerceValue_null :
    c.coerceValue type .null path =
      if type.isNonNull then
        refuse (.invalidInputValue path.text s!"Expected a non-null value of type \"{type}\"")
      else pure (some .null) := by
  rw [coerceValue]

theorem coerceValue_named (hv : v ≠ .null) :
    c.coerceValue (.named name nonNull) v path = c.coerceNamed name v path := by
  cases v with
  | null => exact absurd rfl hv
  | _ =>
    rw [coerceValue]
    exact hv

theorem coerceValue_array {items : List Json} :
    c.coerceValue (.list item nonNull) (.array items) path = (do
      let values ← c.coerceItems item items path 0
      return (values.mapM id).map .list) := by
  rw [coerceValue]

theorem coerceValue_single (hv : v ≠ .null) (ha : ∀ items, v ≠ .array items) :
    c.coerceValue (.list item nonNull) v path = (do
      let value ← c.coerceValue item v path
      return value.map fun one => .list [one]) := by
  cases v with
  | null => exact absurd rfl hv
  | array items => exact absurd rfl (ha items)
  | _ => rw [coerceValue] <;> nofun

variable {structName : Name} {field : Field} {rest : List Field} {entries : List (String × Json)}

theorem coerceFields_some (h : entries.lookup field.name.text = some v) :
    c.coerceFields structName (field :: rest) entries path = (do
      let value ← c.coerceValue field.type v (path.step (.field field.name))
      let others ← c.coerceFields structName rest entries path
      return (value.map fun value => (field.name, value)).toList ++ others) := by
  rw [coerceFields]
  split
  · rename_i w hw
    rw [Option.some.inj (h.symm.trans hw)]
  · rename_i hn
    rw [hn] at h; cases h

theorem coerceFields_none (h : entries.lookup field.name.text = none) :
    c.coerceFields structName (field :: rest) entries path = (do
      if field.type.isNonNull then
        report (.missingRequiredField path.text structName field.name)
      c.coerceFields structName rest entries path) := by
  rw [coerceFields]
  split
  · rename_i w hw
    rw [h] at hw; cases hw
  · rfl

end

/-- **The coercion of a whole input**, whose root has the given name. -/
def coerce (name : String) (type : TypeRef) (v : Json) : Except Failure CoercedValue :=
  (c.coerceValue type v ⟨name, []⟩).result
    (.internal s!"Coercion of \"{name}\" failed without an error")

/-- **The member of a struct union that an input names.** -/
def resolveMember (unionName : String) (v : Json) : Except Failure StructType :=
  match (Name.ofString? unionName).bind c.schema.structUnion? with
  | none => .error (.single (.internal s!"\"{unionName}\" is not a struct union"))
  | some union =>
    match v with
    | .object entries =>
      match c.discriminate union entries ⟨unionName, []⟩ with
      | .ok type => .ok type
      | .error fault => .error (.single fault)
    | v =>
      .error (.single (.invalidInputValue unionName
        s!"Expected an object for \"{unionName}\", found {v.compact}"))

end InputCoercer

end StructQL
