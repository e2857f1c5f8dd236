import StructQL.Json.Value
import StructQL.Name

/-!
# Coerced values

* `CoercedValue`: an input value after coercion to its type.
* `CoercedValue.toJson`: the value as JSON. Structs say which struct they are, so that the
  JSON can be coerced again.
-/

namespace StructQL

/-- **An input value after coercion.** A struct has the fields that the input had. -/
inductive CoercedValue where
  | null
  /-- A value of a scalar or of an enum. -/
  | leaf (value : Json)
  | list (items : List CoercedValue)
  | struct (typeName : Name) (fields : List (Name × CoercedValue))

namespace CoercedValue

/-- The struct that the value is of. -/
def structName? : CoercedValue → Option Name
  | struct typeName _ => some typeName
  | _ => none

mutual

/-- **The value as JSON.** -/
def toJson : CoercedValue → Json
  | null => .null
  | leaf value => value
  | list items => .array (itemsToJson items)
  | struct typeName fields =>
    .object (Pairs.ofList
      ((Name.typename.text, .string typeName.text) :: fieldsToJson fields))

def itemsToJson : List CoercedValue → List Json
  | [] => []
  | v :: rest => toJson v :: itemsToJson rest

def fieldsToJson : List (Name × CoercedValue) → List (String × Json)
  | [] => []
  | (name, v) :: rest => (name.text, toJson v) :: fieldsToJson rest

end

end CoercedValue

end StructQL
