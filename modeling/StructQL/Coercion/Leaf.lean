import StructQL.Json.Writer
import StructQL.Schema.Basic

/-!
# Coercion of scalars and enums

* `LeafCoercion`: what becomes of the input of a scalar or of an enum, or the words that say
  why it is refused.
* `LeafCoercion.builtIn`: the rules of the built-in scalars. Other scalars take any value.
* `LeafCoercion.upperCase`: the same, but strings get capital letters.
-/

namespace StructQL

/-- **What becomes of leaves.** -/
structure LeafCoercion where
  scalar : Name → Json → Except String Json
  enum : EnumType → Json → Except String Json

namespace LeafCoercion

def coerceInt : Json → Except String Json
  | .number n =>
    match n.toInt64? with
    | some i =>
      if -2147483648 ≤ i ∧ i ≤ 2147483647 then .ok (.number n)
      else .error s!"Int cannot represent non 32-bit signed integer value: {n.text}"
    | none => .error s!"Int cannot represent non-integer value: {n.text}"
  | v => .error s!"Int cannot represent non-integer value: {v.compact}"

def coerceFloat : Json → Except String Json
  | .number n => .ok (.number n)
  | v => .error s!"Float cannot represent non numeric value: {v.compact}"

def coerceString : Json → Except String Json
  | .string s => .ok (.string s)
  | v => .error s!"String cannot represent a non string value: {v.compact}"

def coerceBoolean : Json → Except String Json
  | .bool b => .ok (.bool b)
  | v => .error s!"Boolean cannot represent a non boolean value: {v.compact}"

/-- An ID is a string, and a whole number is read as one. -/
def coerceID : Json → Except String Json
  | .string s => .ok (.string s)
  | .number n =>
    if n.isWhole then .ok (.string n.text)
    else .error s!"ID cannot represent value: {n.text}"
  | v => .error s!"ID cannot represent value: {v.compact}"

def coerceScalar (name : Name) (v : Json) : Except String Json :=
  if name.text = "Int" then coerceInt v
  else if name.text = "Float" then coerceFloat v
  else if name.text = "String" then coerceString v
  else if name.text = "Boolean" then coerceBoolean v
  else if name.text = "ID" then coerceID v
  else .ok v

/-- A value of an enum is one of its names. -/
def coerceEnum (type : EnumType) (v : Json) : Except String Json :=
  let refused := .error s!"Value {v.compact} does not exist in \"{type.name}\" enum"
  match v with
  | .string s => if type.values.any fun n => n.text == s then .ok v else refused
  | _ => refused

/-- **The rules of the built-in scalars.** -/
def builtIn : LeafCoercion := ⟨coerceScalar, coerceEnum⟩

/-- The built-in rules, but the scalar `String` puts ASCII letters into capitals. -/
def upperCase : LeafCoercion where
  scalar name v :=
    match v with
    | .string s =>
      if name = Name.string then .ok (.string (String.ofList (s.toList.map Char.toUpper)))
      else coerceScalar name v
    | _ => coerceScalar name v
  enum := coerceEnum

end LeafCoercion

end StructQL
