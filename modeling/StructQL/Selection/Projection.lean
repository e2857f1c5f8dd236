import StructQL.Coercion.Value
import StructQL.Selection.Basic

/-!
# Projecting values onto selections

* `Selection.project`: what a selection shows of a value. A field that the value lacks is
  null, and `__typename` is the struct of the value.
-/

namespace StructQL.Selection

mutual

/-- **What a selection shows of a value.** Lists are gone through item by item, and a value
that is selected as a whole is shown with the names of its structs. -/
def project (s : Selection) (v : CoercedValue) : Json :=
  match v with
  | .null => .null
  | .leaf value => value
  | .list items => .array (projectItems s items)
  | .struct typeName fields =>
    match s with
    | whole => (CoercedValue.struct typeName fields).toJson
    | struct set => .object (projectFields set.fields typeName fields)
    | union _ members =>
      match members.lookup typeName with
      | some set => .object (projectFields set.fields typeName fields)
      | none => .object []
termination_by (sizeOf v, 0)

def projectItems (s : Selection) (items : List CoercedValue) : List Json :=
  match items with
  | [] => []
  | v :: rest => project s v :: projectItems s rest
termination_by (sizeOf items, 0)

def projectFields (selected : List (Name × Selection)) (typeName : Name)
    (fields : List (Name × CoercedValue)) : List (String × Json) :=
  match selected with
  | [] => []
  | (name, s) :: rest =>
    let shown : Json :=
      if name = Name.typename then .string typeName.text
      else
        match _h : fields.lookup name with
        | some v => project s v
        | none => .null
    (name.text, shown) :: projectFields rest typeName fields
termination_by (sizeOf fields, selected.length)
decreasing_by
  · exact .left _ _ (Pairs.sizeOf_lookup_lt _h)
  · exact .right _ (Nat.lt_succ_self _)

end

end StructQL.Selection
