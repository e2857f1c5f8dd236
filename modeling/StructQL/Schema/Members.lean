import StructQL.Fault.Report
import StructQL.Schema.Basic

/-!
# What structs and struct unions are made of

A struct has at least one field. Its fields have no arguments, and their types are scalars,
enums, structs and struct unions. A struct union has at least one member, and its members are
distinct structs.

* `Schema.structFaults`: what is wrong with the fields of a struct.
* `Schema.unionFaults`: what is wrong with the members of a struct union.
-/

namespace StructQL.Schema

variable (s : Schema)

/-- What is wrong with a field of a struct. -/
def fieldFaults (structName : Name) (field : Field) : List Fault :=
  let arguments :=
    if field.arguments.isEmpty then [] else [.structFieldArguments structName field.name]
  let memberType := field.type.base
  let type : List Fault :=
    match s.kind? memberType with
    | none => [.unknownType s!"Field \"{structName}.{field.name}\"" memberType]
    | some kind =>
      if kind.isAllowedInStruct then []
      else [.forbiddenMember structName field.name memberType kind]
  arguments ++ type

/-- **What is wrong with the fields of a struct.** -/
def structFaults (type : StructType) : List Fault :=
  (if type.fields.toList.isEmpty then [.emptyStruct type.name] else []) ++
    type.fields.toList.flatMap (s.fieldFaults type.name)

/-- What is wrong with a member that was not listed before. -/
def memberFaults (unionName member : Name) : List Fault :=
  match s.kind? member with
  | none => [.unknownType s!"Struct union \"{unionName}\"" member]
  | some .struct => []
  | some kind => [.invalidUnionMember unionName member kind]

/-- What is wrong with members after those that were listed before. -/
def membersFaults (unionName : Name) (seen : List Name) : List Name → List Fault
  | [] => []
  | member :: rest =>
    (if member ∈ seen then [.duplicateMember unionName member]
      else s.memberFaults unionName member) ++
      membersFaults unionName (seen ++ [member]) rest

/-- **What is wrong with the members of a struct union.** -/
def unionFaults (type : UnionType) : List Fault :=
  if type.members.isEmpty then [.emptyUnion type.name]
  else s.membersFaults type.name [] type.members

end StructQL.Schema
