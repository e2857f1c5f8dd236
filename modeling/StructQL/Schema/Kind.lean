/-!
# Kinds of types

* `TypeKind`: the kinds of named types.
* `TypeKind.isLeaf`, `TypeKind.isStructLike`, `TypeKind.isAllowedInStruct`: what a kind may
  be used for.
-/

namespace StructQL

/-- **The kinds of named types.** -/
inductive TypeKind where
  | scalar
  | enum
  | object
  | interface
  | union
  | inputObject
  | struct
  | structUnion
  deriving DecidableEq

namespace TypeKind

/-- The kind with its article. -/
def text : TypeKind → String
  | scalar => "a scalar"
  | enum => "an enum"
  | object => "an object type"
  | interface => "an interface"
  | union => "a union"
  | inputObject => "an input object"
  | struct => "a struct"
  | structUnion => "a struct union"

instance : ToString TypeKind := ⟨text⟩

/-- All kinds. -/
def all : List TypeKind :=
  [scalar, enum, object, interface, union, inputObject, struct, structUnion]

/-- Values of the kind have no fields. -/
def isLeaf (k : TypeKind) : Bool := k = scalar || k = enum

/-- Values of the kind are structs. -/
def isStructLike (k : TypeKind) : Bool := k = struct || k = structUnion

/-- A struct field may have a type of the kind. -/
def isAllowedInStruct (k : TypeKind) : Bool := k.isLeaf || k.isStructLike

end TypeKind

end StructQL
