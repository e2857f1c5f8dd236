import StructQL.Schema.Kind
import StructQL.Schema.TypeRef
import StructQL.Table

/-!
# Schemas

* `TypeDefinition`: a named type, of one of eight kinds.
* `DirectiveDefinition`, `DirectiveLocation`: directives, and where they may stand.
* `Schema`: the named types and directives, and the types of the operations.
* `Schema.getStruct?`, `Schema.field?` and others: what a schema has under a name.
-/

namespace StructQL

/-- An argument of a field or of a directive. -/
structure InputValue where
  name : Name
  type : TypeRef
  deriving DecidableEq

/-- A field of a type. A field of a valid struct has no arguments. -/
structure Field where
  name : Name
  type : TypeRef
  arguments : List InputValue
  deriving DecidableEq

instance : Named Field := ⟨Field.name⟩

structure EnumType where
  name : Name
  values : List Name
  deriving DecidableEq

/-- An object type, an interface or an input object. -/
structure FieldsType where
  name : Name
  implements : List Name
  fields : Table Field
  deriving DecidableEq

/-- A composite type that holds only leaves and structs, for output and for input. -/
structure StructType where
  name : Name
  fields : Table Field
  deriving DecidableEq

/-- A union of object types or of structs, with its members as they were written. -/
structure UnionType where
  name : Name
  members : List Name
  deriving DecidableEq

/-- **A named type.** -/
inductive TypeDefinition where
  | scalar (name : Name)
  | enum (type : EnumType)
  | object (type : FieldsType)
  | interface (type : FieldsType)
  | union (type : UnionType)
  | inputObject (type : FieldsType)
  | struct (type : StructType)
  | structUnion (type : UnionType)
  deriving DecidableEq

namespace TypeDefinition

def name : TypeDefinition → Name
  | scalar name => name
  | enum type => type.name
  | object type | interface type | inputObject type => type.name
  | union type | structUnion type => type.name
  | struct type => type.name

def kind : TypeDefinition → TypeKind
  | scalar _ => .scalar
  | enum _ => .enum
  | object _ => .object
  | interface _ => .interface
  | union _ => .union
  | inputObject _ => .inputObject
  | struct _ => .struct
  | structUnion _ => .structUnion

def struct? : TypeDefinition → Option StructType
  | struct type => some type
  | _ => none

def structUnion? : TypeDefinition → Option UnionType
  | structUnion type => some type
  | _ => none

def enum? : TypeDefinition → Option EnumType
  | enum type => some type
  | _ => none

/-- The fields that a query may select on the type. -/
def outputFields? : TypeDefinition → Option (Table Field)
  | object type | interface type => some type.fields
  | struct type => some type.fields
  | _ => none

end TypeDefinition

instance : Named TypeDefinition := ⟨TypeDefinition.name⟩

/-- Where a directive may stand. -/
inductive DirectiveLocation where
  | query
  | mutation
  | subscription
  | field
  | fragmentDefinition
  | fragmentSpread
  | inlineFragment
  | variableDefinition
  | schema
  | scalar
  | object
  | fieldDefinition
  | argumentDefinition
  | interface
  | union
  | enum
  | enumValue
  | inputObject
  | inputFieldDefinition
  /-- A field selected on a struct. -/
  | structField
  deriving DecidableEq

namespace DirectiveLocation

def all : List DirectiveLocation :=
  [query, mutation, subscription, field, fragmentDefinition, fragmentSpread, inlineFragment,
    variableDefinition, schema, scalar, object, fieldDefinition, argumentDefinition, interface,
    union, enum, enumValue, inputObject, inputFieldDefinition, structField]

def text : DirectiveLocation → String
  | query => "QUERY"
  | mutation => "MUTATION"
  | subscription => "SUBSCRIPTION"
  | field => "FIELD"
  | fragmentDefinition => "FRAGMENT_DEFINITION"
  | fragmentSpread => "FRAGMENT_SPREAD"
  | inlineFragment => "INLINE_FRAGMENT"
  | variableDefinition => "VARIABLE_DEFINITION"
  | schema => "SCHEMA"
  | scalar => "SCALAR"
  | object => "OBJECT"
  | fieldDefinition => "FIELD_DEFINITION"
  | argumentDefinition => "ARGUMENT_DEFINITION"
  | interface => "INTERFACE"
  | union => "UNION"
  | enum => "ENUM"
  | enumValue => "ENUM_VALUE"
  | inputObject => "INPUT_OBJECT"
  | inputFieldDefinition => "INPUT_FIELD_DEFINITION"
  | structField => "STRUCT_FIELD"

def ofText? (text : String) : Option DirectiveLocation := all.find? fun l => l.text = text

end DirectiveLocation

structure DirectiveDefinition where
  name : Name
  arguments : List InputValue
  repeatable : Bool
  locations : List DirectiveLocation
  deriving DecidableEq

instance : Named DirectiveDefinition := ⟨DirectiveDefinition.name⟩

/-- The types that the operations start from. -/
structure RootTypes where
  query : Name := ⟨"Query", by decide⟩
  mutation : Option Name := none
  subscription : Option Name := none
  deriving DecidableEq

/-- The types that the operations start from in a schema that names none. -/
def RootTypes.standard : RootTypes := {}

/-- **A schema.** -/
structure Schema where
  types : Table TypeDefinition
  directives : Table DirectiveDefinition
  roots : RootTypes
  deriving DecidableEq

/-- The scalars that every schema has. -/
def builtInScalars : List Name :=
  [⟨"Int", by decide⟩, ⟨"Float", by decide⟩, Name.string, ⟨"Boolean", by decide⟩,
    ⟨"ID", by decide⟩]

namespace Schema

/-- The schema of an empty document. -/
def initial : Schema := ⟨Table.ofFirsts (builtInScalars.map .scalar), Table.empty, .standard⟩

/-- The type of a name. -/
def type? (s : Schema) (name : Name) : Option TypeDefinition := s.types.find? name

/-- The kind of the type of a name. -/
def kind? (s : Schema) (name : Name) : Option TypeKind := (s.type? name).map TypeDefinition.kind

/-- A type is found under its own name. -/
theorem name_of_type? {s : Schema} {name : Name} {type : TypeDefinition}
    (h : s.type? name = some type) : type.name = name := by
  simpa [Named.nameOf] using List.find?_some h

theorem mem_of_type? {s : Schema} {name : Name} {type : TypeDefinition}
    (h : s.type? name = some type) : type ∈ s.types.toList :=
  List.mem_of_find?_eq_some h

theorem type?_of_mem {s : Schema} {type : TypeDefinition} (h : type ∈ s.types.toList) :
    s.type? type.name = some type :=
  Table.find?_of_mem h

/-- The struct of a name. -/
def struct? (s : Schema) (name : Name) : Option StructType :=
  (s.type? name).bind TypeDefinition.struct?

theorem struct?_eq_some_iff {s : Schema} {name : Name} {type : StructType} :
    s.struct? name = some type ↔ s.type? name = some (.struct type) := by
  unfold struct?
  cases s.type? name with
  | none => simp
  | some t => cases t <;> simp [TypeDefinition.struct?]

/-- The struct union of a name. -/
def structUnion? (s : Schema) (name : Name) : Option UnionType :=
  (s.type? name).bind TypeDefinition.structUnion?

theorem structUnion?_eq_some_iff {s : Schema} {name : Name} {type : UnionType} :
    s.structUnion? name = some type ↔ s.type? name = some (.structUnion type) := by
  unfold structUnion?
  cases s.type? name with
  | none => simp
  | some t => cases t <;> simp [TypeDefinition.structUnion?]

/-- The enum of a name. -/
def enum? (s : Schema) (name : Name) : Option EnumType :=
  (s.type? name).bind TypeDefinition.enum?

/-- The structs, in order. -/
def structs (s : Schema) : List StructType := s.types.toList.filterMap TypeDefinition.struct?

/-- The struct unions, in order. -/
def structUnions (s : Schema) : List UnionType :=
  s.types.toList.filterMap TypeDefinition.structUnion?

/-- The name is that of a struct or of a struct union. -/
def isStructLike (s : Schema) (name : Name) : Bool :=
  match s.kind? name with
  | some kind => kind.isStructLike
  | none => false

theorem isStructLike_eq_true_iff {s : Schema} {name : Name} :
    s.isStructLike name = true ↔
      ∃ type, s.type? name = some type ∧ type.kind.isStructLike = true := by
  unfold isStructLike kind?
  cases s.type? name <;> simp

/-- The field that a query selects on an object type, an interface or a struct. -/
def field? (s : Schema) (typeName fieldName : Name) : Option Field :=
  ((s.type? typeName).bind TypeDefinition.outputFields?).bind fun fields =>
    fields.find? fieldName

/-- A schema with a field has some type. -/
theorem size_pos_of_field? {s : Schema} {type name : Name} {field : Field}
    (h : s.field? type name = some field) : 0 < s.types.size := by
  obtain ⟨fields, hfields, -⟩ := Option.bind_eq_some_iff.1 h
  obtain ⟨definition, hdefinition, -⟩ := Option.bind_eq_some_iff.1 hfields
  exact List.length_pos_of_mem (mem_of_type? hdefinition)

end Schema

end StructQL
