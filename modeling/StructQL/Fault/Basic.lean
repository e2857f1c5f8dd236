import StructQL.Name
import StructQL.Schema.Kind

/-!
# Faults

Everything that can be wrong with a schema, a query or an input value.

* `Fault`: the faults, each with what its text speaks of.
* `FaultCode`, `FaultCategory`: the code of a fault, and whom the code concerns.
* `Fault.text`: the words of a fault.
-/

namespace StructQL

/-- Whom a fault concerns. -/
inductive FaultCategory where
  /-- The author of the schema. -/
  | schemaShape
  /-- The author of the query. -/
  | queryShape
  /-- Who sent the input value. -/
  | inputCoercion
  /-- This library. -/
  | internal
  deriving DecidableEq

def FaultCategory.text : FaultCategory → String
  | schemaShape => "schema-shape"
  | queryShape => "query-shape"
  | inputCoercion => "input-coercion"
  | internal => "internal"

/-- **The codes of faults.** -/
inductive FaultCode where
  | internal
  | invalidGraphql
  | cycle
  | forbiddenMember
  | emptyUnion
  | duplicateMember
  | unknownType
  | invalidUnionMember
  | structFieldArguments
  | emptyStruct
  | duplicateTypeDefinition
  | duplicateFieldDefinition
  | aliasNotAllowed
  | directiveNotAllowed
  | argumentsNotAllowed
  | unknownField
  | unknownFragment
  | fragmentCycle
  | unknownMemberFieldOnUnion
  | subselectionOnLeaf
  | invalidFragmentTarget
  | missingDiscriminator
  | unknownDiscriminator
  | typeMismatch
  | invalidInputValue
  | missingRequiredField
  | unknownInputField
  deriving DecidableEq

namespace FaultCode

/-- All codes, those of the schema first and those of input values last. -/
def all : List FaultCode :=
  [internal, invalidGraphql, cycle, forbiddenMember, emptyUnion, duplicateMember, unknownType,
    invalidUnionMember, structFieldArguments, emptyStruct, duplicateTypeDefinition,
    duplicateFieldDefinition, aliasNotAllowed, directiveNotAllowed, argumentsNotAllowed,
    unknownField, unknownFragment, fragmentCycle, unknownMemberFieldOnUnion, subselectionOnLeaf,
    invalidFragmentTarget, missingDiscriminator, unknownDiscriminator, typeMismatch,
    invalidInputValue, missingRequiredField, unknownInputField]

def text : FaultCode → String
  | internal => "INTERNAL"
  | invalidGraphql => "INVALID_GRAPHQL"
  | cycle => "CYCLE"
  | forbiddenMember => "FORBIDDEN_MEMBER"
  | emptyUnion => "EMPTY_UNION"
  | duplicateMember => "DUPLICATE_MEMBER"
  | unknownType => "UNKNOWN_TYPE"
  | invalidUnionMember => "INVALID_UNION_MEMBER"
  | structFieldArguments => "STRUCT_FIELD_ARGUMENTS"
  | emptyStruct => "EMPTY_STRUCT"
  | duplicateTypeDefinition => "DUPLICATE_TYPE_DEFINITION"
  | duplicateFieldDefinition => "DUPLICATE_FIELD_DEFINITION"
  | aliasNotAllowed => "ALIAS_NOT_ALLOWED"
  | directiveNotAllowed => "DIRECTIVE_NOT_ALLOWED"
  | argumentsNotAllowed => "ARGUMENTS_NOT_ALLOWED"
  | unknownField => "UNKNOWN_FIELD"
  | unknownFragment => "UNKNOWN_FRAGMENT"
  | fragmentCycle => "FRAGMENT_CYCLE"
  | unknownMemberFieldOnUnion => "UNKNOWN_MEMBER_FIELD_ON_UNION"
  | subselectionOnLeaf => "SUBSELECTION_ON_LEAF"
  | invalidFragmentTarget => "INVALID_FRAGMENT_TARGET"
  | missingDiscriminator => "MISSING_DISCRIMINATOR"
  | unknownDiscriminator => "UNKNOWN_DISCRIMINATOR"
  | typeMismatch => "TYPE_MISMATCH"
  | invalidInputValue => "INVALID_INPUT_VALUE"
  | missingRequiredField => "MISSING_REQUIRED_FIELD"
  | unknownInputField => "UNKNOWN_INPUT_FIELD"

/-- Whom a code concerns. A document that cannot be read counts as a fault of the schema. -/
def category : FaultCode → FaultCategory
  | internal => .internal
  | invalidGraphql | cycle | forbiddenMember | emptyUnion | duplicateMember | unknownType
  | invalidUnionMember | structFieldArguments | emptyStruct | duplicateTypeDefinition
  | duplicateFieldDefinition => .schemaShape
  | aliasNotAllowed | directiveNotAllowed | argumentsNotAllowed | unknownField | unknownFragment
  | fragmentCycle | unknownMemberFieldOnUnion | subselectionOnLeaf
  | invalidFragmentTarget => .queryShape
  | missingDiscriminator | unknownDiscriminator | typeMismatch | invalidInputValue
  | missingRequiredField | unknownInputField => .inputCoercion

end FaultCode

/-- **The faults.** -/
inductive Fault where
  | internal (message : String)
  /-- A schema or a query could not be read. -/
  | invalidGraphQL (message : String)
  | cycle (typeName : Name) (path : String)
  | forbiddenMember (structName fieldName memberType : Name) (memberKind : TypeKind)
  | emptyUnion (unionName : Name)
  | duplicateMember (unionName member : Name)
  | unknownType (referencedBy : String) (typeName : Name)
  | invalidUnionMember (unionName member : Name) (memberKind : TypeKind)
  | structFieldArguments (structName fieldName : Name)
  | emptyStruct (structName : Name)
  | duplicateTypeDefinition (typeName : Name)
  | duplicateFieldDefinition (typeName fieldName : Name)
  | aliasNotAllowed (typeName fieldName aliasName : Name)
  | directiveNotAllowed (typeName fieldName directiveName : Name)
  | argumentsNotAllowed (typeName fieldName : Name)
  | unknownField (typeName fieldName : Name)
  | unknownFragment (fragmentName : Name)
  | fragmentCycle (fragmentName : Name) (path : String)
  | unknownMemberFieldOnUnion (unionName fieldName : Name)
  | subselectionOnLeaf (typeName fieldName fieldType : Name)
  | invalidFragmentTarget (typeCondition scope : Name)
  | missingDiscriminator (path : String) (unionName : Name)
  | unknownDiscriminator (path : String) (unionName : Name) (discriminator : String)
  | typeMismatch (path : String) (expected : Name) (found : String)
  | invalidInputValue (path message : String)
  | missingRequiredField (path : String) (typeName fieldName : Name)
  | unknownInputField (path : String) (typeName : Name) (fieldName : String)
  deriving DecidableEq

namespace Fault

def code : Fault → FaultCode
  | internal .. => .internal
  | invalidGraphQL .. => .invalidGraphql
  | cycle .. => .cycle
  | forbiddenMember .. => .forbiddenMember
  | emptyUnion .. => .emptyUnion
  | duplicateMember .. => .duplicateMember
  | unknownType .. => .unknownType
  | invalidUnionMember .. => .invalidUnionMember
  | structFieldArguments .. => .structFieldArguments
  | emptyStruct .. => .emptyStruct
  | duplicateTypeDefinition .. => .duplicateTypeDefinition
  | duplicateFieldDefinition .. => .duplicateFieldDefinition
  | aliasNotAllowed .. => .aliasNotAllowed
  | directiveNotAllowed .. => .directiveNotAllowed
  | argumentsNotAllowed .. => .argumentsNotAllowed
  | unknownField .. => .unknownField
  | unknownFragment .. => .unknownFragment
  | fragmentCycle .. => .fragmentCycle
  | unknownMemberFieldOnUnion .. => .unknownMemberFieldOnUnion
  | subselectionOnLeaf .. => .subselectionOnLeaf
  | invalidFragmentTarget .. => .invalidFragmentTarget
  | missingDiscriminator .. => .missingDiscriminator
  | unknownDiscriminator .. => .unknownDiscriminator
  | typeMismatch .. => .typeMismatch
  | invalidInputValue .. => .invalidInputValue
  | missingRequiredField .. => .missingRequiredField
  | unknownInputField .. => .unknownInputField

def category (f : Fault) : FaultCategory := f.code.category

/-- **The words of a fault.** -/
def text : Fault → String
  | internal message =>
    s!"An internal error has occurred, please report this bug to Apollo.\n\nDetails: {message}"
  | invalidGraphQL message => message
  | cycle typeName path =>
    s!"Struct \"{typeName}\" can never be instantiated: unbreakable cycle {path}"
  | forbiddenMember structName fieldName memberType memberKind =>
    s!"Field \"{structName}.{fieldName}\" has type \"{memberType}\" which is {memberKind}; " ++
      "struct fields may only reference scalars, enums, structs and struct unions"
  | emptyUnion unionName => s!"Struct union \"{unionName}\" must have at least one member"
  | duplicateMember unionName member =>
    s!"Struct union \"{unionName}\" includes member \"{member}\" more than once"
  | unknownType referencedBy typeName =>
    s!"{referencedBy} references unknown type \"{typeName}\""
  | invalidUnionMember unionName member memberKind =>
    s!"Struct union \"{unionName}\" member \"{member}\" is {memberKind}; " ++
      "struct union members must be structs"
  | structFieldArguments structName fieldName =>
    s!"Field \"{structName}.{fieldName}\" cannot declare arguments: " ++
      "struct fields are plain data"
  | emptyStruct structName => s!"Struct \"{structName}\" must define at least one field"
  | duplicateTypeDefinition typeName => s!"There can be only one type named \"{typeName}\""
  | duplicateFieldDefinition typeName fieldName =>
    s!"Field \"{typeName}.{fieldName}\" can only be defined once"
  | aliasNotAllowed typeName fieldName aliasName =>
    s!"Alias \"{aliasName}\" is not allowed on struct field \"{typeName}.{fieldName}\""
  | directiveNotAllowed typeName fieldName directiveName =>
    s!"Directive \"@{directiveName}\" is not allowed on struct field " ++
      s!"\"{typeName}.{fieldName}\""
  | argumentsNotAllowed typeName fieldName =>
    s!"Struct field \"{typeName}.{fieldName}\" does not accept arguments"
  | unknownField typeName fieldName =>
    s!"Cannot query field \"{fieldName}\" on type \"{typeName}\""
  | unknownFragment fragmentName => s!"Unknown fragment \"{fragmentName}\""
  | fragmentCycle fragmentName path =>
    s!"Cannot spread fragment \"{fragmentName}\" within itself via {path}"
  | unknownMemberFieldOnUnion unionName fieldName =>
    s!"Field \"{fieldName}\" is not defined by every member of struct union " ++
      s!"\"{unionName}\"; use an inline fragment on a concrete member to select it"
  | subselectionOnLeaf typeName fieldName fieldType =>
    s!"Field \"{typeName}.{fieldName}\" of leaf type \"{fieldType}\" must not have a selection"
  | invalidFragmentTarget typeCondition scope =>
    s!"Fragment on \"{typeCondition}\" can never apply within \"{scope}\""
  | missingDiscriminator path unionName =>
    s!"Input value at \"{path}\" for struct union \"{unionName}\" must specify its concrete " ++
      "struct with \"__typename\""
  | unknownDiscriminator path unionName discriminator =>
    s!"Input value at \"{path}\" has \"__typename\" \"{discriminator}\" which is not a member " ++
      s!"of struct union \"{unionName}\""
  | typeMismatch path expected found =>
    s!"Input value at \"{path}\" declares \"__typename\" \"{found}\" but \"{expected}\" " ++
      "was expected"
  | invalidInputValue path message => s!"Invalid input value at \"{path}\": {message}"
  | missingRequiredField path typeName fieldName =>
    s!"Input value at \"{path}\" is missing required field \"{typeName}.{fieldName}\""
  | unknownInputField path typeName fieldName =>
    s!"Input value at \"{path}\" has field \"{fieldName}\" which is not defined by " ++
      s!"\"{typeName}\""

/-- The code and the words of a fault on a line of its own. -/
def line (f : Fault) : String := "[" ++ f.code.text ++ "] " ++ f.text ++ "\n"

end Fault

end StructQL
