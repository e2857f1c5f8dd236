import StructQL.SDL.Lexeme
import StructQL.Schema.Basic

/-!
# Definitions of a schema document

A schema document is a sequence of definitions. Descriptions, applied directives and default
values may be written and have no meaning.

* `SDL.Definition`: a definition as written.
* `SDL.constant`, `SDL.typeRef`, `SDL.appliedDirectives`: values, types and directives.
* `SDL.definition`: the rule for one definition.
-/

namespace StructQL.SDL

open Rule

/-- A definition with fields, as written. -/
structure WrittenFields where
  name : Name
  implements : List Name
  fields : List Field
  deriving DecidableEq

/-- **A definition as written.** -/
inductive Definition where
  | schema (operations : List (Name × Name))
  | scalar (name : Name)
  | object (type : WrittenFields)
  | interface (type : WrittenFields)
  | union (type : UnionType)
  | enum (type : EnumType)
  | inputObject (type : WrittenFields)
  | struct (type : WrittenFields)
  | structUnion (type : UnionType)
  | directive (directive : DirectiveDefinition)
  deriving DecidableEq

/-! ### Values, types and applied directives -/

/-- Names with values, as in an object or among arguments. -/
def namedConstants (constant : Rule Char Unit) : Rule Char Unit := do
  let _ ← many do
    let _ ← name
    punctuator ':'
    constant

/-- A constant in lists and objects at most so deep. -/
def constantWithin : Nat → Rule Char Unit
  | 0 => never
  | depth + 1 =>
    firstOf [
      stringValue,
      number,
      (do let _ ← name),
      between (punctuator '[') (do let _ ← many (constantWithin depth)) (punctuator ']'),
      between (punctuator '\x7b') (namedConstants (constantWithin depth)) (punctuator '\x7d')]

/-- **A constant.** It is no deeper than the text is long. -/
def constant : Rule Char Unit := fun s => constantWithin (s.length + 1) s

/-- Directives with their arguments, any number. -/
def appliedDirectives : Rule Char Unit := do
  let _ ← many do
    punctuator '@'
    let _ ← name
    let _ ← optional (between (punctuator '(') (namedConstants constant) (punctuator ')'))

/-- A type in lists at most so deep. -/
def typeRefWithin : Nat → Rule Char TypeRef
  | 0 => never
  | depth + 1 => do
    let build ← orElse
      (do
        let item ← between (punctuator '[') (typeRefWithin depth) (punctuator ']')
        return TypeRef.list item)
      (do
        let n ← name
        return TypeRef.named n)
    let mark ← optional (punctuator '!')
    return build mark.isSome

/-- **A type.** It is no deeper than the text is long. -/
def typeRef : Rule Char TypeRef := fun s => typeRefWithin (s.length + 1) s

/-! ### Fields -/

/-- An argument, or a field of an input object. -/
def inputValue : Rule Char InputValue := do
  description
  let n ← name
  punctuator ':'
  let type ← typeRef
  let _ ← optional (do punctuator '='; constant)
  appliedDirectives
  return ⟨n, type⟩

def argumentsDefinition : Rule Char (List InputValue) :=
  between (punctuator '(') (many inputValue) (commit (punctuator ')'))

def fieldDefinition : Rule Char Field := do
  description
  let n ← name
  let arguments ← optional argumentsDefinition
  commit (punctuator ':')
  let type ← commit typeRef
  appliedDirectives
  return ⟨n, type, arguments.getD []⟩

def fieldsDefinition : Rule Char (List Field) :=
  between (punctuator '\x7b') (many fieldDefinition) (commit (punctuator '\x7d'))

def inputFieldsDefinition : Rule Char (List Field) := do
  let values ← between (punctuator '\x7b') (many inputValue) (commit (punctuator '\x7d'))
  return values.map fun v => ⟨v.name, v.type, []⟩

/-- The interfaces of a type, or none. -/
def implementsInterfaces : Rule Char (List Name) := do
  let names ← optional do
    keyword "implements"
    let _ ← optional (punctuator '&')
    separated1 (punctuator '&') name
  return names.getD []

/-! ### Members -/

/-- Words that open a definition. They are no members of a union, for a union without members
may be followed by one. -/
def definitionKeywords : List String :=
  ["schema", "scalar", "type", "interface", "union", "enum", "input", "directive",
    "structUnion", "struct", "extend"]

def memberName : Rule Char Name :=
  refine name fun n => if definitionKeywords.contains n.text then none else some n

/-- Members after an equals sign, or none. -/
def unionMembers : Rule Char (List Name) := do
  let members ← optional do
    punctuator '='
    let _ ← optional (punctuator '|')
    separated (punctuator '|') memberName
  return members.getD []

/-! ### Definitions -/

def schemaDefinition : Rule Char Definition := do
  keyword "schema"
  commit do
    appliedDirectives
    let operations ← between (punctuator '\x7b')
      (many1 do
        let operation ← name
        punctuator ':'
        let type ← name
        return (operation, type))
      (punctuator '\x7d')
    return .schema operations

def scalarDefinition : Rule Char Definition := do
  keyword "scalar"
  commit do
    let n ← name
    appliedDirectives
    return .scalar n

/-- A definition with fields after its keyword. -/
def writtenFields (opening : String) (fields : Rule Char (List Field)) :
    Rule Char WrittenFields := do
  keyword opening
  commit do
    let n ← name
    let interfaces ← implementsInterfaces
    appliedDirectives
    let fields ← optional fields
    return ⟨n, interfaces, fields.getD []⟩

def objectDefinition : Rule Char Definition := do
  let type ← writtenFields "type" fieldsDefinition
  return .object type

def interfaceDefinition : Rule Char Definition := do
  let type ← writtenFields "interface" fieldsDefinition
  return .interface type

def inputObjectDefinition : Rule Char Definition := do
  let type ← writtenFields "input" inputFieldsDefinition
  return .inputObject type

def structDefinition : Rule Char Definition := do
  let type ← writtenFields "struct" fieldsDefinition
  return .struct type

/-- A union after its keyword. -/
def writtenUnion (opening : String) : Rule Char UnionType := do
  keyword opening
  commit do
    let n ← name
    appliedDirectives
    let members ← unionMembers
    return ⟨n, members⟩

def unionDefinition : Rule Char Definition := do
  let type ← writtenUnion "union"
  return .union type

def structUnionDefinition : Rule Char Definition := do
  let type ← writtenUnion "structUnion"
  return .structUnion type

def enumDefinition : Rule Char Definition := do
  keyword "enum"
  commit do
    let n ← name
    appliedDirectives
    let values ← optional (between (punctuator '\x7b')
      (many do
        description
        let value ← name
        appliedDirectives
        return value)
      (punctuator '\x7d'))
    return .enum ⟨n, values.getD []⟩

def directiveLocation : Rule Char DirectiveLocation :=
  refine name fun n => DirectiveLocation.ofText? n.text

def directiveDefinition : Rule Char Definition := do
  keyword "directive"
  commit do
    punctuator '@'
    let n ← name
    let arguments ← optional argumentsDefinition
    let repeatable ← optional (keyword "repeatable")
    keyword "on"
    let _ ← optional (punctuator '|')
    let locations ← separated1 (punctuator '|') directiveLocation
    return .directive ⟨n, arguments.getD [], repeatable.isSome, locations⟩

/-- **A definition**, maybe after a description. -/
def definition : Rule Char Definition := do
  description
  firstOf [schemaDefinition, scalarDefinition, objectDefinition, interfaceDefinition,
    unionDefinition, enumDefinition, inputObjectDefinition, directiveDefinition,
    structUnionDefinition, structDefinition]

end StructQL.SDL
