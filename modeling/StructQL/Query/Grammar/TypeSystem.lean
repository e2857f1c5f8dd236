import StructQL.Query.Grammar.Selection
import StructQL.Schema.Basic

/-!
# Reading over definitions of types

Definitions of types may stand between operations. They are read and left out, so a rule here
has no value, or only says whether something was there.

* `Query.typeSystemDefinition`: a schema, a type or a directive.
* `Query.extension`: something that is added to one.
-/

namespace StructQL.Query

open Rule

/-! ### Parts of definitions -/

/-- A part that may be missing; whether it is there. -/
def part {α : Type} (p : Rule Token α) : Rule Token Bool := do
  let found ← optional p
  return found.isSome

/-- Names of types with a separator between, and maybe one in front. Each may be missing. -/
def typeNames (separator : Char) : Rule Token Unit := do
  let _ ← optional (punctuator separator)
  let _ ← optional anyName
  let _ ← many (do punctuator separator; optional anyName)

def description : Rule Token Unit := do let _ ← optional stringToken

/-- Constant directives; whether there are any. -/
def constantDirectives (depth : Nat) : Rule Token Bool := do
  let l ← directives true depth
  return !l.isEmpty

/-- The type of a field or of an input value, after a colon. -/
def typeAfterColon (depth : Nat) : Rule Token Unit := do
  punctuator ':'
  let _ ← typeRef depth

def inputValueDefinition (depth : Nat) : Rule Token Unit := do
  description
  let _ ← anyName
  commit do
    typeAfterColon depth
    let _ ← optional (do punctuator '='; commit (value true depth))
    let _ ← constantDirectives depth

/-- The arguments of a field or of a directive, if it has some. -/
def argumentDefinitions (depth : Nat) : Rule Token Unit := do
  let _ ← optional (enclosed '(' (many1 (inputValueDefinition depth)) ')')

def fieldDefinition (depth : Nat) : Rule Token Unit := do
  description
  let _ ← anyName
  commit do
    argumentDefinitions depth
    typeAfterColon depth
    let _ ← constantDirectives depth

def enumValueDefinition (depth : Nat) : Rule Token Unit := do
  description
  let _ ← nameExcept ["true", "false", "null"]
  let _ ← constantDirectives depth

/-- The type that operations of a kind start from. It may be missing after the colon. -/
def rootOperation : Rule Token Unit := do
  let _ ← operationType
  commit do
    punctuator ':'
    let _ ← optional anyName

/-- The place of a directive, other than a field selected on a struct. -/
def directiveLocation : Rule Token Unit := do
  let _ ← refine anyName fun n =>
    (DirectiveLocation.ofText? n.text).filter fun l => l ≠ .structField

/-! ### Types -/

/-- The keywords of types. -/
def typeKeywords : List (String × TypeKind) :=
  [("scalar", .scalar), ("type", .object), ("interface", .interface), ("union", .union),
    ("enum", .enum), ("input", .inputObject)]

def typeKeyword : Rule Token TypeKind := refine anyName fun n => typeKeywords.lookup n.text

/-- The interfaces that a type of some kind implements. -/
def interfacesOf : TypeKind → Rule Token Unit
  | .object | .interface => do
    word "implements"
    typeNames '&'
  | _ => never

/-- The fields, the members or the values of a type of some kind. -/
def bodyOf (depth : Nat) : TypeKind → Rule Token Unit
  | .object | .interface => do
    let _ ← enclosed '\x7b' (many (fieldDefinition depth)) '\x7d'
  | .union => do
    punctuator '='
    typeNames '|'
  | .enum => do
    let _ ← enclosed '\x7b' (many1 (enumValueDefinition depth)) '\x7d'
  | .inputObject => do
    let _ ← enclosed '\x7b' (many1 (inputValueDefinition depth)) '\x7d'
  | _ => never

/-- A type after its keyword. The name of an object type is followed by no name but the keyword
of its interfaces. -/
def typeDefinition (depth : Nat) (kind : TypeKind) : Rule Token Unit := do
  let _ ← anyName
  let implementing ← part (interfacesOf kind)
  if kind = .object && !implementing then notHere anyName
  let _ ← constantDirectives depth
  let _ ← part (bodyOf depth kind)

/-- An extension of a type after its keyword. It adds something. -/
def typeExtension (depth : Nat) (kind : TypeKind) : Rule Token Unit := do
  let _ ← anyName
  let implementing ← part (interfacesOf kind)
  let applied ← constantDirectives depth
  let body ← part (bodyOf depth kind)
  if implementing || applied || body then return () else never

/-! ### Definitions and extensions -/

/-- A schema after its keyword. -/
def schemaDefinition (depth : Nat) : Rule Token Unit := do
  let _ ← constantDirectives depth
  let _ ← optional (enclosed '\x7b' (many1 rootOperation) '\x7d')

/-- An extension of the schema after its keyword. It adds something, but may do so beside empty
braces. -/
def schemaExtension (depth : Nat) : Rule Token Unit := do
  let applied ← constantDirectives depth
  let roots ← optional (enclosed '\x7b' (many rootOperation) '\x7d')
  if applied || !(roots.getD []).isEmpty then return () else never

/-- A directive after its keyword. -/
def directiveDefinition (depth : Nat) : Rule Token Unit := do
  punctuator '@'
  let _ ← anyName
  argumentDefinitions depth
  let _ ← optional (word "repeatable")
  word "on"
  let _ ← optional (punctuator '|')
  let _ ← separated1 (punctuator '|') (commit directiveLocation)

/-- **A schema, a type or a directive**, maybe after a description, which no comma follows. -/
def typeSystemDefinition (depth : Nat) : Rule Token Unit := do
  let _ ← optional (do stringToken; noComma)
  firstOf [
    (do word "schema"; commit (schemaDefinition depth)),
    (do let kind ← typeKeyword; commit (typeDefinition depth kind)),
    (do word "directive"; commit (directiveDefinition depth))]

/-- **An extension.** No comma follows its keyword. -/
def extension (depth : Nat) : Rule Token Unit := do
  word "extend"
  commit do
    noComma
    firstOf [
      (do word "schema"; schemaExtension depth),
      (do let kind ← typeKeyword; typeExtension depth kind)]

end StructQL.Query
