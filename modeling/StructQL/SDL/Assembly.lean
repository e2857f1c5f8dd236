import StructQL.SDL.Definition
import StructQL.Fault.Report

/-!
# From definitions to a schema

* `SDL.Assembly`: the schema so far, and what was wrong with its definitions.
* `SDL.assemble`: the schema of a list of definitions.

A name is defined once, except that a built-in scalar may be defined anew. Each repetition is
a fault, and so is an operation that does not exist. Faults of fields come after all others.
-/

namespace StructQL.SDL

/-- The names that stood there before, in order. -/
def repeated (names : List Name) : List Name := go [] names
where
  go (seen : List Name) : List Name → List Name
    | [] => []
    | n :: rest => if n ∈ seen then n :: go seen rest else go (n :: seen) rest

/-- **The schema so far**, and what was wrong with its definitions. -/
structure Assembly where
  schema : Schema := Schema.initial
  /-- The types that the document defines. -/
  defined : List Name := []
  faults : List Fault := []
  fieldFaults : List Fault := []

namespace Assembly

/-- A type that is new to the document. -/
def addType (a : Assembly) (type : TypeDefinition) : Assembly :=
  if type.name ∈ a.defined then
    { a with faults := a.faults ++ [.duplicateTypeDefinition type.name] }
  else
    { a with
      defined := a.defined ++ [type.name]
      schema := { a.schema with types := a.schema.types.put type } }

/-- A type with fields, of which the first of each name counts. -/
def addFields (a : Assembly) (written : WrittenFields) (build : FieldsType → TypeDefinition) :
    Assembly :=
  let again := (repeated (written.fields.map Field.name)).map
    (Fault.duplicateFieldDefinition written.name)
  let type : FieldsType := ⟨written.name, written.implements, Table.ofFirsts written.fields⟩
  { a with fieldFaults := a.fieldFaults ++ again }.addType (build type)

/-- The type of an operation. -/
def setRoot (c : Checked RootTypes) (operation : Name × Name) : Checked RootTypes :=
  let (kind, type) := operation
  if kind.text = "query" then { c with value := { c.value with query := type } }
  else if kind.text = "mutation" then { c with value := { c.value with mutation := some type } }
  else if kind.text = "subscription" then
    { c with value := { c.value with subscription := some type } }
  else
    { c with faults := c.faults ++ [.invalidGraphQL s!"Unknown root operation type \"{kind}\""] }

/-- A directive that is new to the document. -/
def addDirective (a : Assembly) (d : DirectiveDefinition) : Assembly :=
  if a.schema.directives.contains d.name then
    let message := s!"There can be only one directive named \"@{d.name}\""
    { a with faults := a.faults ++ [.invalidGraphQL message] }
  else
    { a with schema := { a.schema with directives := a.schema.directives.addNew d } }

/-- One more definition. Of several schema definitions the last counts. -/
def add (a : Assembly) : Definition → Assembly
  | .schema operations =>
    let roots := operations.foldl setRoot ⟨.standard, []⟩
    { a with
      schema := { a.schema with roots := roots.value }
      faults := a.faults ++ roots.faults }
  | .scalar name => a.addType (.scalar name)
  | .object type => a.addFields type .object
  | .interface type => a.addFields type .interface
  | .inputObject type => a.addFields type .inputObject
  | .struct type => a.addFields type fun t => .struct ⟨t.name, t.fields⟩
  | .union type => a.addType (.union type)
  | .structUnion type => a.addType (.structUnion type)
  | .enum type => a.addType (.enum ⟨type.name, distinctNames type.values⟩)
  | .directive d => a.addDirective d

end Assembly

/-- **The schema of a list of definitions.** -/
def assemble (definitions : List Definition) : Except Failure Schema :=
  let a := definitions.foldl Assembly.add {}
  (Checked.mk a.schema (a.faults ++ a.fieldFaults)).result

end StructQL.SDL
