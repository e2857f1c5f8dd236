import StructQL.Schema.TypeRef
import StructQL.Table

/-!
# Query documents

* `Query.Value`: values as they are written in a query.
* `Query.Node`: what a selection set lists: fields, inline fragments and fragment spreads.
* `Query.Operation`, `Query.Fragment`, `Query.Document`: a document and its definitions.
* `Query.Document.fragmentTable`: the fragments by name.
-/

namespace StructQL.Query

/-- **A value** as it is written. Numbers and strings keep their source text. -/
inductive Value where
  | variable (name : Name)
  | int (source : String)
  | float (source : String)
  | string (source : String)
  | boolean (value : Bool)
  | null
  | enum (name : Name)
  | list (items : List Value)
  | object (fields : List (Name × Value))

structure Argument where
  name : Name
  value : Value

/-- A directive as it is applied. -/
structure Directive where
  name : Name
  arguments : List Argument

/-- The value of the first argument of a name. -/
def Directive.argument? (d : Directive) (name : String) : Option Value :=
  (d.arguments.find? fun a => a.name.text = name).map Argument.value

/-- **What a selection set lists.** A field without a selection set has no selections. -/
inductive Node where
  | field (aliasName : Option Name) (name : Name) (arguments : List Argument)
      (directives : List Directive) (selections : List Node)
  | inline (condition : Option Name) (directives : List Directive) (selections : List Node)
  | spread (name : Name) (directives : List Directive)

/-- What an operation does. -/
inductive OperationType where
  | query
  | mutation
  | subscription
  deriving DecidableEq

def OperationType.text : OperationType → String
  | query => "query"
  | mutation => "mutation"
  | subscription => "subscription"

/-- A variable of an operation. -/
structure VariableDefinition where
  name : Name
  type : TypeRef
  default? : Option Value
  directives : List Directive

structure Operation where
  type : OperationType
  name : Option Name
  variableDefinitions : List VariableDefinition
  directives : List Directive
  selections : List Node

structure Fragment where
  name : Name
  condition : Name
  directives : List Directive
  selections : List Node

instance : Named Fragment := ⟨Fragment.name⟩

/-- **A document**: its operations and its fragments, each in order. -/
structure Document where
  operations : List Operation
  fragments : List Fragment

/-- The fragments by name. Of several with one name the first counts. -/
def Document.fragmentTable (d : Document) : Table Fragment := Table.ofFirsts d.fragments

mutual

/-- The number of fields that are written in a selection. -/
def Node.fieldCount : Node → Nat
  | .field _ _ _ _ selections => fieldCountOf selections + 1
  | .inline _ _ selections => fieldCountOf selections
  | .spread _ _ => 0

/-- The number of fields that are written in a list of selections. -/
def fieldCountOf : List Node → Nat
  | [] => 0
  | node :: rest => node.fieldCount + fieldCountOf rest

end

end StructQL.Query
