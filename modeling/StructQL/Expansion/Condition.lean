import StructQL.Config
import StructQL.Query.Document
import StructQL.Schema.Basic

/-!
# Conditions

What is selected may be left out by `@skip` and `@include`.

* `QueryContext`: all that decides what a selection means.
* `QueryContext.condition?`: the value of a condition, if it can be decided.
* `QueryContext.isIncluded`: the directives keep what they stand on.
-/

namespace StructQL

/-- **What a selection is read with.** -/
structure QueryContext where
  schema : Schema
  fragments : Table Query.Fragment
  /-- The values that were given for the variables. -/
  values : List (String × Json)
  /-- The defaults of the variables that are Boolean by default, later ones first. -/
  defaults : List (Name × Bool)
  config : Config

/-- The Boolean defaults of the variables of an operation. Of several definitions of a variable
the last counts. -/
def Query.Operation.booleanDefaults (operation : Query.Operation) : List (Name × Bool) :=
  (operation.variableDefinitions.filterMap fun v =>
    match v.default? with
    | some (.boolean b) => some (v.name, b)
    | _ => none).reverse

namespace QueryContext

variable (ctx : QueryContext)

/-- **The value of a condition**, unless it cannot be decided. -/
def condition? : Query.Value → Option Bool
  | .boolean b => some b
  | .variable name =>
    match ctx.values.lookup name.text with
    | some (.bool b) => some b
    | some _ => none
    | none => ctx.defaults.lookup name
  | _ => none

/-- A directive leaves out what it stands on. -/
def leavesOut (d : Query.Directive) : Bool :=
  let condition := (d.argument? "if").bind ctx.condition?
  d.name.text = "skip" && condition = some true ||
    d.name.text = "include" && condition = some false

/-- **The directives keep what they stand on.** A condition that cannot be decided keeps it. -/
def isIncluded (directives : List Query.Directive) : Bool :=
  ctx.config.conditionPolicy = .mergeAll || directives.all fun d => !ctx.leavesOut d

end QueryContext

end StructQL
