import StructQL.Expansion.Condition
import StructQL.Fault.Report
import StructQL.Schema.PossibleTypes

/-!
# Expansion of fragments

A selection is expanded into the fields that it lists itself and through fragments, each with
the type that it is selected on. Fields that conditions leave out stay in the list, so that
they are checked like all others.

* `Site`: a place where something is selected of a value.
* `Occurrence`: a field that is selected on a type.
* `QueryContext.expand`: the occurrences that a list of selections contributes.
* `QueryContext.occurrences`: the occurrences of a site.
-/

namespace StructQL

/-- **A place where something is selected of a value.** It is bare if it has no selections. -/
structure Site where
  selections : List Query.Node
  included : Bool

/-- The site has no selections. -/
def Site.isBare (site : Site) : Bool := site.selections.isEmpty

/-- **A field that is selected on a type.** -/
structure Occurrence where
  /-- The condition of the innermost fragment around the field, or the enclosing scope. -/
  parent : Name
  aliasName : Option Name
  name : Name
  arguments : List Query.Argument
  directives : List Query.Directive
  /-- What is selected of the field's value. It is included if the field is. -/
  site : Site

namespace Occurrence

/-- No condition leaves the field out. -/
def isIncluded (o : Occurrence) : Bool := o.site.included

/-- The key of the field's value in a response. -/
def responseKey (o : Occurrence) : Name := o.aliasName.getD o.name

end Occurrence

namespace QueryContext

variable (ctx : QueryContext)

/-- **The occurrences that selections contribute.** A fragment is entered if it can apply, but
not inside itself: the fragments that are open have left the table of those that are not. -/
def expand (scope : Name) (nodes : List Query.Node) (included : Bool)
    (unopened : Table Query.Fragment) : Checked (List Occurrence) :=
  match nodes with
  | [] => pure []
  | .field aliasName name arguments directives selections :: rest => do
    let site : Site := ⟨selections, included && ctx.isIncluded directives⟩
    let others ← expand scope rest included unopened
    return ⟨scope, aliasName, name, arguments, directives, site⟩ :: others
  | .inline condition directives selections :: rest => do
    let target := condition.getD scope
    let inner ←
      if ctx.schema.canApply scope target then
        expand target selections (included && ctx.isIncluded directives) unopened
      else
        Checked.fault [] (.invalidFragmentTarget target scope)
    let others ← expand scope rest included unopened
    return inner ++ others
  | .spread name directives :: rest => do
    let inner ←
      match ctx.fragments.find? name with
      | none => Checked.fault [] (.unknownFragment name)
      | some fragment =>
        if _h : unopened.contains name then
          if ctx.schema.canApply scope fragment.condition then
            expand fragment.condition fragment.selections (included && ctx.isIncluded directives)
              (unopened.erase name)
          else Checked.fault [] (.invalidFragmentTarget fragment.condition scope)
        else pure []
    let others ← expand scope rest included unopened
    return inner ++ others
termination_by (unopened.size, sizeOf nodes)
decreasing_by
  all_goals first
    | exact .left _ _ (Table.size_erase_lt _h)
    | (apply Prod.Lex.right
       simp only [List.cons.sizeOf_spec, Query.Node.inline.sizeOf_spec]
       omega)

/-- **The occurrences of a site** in a scope. No fragment is open at first. -/
def occurrences (scope : Name) (site : Site) : Checked (List Occurrence) :=
  ctx.expand scope site.selections site.included ctx.fragments

end QueryContext

end StructQL
