import StructQL.Gathering.Restrictions
import StructQL.Pairs
import StructQL.Selection.Basic

/-!
# Gathering the selection of a struct

What all sites of one value select of it together.

* `QueryContext.fieldSelection`: what the occurrences of a field select of its value.
* `QueryContext.fieldSet`: what occurrences select of a struct.
* `QueryContext.scopeSelection`: what they select of a struct or of a struct union, whose
  members each get the occurrences that concern them.
* `QueryContext.levels`: as many levels as sites can lead through.
* `QueryContext.selectionWithin`: what sites select, as deep as a number of levels.
* `QueryContext.selection`: what sites select.
-/

namespace StructQL

namespace QueryContext

variable (ctx : QueryContext)

/-- The number of fields that are written in the sites and in fragments. -/
def fieldCount (sites : List Site) : Nat :=
  ctx.fragments.toList.foldr (fun f n => Query.fieldCountOf f.selections + n)
    (sites.foldr (fun site n => Query.fieldCountOf site.selections + n) 0)

/-- As many levels as sites can lead through. Each level below the first is entered by a field
whose values have some type, and a field that comes back with the same type below itself comes
back forever. So where the levels end at all, each field enters one per type at most. -/
def levels (sites : List Site) : Nat := ctx.schema.types.size * ctx.fieldCount sites + 1

/-- The occurrences of all sites in a scope. -/
def allOccurrences (scope : Name) (sites : List Site) : Checked (List Occurrence) := do
  return (← Checked.each sites (ctx.occurrences scope)).flatten

section

-- What is gathered of the values of the fields.
variable (gather : Name → List Site → Checked (Option Selection))

/-- A leaf is selected as a whole if one of its occurrences is included. -/
def leafSelection (type : Name) (occurrences : List Occurrence) : Checked (Option Selection) :=
  ⟨if occurrences.any Occurrence.isIncluded then some .whole else none,
    leafFaults type occurrences⟩

/-- The occurrences whose field exists. -/
def existing (occurrences : List Occurrence) : Checked (List Occurrence) :=
  ⟨occurrences.filter fun o => !(ctx.missingFault? o).isSome,
    occurrences.filterMap ctx.missingFault?⟩

/-- **What the occurrences of a field select of its value.** There is nothing if none is
included. -/
def fieldSelection (typeName fieldName : Name) (occurrences : List Occurrence) :
    Checked (Option Selection) :=
  if fieldName = Name.typename then leafSelection Name.string occurrences
  else do
    let found ← ctx.existing occurrences
    match found, ctx.schema.field? typeName fieldName with
    | [], _ => return none
    | _, none => return none
    | _, some field =>
      if ctx.schema.isStructLike field.type.base then
        gather field.type.base (found.map Occurrence.site)
      else leafSelection field.type.base found

/-- **What occurrences select of a struct.** -/
def fieldSet (typeName : Name) (occurrences : List Occurrence) :
    Checked (FieldSet Selection) := do
  Checked.faulty (occurrences.flatMap ctx.formFaults)
  let groups := Pairs.group (occurrences.map fun o => (o.name, o))
  let fields ← Checked.each groups fun (name, group) => do
    let selection ← ctx.fieldSelection gather typeName name group
    return selection.map fun s => (name, s)
  return ⟨typeName, fields.filterMap id⟩

/-- The occurrence concerns a member of a struct union. -/
def concerns (member : Name) (o : Occurrence) : Bool :=
  (ctx.schema.possibleTypes o.parent).contains member

/-- **What occurrences select of a struct or of a struct union.** -/
def scopeSelection (scope : Name) (occurrences : List Occurrence) : Checked Selection :=
  match ctx.schema.structUnion? scope with
  | none => return .struct (← ctx.fieldSet gather scope occurrences)
  | some union => do
    let members ← Checked.each (distinctNames union.members) fun member => do
      return (member, ← ctx.fieldSet gather member (occurrences.filter (ctx.concerns member)))
    return .union scope members

end

/-- **What sites select**, as deep as a number of levels. An included bare site selects the
value as a whole, and there is nothing if no site is included. -/
def selectionWithin : Nat → Name → List Site → Checked (Option Selection)
  | 0, _, _ => return none
  | levels + 1, scope, sites => do
    let occurrences ← ctx.allOccurrences scope sites
    let narrowed ← ctx.scopeSelection (selectionWithin levels) scope occurrences
    if !sites.any Site.included then return none
    else if sites.any fun site => site.isBare && site.included then return some .whole
    else return some narrowed

/-- **What sites select of a value**, to its full depth. -/
def selection (scope : Name) (sites : List Site) : Checked (Option Selection) :=
  ctx.selectionWithin (ctx.levels sites) scope sites

end QueryContext

end StructQL
