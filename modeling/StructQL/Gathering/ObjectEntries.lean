import StructQL.Gathering.Entry
import StructQL.Gathering.StructSelection

/-!
# Gathering the entries of an object

Fields of objects are grouped by the object type that they are resolved on and by their
response key, so that a field that is selected through an interface merges with the same field
selected through a fragment on one of its implementations.

* `Place`: where a field is resolved.
* `QueryContext.placed`: the places of an occurrence.
* `QueryContext.entriesWithin`: the entries of sites, as deep as a number of levels.
* `QueryContext.entries`: the entries of sites.
-/

namespace StructQL

/-- **Where a field is resolved.** -/
structure Place where
  parent : Name
  key : Name
  fieldName : Name
  deriving DecidableEq

namespace QueryContext

variable (ctx : QueryContext)

/-- The types that a field is resolved on in a scope. A field that does not exist, or that no
type in scope resolves, stays on the type that it is selected on, where it is still checked. -/
def resolvers (scope : Name) (o : Occurrence) : List Name :=
  let types :=
    if (ctx.schema.field? o.parent o.name).isSome then
      (ctx.schema.possibleTypes o.parent).filter fun n =>
        (ctx.schema.possibleTypes scope).contains n
    else []
  if types.isEmpty then [o.parent] else types

/-- The places of an occurrence. -/
def placed (scope : Name) (o : Occurrence) : List (Place × Occurrence) :=
  if o.name = Name.typename then []
  else (ctx.resolvers scope o).map fun parent => (⟨parent, o.responseKey, o.name⟩, o)

/-- Selections of values of the type are selections of objects. -/
def isComposite (name : Name) : Bool :=
  match ctx.schema.kind? name with
  | some .object | some .interface | some .union => true
  | _ => false

section

-- What is gathered of the values of struct fields, and of those of other fields with a path.
variable (gather : Name → List Site → Checked (Option Selection))
  (descend : List Name → Name → List Site → Checked (List Entry))

/-- The entries of a field at its place. -/
def entriesAt (path : List Name) (place : Place) (occurrences : List Occurrence) :
    Checked (List Entry) :=
  let path := path ++ [place.key]
  let sites := occurrences.map Occurrence.site
  match ctx.schema.field? place.parent place.fieldName with
  | none => Checked.fault [] (.unknownField place.parent place.fieldName)
  | some field =>
    if ctx.schema.isStructLike field.type.base then do
      let selection ← gather field.type.base sites
      return (selection.map (Entry.mk path place.parent place.fieldName field.type)).toList
    else if ctx.isComposite field.type.base then descend path field.type.base sites
    else return []

/-- The entries of the fields of a scope. -/
def scopeEntries (path : List Name) (scope : Name) (occurrences : List Occurrence) :
    Checked (List Entry) := do
  let groups := Pairs.group (occurrences.flatMap (ctx.placed scope))
  let found ← Checked.each groups fun (place, group) =>
    ctx.entriesAt gather descend path place group
  return found.flatten

end

/-- **The entries of sites**, as deep as a number of levels. -/
def entriesWithin : Nat → List Name → Name → List Site → Checked (List Entry)
  | 0, _, _, _ => return []
  | levels + 1, path, scope, sites => do
    let occurrences ← ctx.allOccurrences scope sites
    ctx.scopeEntries (ctx.selectionWithin levels) (entriesWithin levels) path scope occurrences

/-- **The entries of sites**, to their full depth. -/
def entries (scope : Name) (sites : List Site) : Checked (List Entry) :=
  ctx.entriesWithin (ctx.levels sites) [] scope sites

end QueryContext

end StructQL
