import StructQL.Query.Document
import StructQL.Selection.Text

/-!
# Entries of an operation

* `Entry`: a field of a struct type that an operation reaches, with what is selected of it.
* `MergedOperation`: an operation with its entries.
* `MergedOperation.entriesAt`, `MergedOperation.entryAt?`: the entries at a path, and the only
  one.
-/

namespace StructQL

/-- **A field of a struct type that an operation reaches.** -/
structure Entry where
  /-- The response keys that lead from the operation to the field. -/
  path : List Name
  /-- The object type that the field is resolved on. -/
  parent : Name
  fieldName : Name
  fieldType : TypeRef
  selection : Selection

namespace Entry

/-- The path, and what is selected unless it is the value as a whole. -/
def textWith (layout : Selection → String) (e : Entry) : String :=
  let path := Text.join "." (e.path.map Name.text)
  if e.selection.isWhole then path else path ++ " " ++ layout e.selection

/-- **The text on one line.** -/
def text : Entry → String := textWith Selection.text

/-- **The text over several lines.** -/
def indented : Entry → String := textWith Selection.indented

end Entry

/-- **An operation with its entries**, in the order of the query. -/
structure MergedOperation where
  type : Query.OperationType
  name : Option Name
  entries : List Entry

namespace MergedOperation

/-- The entries at a path, one for each object type that the field is resolved on. -/
def entriesAt (operation : MergedOperation) (path : List String) : List Entry :=
  operation.entries.filter fun e => e.path.map Name.text = path

/-- The entry at a path, if there is just one. -/
def entryAt? (operation : MergedOperation) (path : List String) : Option Entry :=
  match operation.entriesAt path with
  | [e] => some e
  | _ => none

/-- **The text**: the operation, and each of its entries on a line of its own. -/
def text (operation : MergedOperation) : String :=
  let heading :=
    match operation.name with
    | some name => s!"{operation.type.text} {name}\n"
    | none => s!"{operation.type.text}\n"
  heading ++ String.join (operation.entries.map fun e => "  " ++ e.text ++ "\n")

end MergedOperation

end StructQL
