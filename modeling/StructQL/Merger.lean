import StructQL.Expansion.FragmentCycle
import StructQL.Gathering.ObjectEntries
import StructQL.Query.Grammar
import StructQL.Schema.Valid

/-!
# Merging the selections of a document

* `Merger`: a document with the schema, the variables and the settings to read it with.
* `Merger.mergeOperations`: the operations of the document with their entries.
* `Merger.mergeScope`: what some selections of one struct select together.
* `mergeSource`: the operations of a source text.
-/

namespace StructQL

/-- **A document, with all that it is read with.** -/
structure Merger where
  schema : ValidSchema
  document : Query.Document
  /-- The values that were given for the variables. -/
  values : List (String × Json) := []
  config : Config := {}

/-- The type that operations of a kind start from. -/
def RootTypes.root? (roots : RootTypes) : Query.OperationType → Option Name
  | .query => some roots.query
  | .mutation => roots.mutation
  | .subscription => roots.subscription

namespace Merger

variable (m : Merger)

/-- What selections are read with, given the defaults of some variables. -/
def context (defaults : List (Name × Bool)) : QueryContext where
  schema := m.schema.schema
  fragments := m.document.fragmentTable
  values := m.values
  defaults := defaults
  config := m.config

/-- An operation with its entries. There is none if the schema has no type to start from. -/
def mergeOperation (operation : Query.Operation) : Checked (Option MergedOperation) :=
  match m.schema.schema.roots.root? operation.type with
  | none =>
    Checked.fault none
      (.invalidGraphQL s!"The schema does not define a {operation.type.text} root type")
  | some root => do
    let entries ←
      (m.context operation.booleanDefaults).entries root [⟨operation.selections, true⟩]
    return some ⟨operation.type, operation.name, entries⟩

/-- The operations of the document with their entries, and all that is wrong with it. -/
def checkedOperations : Checked (List MergedOperation) := do
  Checked.faulty (fragmentCycleFaults m.document.fragmentTable)
  let operations ← Checked.each m.document.operations m.mergeOperation
  return operations.filterMap id

/-- **The operations of the document with their entries**, or all that is wrong with it. -/
def mergeOperations : Except Failure (List MergedOperation) := m.checkedOperations.result

/-- **What several selections of a struct select together**, or all that is wrong with them. A
list without selections selects the value as a whole. -/
def mergeScope (scope : Name) (selections : List (List Query.Node)) :
    Except Failure Selection :=
  if m.schema.schema.isStructLike scope then
    match ((m.context []).selection scope (selections.map (Site.mk · true))).result with
    | .error failure => .error failure
    | .ok (some selection) => .ok selection
    | .ok none => .error (.single (.internal s!"No occurrence of a \"{scope}\" field to merge"))
  else .error (.single (.invalidGraphQL s!"\"{scope}\" is not a struct or struct union"))

end Merger

/-- **The operations of a source text with their entries.** -/
def mergeSource (schema : ValidSchema) (source : String) (values : List (String × Json))
    (config : Config) : Except Failure (List MergedOperation) :=
  match Query.Document.ofSource? source with
  | none => .error (.single (.invalidGraphQL "The query cannot be read"))
  | some document => Merger.mergeOperations ⟨schema, document, values, config⟩

end StructQL
