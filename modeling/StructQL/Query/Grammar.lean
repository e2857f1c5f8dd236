import StructQL.Query.Grammar.TypeSystem

/-!
# Reading query documents

A document holds operations and fragments, in the grammar of GraphQL as of October 2021, with
some freedom: arguments may lack their values, and names of types may be missing here and
there. Definitions of types are read over. Selection sets, lists, objects and list types
nest at most 500 deep together.

* `Query.definition`: an operation, a fragment or a definition of a type.
* `Query.Document.ofSource?`: the document of a source.
-/

namespace StructQL.Query

open Rule

/-- What a definition is read as. -/
inductive Definition where
  | operation (operation : Operation)
  | fragment (fragment : Fragment)
  /-- A definition of a type, or an extension. -/
  | typeSystem

/-- **A definition.** -/
def definition (depth : Nat) : Rule Token Definition :=
  firstOf [
    (do let o ← operation depth; return .operation o),
    (do let f ← fragment depth; return .fragment f),
    (do extension depth; return .typeSystem),
    (do typeSystemDefinition depth; return .typeSystem)]

/-- How deep a document nests at most. -/
def maxDepth : Nat := 500

/-- The document that the definitions make up. -/
def Document.ofDefinitions (l : List Definition) : Document where
  operations := l.filterMap fun
    | .operation o => some o
    | _ => none
  fragments := l.filterMap fun
    | .fragment f => some f
    | _ => none

/-- **The document of a source**, which holds at least one definition. -/
def Document.ofSource? (source : String) : Option Document := do
  let tokens ← Token.ofSource? source
  let definitions ← readAll? (do let l ← many1 (definition maxDepth); commas; return l) tokens
  return ofDefinitions definitions

end StructQL.Query
