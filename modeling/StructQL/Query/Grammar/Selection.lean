import StructQL.Query.Grammar.Value

/-!
# Reading selections, operations and fragments

* `Query.selectionSet`: a selection set, which nests as deep as a number says.
* `Query.operation`, `Query.fragment`: the definitions that hold one.
-/

namespace StructQL.Query

open Rule

/-! ### Selections -/

/-- A fragment, spread by its name or written in place. No comma follows the three points. -/
def fragmentNode (depth : Nat) (selections : Rule Token (List Node)) : Rule Token Node := do
  commas
  item .spread
  commit do
    noComma
    firstOf [
      (do
        word "on"
        let condition ← commit anyName
        let l ← directives false depth
        let nodes ← commit selections
        return .inline (some condition) l nodes),
      (do
        let n ← anyName
        let l ← directives false depth
        return .spread n l),
      (do
        let l ← directives false depth
        let nodes ← selections
        return .inline none l nodes)]

/-- A field. No comma stands between an alias and its colon. -/
def fieldNode (depth : Nat) (selections : Rule Token (List Node)) : Rule Token Node := do
  let first ← anyName
  let second ← optional (do noComma; punctuator ':'; commit anyName)
  let l ← arguments false depth
  let ds ← directives false depth
  let nodes ← optional selections
  return .field (second.map fun _ => first) (second.getD first) l ds (nodes.getD [])

/-- **A selection set** that nests at most so deep. It is not empty. -/
def selectionSet : Nat → Rule Token (List Node)
  | 0 => enclosed '\x7b' never '\x7d'
  | depth + 1 =>
    let selections := selectionSet depth
    enclosed '\x7b'
      (many1 (firstOf [fragmentNode depth selections, fieldNode depth selections])) '\x7d'

/-! ### Operations and fragments -/

def operationType : Rule Token OperationType :=
  refine anyName fun n =>
    [OperationType.query, .mutation, .subscription].find? fun t => t.text = n.text

def variableDefinition (depth : Nat) : Rule Token VariableDefinition := do
  punctuator '$'
  commit do
    let n ← anyName
    punctuator ':'
    let type ← typeRef depth
    let fallback ← optional (do punctuator '='; commit (value true depth))
    let l ← directives true depth
    return ⟨n, type, fallback, l⟩

/-- **An operation.** A selection set alone is a query. -/
def operation (depth : Nat) : Rule Token Operation :=
  firstOf [
    (do
      let nodes ← selectionSet depth
      return ⟨.query, none, [], [], nodes⟩),
    (do
      let type ← operationType
      commit do
        let n ← optional anyName
        let definitions ← optional (enclosed '(' (many1 (variableDefinition depth)) ')')
        let l ← directives false depth
        let nodes ← selectionSet depth
        return ⟨type, n, definitions.getD [], l, nodes⟩)]

/-- What opens a fragment. A string in front takes the place of the keyword, which is the name
of the fragment then. -/
def fragmentOpening : Rule Token Unit :=
  firstOf [
    word "fragment",
    (do stringToken; noComma; ahead (word "fragment"))]

/-- **A fragment.** -/
def fragment (depth : Nat) : Rule Token Fragment := do
  fragmentOpening
  commit do
    let n ← nameExcept ["on"]
    word "on"
    let condition ← anyName
    let l ← directives false depth
    let nodes ← selectionSet depth
    return ⟨n, condition, l, nodes⟩

end StructQL.Query
