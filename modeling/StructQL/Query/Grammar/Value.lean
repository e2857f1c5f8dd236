import StructQL.Query.Document
import StructQL.Query.Token

/-!
# Reading types, values and directives

Every rule can be told by its first token, so a rule that has begun is never given up for
another. Commas may stand in front of every token.

* `Query.commas`, `Query.noComma`: the commas between tokens.
* `Query.typeRef`, `Query.value`: the rules that nest, each as deep as a number says.
* `Query.arguments`, `Query.directives`: what names are given.
-/

namespace StructQL.Query

open Rule

/-! ### Tokens -/

/-- The commas in front of a token. -/
def commas : Rule Token Unit := do let _ ← many (item (.punctuator ','))

/-- No comma stands here. -/
def noComma : Rule Token Unit := notHere (item (.punctuator ','))

/-- A token, as what it is taken for. -/
def tokenAs {α : Type} (f : Token → Option α) : Rule Token α := do
  commas
  refine (satisfy fun _ => true) f

def anyName : Rule Token Name :=
  tokenAs fun
    | .name n => some n
    | _ => none

/-- A given word. -/
def word (text : String) : Rule Token Unit := do
  let _ ← refine anyName fun n => if n.text = text then some n else none

/-- A name other than the given words. -/
def nameExcept (words : List String) : Rule Token Name :=
  refine anyName fun n => if words.contains n.text then none else some n

def punctuator (c : Char) : Rule Token Unit := do
  commas
  item (.punctuator c)

def stringToken : Rule Token Unit :=
  tokenAs fun
    | .string _ => some ()
    | _ => none

/-- A rule between an opening and a closing. -/
def enclosed {α : Type} (opening : Char) (p : Rule Token α) (closing : Char) : Rule Token α := do
  punctuator opening
  commit do
    let a ← p
    punctuator closing
    return a

/-! ### Types -/

/-- A type, with a rule for the items of a list. -/
def typeOf (p : Rule Token TypeRef) : Rule Token TypeRef := do
  let build ← firstOf [
    (do
      let inner ← enclosed '[' p ']'
      return TypeRef.list inner),
    (do
      let n ← anyName
      return TypeRef.named n)]
  let mark ← optional (punctuator '!')
  return build mark.isSome

/-- **A type** in lists at most so deep. -/
def typeRef : Nat → Rule Token TypeRef
  | 0 => typeOf never
  | depth + 1 => typeOf (typeRef depth)

/-! ### Values -/

/-- A value that holds no other. -/
def scalar (constant : Bool) : Rule Token Value :=
  firstOf [
    (do
      punctuator '$'
      commit do
        let n ← anyName
        if constant then never else return .variable n),
    tokenAs fun
      | .int source => some (.int source)
      | .float source => some (.float source)
      | .string source => some (.string source)
      | .name n =>
        if n.text = "true" then some (.boolean true)
        else if n.text = "false" then some (.boolean false)
        else if n.text = "null" then some .null
        else some (.enum n)
      | _ => none]

/-- A name and the value after its colon. One without a colon has no value. -/
def named (p : Rule Token Value) : Rule Token (Name × Option Value) := do
  let n ← anyName
  let v ← optional (do punctuator ':'; commit p)
  return (n, v)

/-- A value, with a rule for the values that it holds. The fields of an object that have no value
are left out. -/
def valueOf (constant : Bool) (p : Rule Token Value) : Rule Token Value :=
  firstOf [
    (do
      let items ← enclosed '[' (many p) ']'
      return .list items),
    (do
      let fields ← enclosed '\x7b' (many (named p)) '\x7d'
      return .object (fields.filterMap fun (n, v) => v.map fun v => (n, v))),
    scalar constant]

/-- **A value** in lists and objects at most so deep. A constant holds no variables. -/
def value (constant : Bool) : Nat → Rule Token Value
  | 0 => valueOf constant never
  | depth + 1 => valueOf constant (value constant depth)

/-! ### Arguments and directives -/

/-- Arguments in parentheses, or none. Those that have no value are left out. -/
def arguments (constant : Bool) (depth : Nat) : Rule Token (List Argument) := do
  let all ← optional (enclosed '(' (many1 (named (value constant depth))) ')')
  return (all.getD []).filterMap fun (n, v) => v.map fun v => ⟨n, v⟩

/-- Directives, any number. -/
def directives (constant : Bool) (depth : Nat) : Rule Token (List Directive) :=
  many do
    punctuator '@'
    commit do
      let n ← anyName
      let l ← arguments constant depth
      return ⟨n, l⟩

end StructQL.Query
