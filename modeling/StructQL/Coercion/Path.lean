import StructQL.Name

/-!
# Places in an input value

* `InputPath`: the way from the root of an input to one of its values.
* `InputPath.text`: the way written as `input.content[1].text`.
-/

namespace StructQL

/-- A step into a struct or into a list. -/
inductive InputStep where
  | field (name : Name)
  | index (i : Nat)
  deriving DecidableEq

def InputStep.text : InputStep → String
  | field name => "." ++ name.text
  | index i => "[" ++ toString i ++ "]"

/-- **The way to a value**, from a root that has a name. -/
structure InputPath where
  root : String
  steps : List InputStep
  deriving DecidableEq

namespace InputPath

/-- One more step. -/
def step (p : InputPath) (s : InputStep) : InputPath := { p with steps := p.steps ++ [s] }

/-- **The way written out.** -/
def text (p : InputPath) : String := p.root ++ String.join (p.steps.map InputStep.text)

end InputPath

end StructQL
