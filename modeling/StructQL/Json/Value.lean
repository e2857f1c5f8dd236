import StructQL.Decimal.Double
import StructQL.Pairs

/-!
# JSON values

* `Number`: the numbers, whole ones apart from doubles.
* `Json`: the values. An object keeps its keys in order.
* `Json.asString?`: the text of a string.
-/

namespace StructQL

/-- **A number**: a whole number that fits 64 bits, with or without a sign, or a double. -/
inductive Number where
  | whole (value : Int)
  | double (value : Double)
  deriving DecidableEq

namespace Number

/-- Whole numbers of 64 bits with a sign are less than this, and not less than its negative. -/
def signedLimit : Nat := Nat.pow 2 63

/-- Whole numbers of 64 bits without a sign are less than this. -/
def unsignedLimit : Nat := Nat.pow 2 64

/-- The whole number, when it fits 64 bits with a sign. -/
def toInt64? : Number → Option Int
  | whole n => if n < signedLimit then some n else none
  | double _ => none

/-- The number is no double. -/
def isWhole : Number → Bool
  | whole _ => true
  | double _ => false

end Number

/-- **A JSON value.** -/
inductive Json where
  | null
  | bool (value : Bool)
  | number (value : Number)
  | string (value : String)
  | array (items : List Json)
  | object (entries : List (String × Json))

namespace Json

instance : Inhabited Json := ⟨null⟩

/-- The text of a string value. -/
def asString? : Json → Option String
  | string s => some s
  | _ => none

end Json

end StructQL
