import StructQL.Reading.Rule

/-!
# Decimal digits

* `Digits.value`: the number that digits write.
* `Digits.whole`: the digits of a whole number without needless zeros.
-/

namespace StructQL.Digits

open Rule

/-- The number that decimal digits write. -/
def value (cs : List Char) : Nat := cs.foldl (fun n c => n * 10 + (c.toNat - 48)) 0

/-- The digits of a whole number: a zero alone, or digits that open with another. -/
def whole : Rule Char (List Char) :=
  firstOf [
    (do item '0'; notHere (satisfy Char.isDigit); return ['0']),
    (do notHere (item '0'); takeWhile1 Char.isDigit)]

end StructQL.Digits
