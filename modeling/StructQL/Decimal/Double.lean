/-!
# Doubles

A finite double is a sign and a natural number of at most 53 bits times a power of two
from `2 ^ -1074` to `2 ^ 971`. Everything here is exact arithmetic on natural numbers.

* `roundQuotient`: a quotient rounded to the nearest natural number, a tie to the even one.
* `Double`: the doubles.
* `Double.ofDecimal?`: the double nearest to a decimal, unless the decimal is out of range.
-/

namespace StructQL

/-- A quotient rounded to the nearest natural number, a tie to the even one. -/
def roundQuotient (num den : Nat) : Nat :=
  let q := num / den
  let r := num % den
  if 2 * r < den then q
  else if den < 2 * r then q + 1
  else if q % 2 = 0 then q
  else q + 1

/-- **A finite double**: `significand * 2 ^ exponent` and a sign, which zero has too. -/
structure Double where
  negative : Bool
  significand : Nat
  exponent : Int
  deriving DecidableEq

namespace Double

/-- A significand has less than this value. -/
def significandLimit : Nat := Nat.pow 2 53

/-- The least exponent. -/
def minExponent : Int := -1074

/-- The greatest exponent. -/
def maxExponent : Int := 971

/-- Zero, of either sign. -/
def zero (negative : Bool) : Double := ⟨negative, 0, minExponent⟩

/-- `num / den` divided by `2 ^ e`, as a quotient of natural numbers. -/
def scale (num den : Nat) (e : Int) : Nat × Nat :=
  if 0 ≤ e then (num, den * Nat.pow 2 e.toNat) else (num * Nat.pow 2 (-e).toNat, den)

/-- The greatest `e` with `2 ^ e ≤ num / den`, for a positive quotient. -/
def floorLog2 (num den : Nat) : Int :=
  let e : Int := (num.log2 : Int) - den.log2
  let (n, d) := scale num den e
  if d ≤ n then e else e - 1

/-- The double nearest to `num / den`, a tie going to the even significand, unless it is
greater than all doubles. -/
def ofQuotient? (negative : Bool) (num den : Nat) : Option Double :=
  if num = 0 then some (zero negative)
  else
    let e := max minExponent (floorLog2 num den - 52)
    let (n, d) := scale num den e
    let m := roundQuotient n d
    let (m, e) := if m = significandLimit then (significandLimit / 2, e + 1) else (m, e)
    if maxExponent < e then none else some ⟨negative, m, e⟩

/-- **The double nearest to `digits * 10 ^ exponent`**, unless it is out of range. The powers
of ten that are far out of range on either side are not computed. -/
def ofDecimal? (negative : Bool) (digits : Nat) (exponent : Int) : Option Double :=
  let magnitude : Int := exponent + (Nat.toDigits 10 digits).length
  if digits = 0 ∨ magnitude < -330 then some (zero negative)
  else if 310 < magnitude then none
  else if 0 ≤ exponent then ofQuotient? negative (digits * Nat.pow 10 exponent.toNat) 1
  else ofQuotient? negative digits (Nat.pow 10 (-exponent).toNat)

end Double

end StructQL
