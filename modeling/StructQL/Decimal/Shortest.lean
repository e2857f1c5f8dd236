import StructQL.Decimal.Double

/-!
# The shortest decimal of a double

The reals that round to a double form an interval, whose ends belong to it when the
significand is even. Among the decimals of the interval, those with the fewest digits are
looked for, and of these the nearest to the double; a tie goes to the even last digit.

* `Decimal`: digits and a power of ten.
* `Double.shortest`: the decimal of a positive double.
* `Layout`, `Double.text`: how a double is written with these digits.
-/

namespace StructQL

/-- `digits * 10 ^ exponent`. -/
structure Decimal where
  digits : Nat
  exponent : Int
  deriving DecidableEq

/-- The same number without zeros at the end of its digits. -/
def Decimal.trim (digits : Nat) (exponent : Int) : Decimal :=
  if h : digits ≠ 0 ∧ digits % 10 = 0 then Decimal.trim (digits / 10) (exponent + 1)
  else ⟨digits, exponent⟩
termination_by digits
decreasing_by omega

namespace Double

/-- The interval of the reals that round to a double, in quarters of its last place: the
lower end, the double itself and the upper end. Below a power of two the doubles lie twice as
close. -/
def quarters (d : Double) : Nat × Nat × Nat :=
  let low :=
    if d.significand = significandLimit / 2 ∧ minExponent < d.exponent then 1 else 2
  (4 * d.significand - low, 4 * d.significand, 4 * d.significand + 2)

/-- The greatest `p` with `10 ^ p ≤ num / den`, for a positive quotient of the size of a
double. The logarithm of two gives it up to one. -/
def floorLog10 (num den : Nat) : Int :=
  let p : Int := floorLog2 num den * 30103 / 100000 - 1
  let reaches (p : Int) : Bool :=
    if 0 ≤ p then decide (den * Nat.pow 10 p.toNat ≤ num)
    else decide (den ≤ num * Nat.pow 10 (-p).toNat)
  if reaches (p + 2) then p + 2 else if reaches (p + 1) then p + 1 else p

/-- The nearest of the decimals with `count` digits that round to the double, if there is
one. It is a neighbour of the double on the grid of these decimals. -/
def nearestOfLength? (d : Double) (count : Nat) : Option Decimal :=
  let (low, mid, high) := d.quarters
  let e := d.exponent - 2
  let num := if 0 ≤ e then Nat.pow 2 e.toNat else 1
  let den := if 0 ≤ e then 1 else Nat.pow 2 (-e).toNat
  let k := floorLog10 (mid * num) den - (count : Int) + 1
  -- both sides are multiplied by what makes them natural numbers
  let unit := if 0 ≤ k then Nat.pow 10 k.toNat * den else den
  let weight := if 0 ≤ k then num else num * Nat.pow 10 (-k).toNat
  let below := mid * weight / unit
  let even := d.significand % 2 == 0
  let inside (c : Nat) : Bool :=
    (low * weight < c * unit || (even && low * weight == c * unit)) &&
      (c * unit < high * weight || (even && c * unit == high * weight))
  let down := mid * weight - below * unit
  let up := (below + 1) * unit - mid * weight
  match inside below, inside (below + 1) with
  | true, true =>
    if down < up ∨ (down = up ∧ below % 2 = 0) then some (Decimal.trim below k)
    else some (Decimal.trim (below + 1) k)
  | true, false => some (Decimal.trim below k)
  | false, true => some (Decimal.trim (below + 1) k)
  | false, false => none

/-- **The shortest decimal that rounds to the double**, and of those the nearest. Seventeen
digits always do. -/
def shortest (d : Double) : Decimal :=
  ((List.range 17).findSome? fun n => nearestOfLength? d (n + 1)).getD ⟨0, 0⟩

end Double

/-- How a double is written. -/
structure Layout where
  /-- The least decimal exponent without an `e`. -/
  positionalFrom : Int
  /-- The greatest decimal exponent without an `e`. -/
  positionalTo : Int
  /-- What follows the digits of a whole number. -/
  wholeEnd : String
  /-- What stands before an exponent that is not negative. -/
  exponentPlus : String
  deriving DecidableEq

/-- As many zeros. -/
def zeros (n : Nat) : String := String.ofList (List.replicate n '0')

/-- A decimal in the given layout. -/
def Decimal.text (layout : Layout) (d : Decimal) : String :=
  let digits := (toString d.digits).toList
  let e : Int := d.exponent + digits.length - 1
  if layout.positionalFrom ≤ e ∧ e ≤ layout.positionalTo then
    if 0 ≤ d.exponent then
      String.ofList digits ++ zeros d.exponent.toNat ++ layout.wholeEnd
    else if 0 ≤ e then
      let whole := e.toNat + 1
      String.ofList (digits.take whole) ++ "." ++ String.ofList (digits.drop whole)
    else
      "0." ++ zeros (-e - 1).toNat ++ String.ofList digits
  else
    let fraction := if digits.length = 1 then "" else "." ++ String.ofList (digits.drop 1)
    let power := if e < 0 then toString e else layout.exponentPlus ++ toString e
    String.ofList (digits.take 1) ++ fraction ++ "e" ++ power

/-- A double in the given layout. -/
def Double.text (layout : Layout) (d : Double) : String :=
  let sign := if d.negative then "-" else ""
  if d.significand = 0 then sign ++ "0" ++ layout.wholeEnd else sign ++ d.shortest.text layout

end StructQL
