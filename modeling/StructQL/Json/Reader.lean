import StructQL.Json.Value
import StructQL.Reading.Digits
import StructQL.Reading.Escape

/-!
# Reading JSON

The text holds one value, with white space around its tokens. Arrays and objects nest at
most 127 deep. Of the entries of an object that share a key, the first gives the place and the
last the value.

* `Json.ofString?`: the value of a text.
* `Json.verbatim?`: the same, but an object keeps all of its entries as they stand there.
-/

namespace StructQL.Json

open Rule

/-- White space between tokens. -/
def isSpace (c : Char) : Bool := c = ' ' || c = '\t' || c = '\n' || c = '\r'

/-- What the rule reads, and the white space after it. -/
def lexeme {α : Type} (p : Rule Char α) : Rule Char α := do
  let a ← p
  let _ ← takeWhile isSpace
  return a

/-- A character of a string: an escape, or any character but quotes, backslashes and control
characters. -/
def stringChar : Rule Char Char :=
  firstOf [
    (do item '\\'; Escape.character),
    satisfy fun c => c ≠ '\"' && c ≠ '\\' && 32 ≤ c.toNat]

def stringText : Rule Char String := do
  let cs ← between (item '\"') (many stringChar) (item '\"')
  return String.ofList cs

/-- An exponent with its sign. -/
def exponentPart : Rule Char Int := do
  let _ ← satisfy fun c => c = 'e' || c = 'E'
  let sign ← optional (satisfy fun c => c = '+' || c = '-')
  let digits ← takeWhile1 Char.isDigit
  let n : Int := Digits.value digits
  return if sign = some '-' then -n else n

/-- A number without fraction and exponent: whole if it fits 64 bits, without a sign or with
one. Minus zero is a double. -/
def wholeNumber? (negative : Bool) (n : Nat) : Option Number :=
  if negative then
    if n ≠ 0 ∧ n ≤ Number.signedLimit then some (.whole (-(n : Int)))
    else (Double.ofDecimal? true n 0).map .double
  else if n < Number.unsignedLimit then some (.whole n)
  else (Double.ofDecimal? false n 0).map .double

/-- The parts of a number: its sign, the digits before the point, those after it if there is a
point, and the exponent if there is one. -/
def numberParts :
    Rule Char (Bool × List Char × Option (List Char) × Option Int) := do
  let sign ← optional (item '-')
  let whole ← Digits.whole
  let fraction ← optional (do item '.'; commit (takeWhile1 Char.isDigit))
  let exponent ←
    optional (do ahead (satisfy fun c => c = 'e' || c = 'E'); commit exponentPart)
  return (sign.isSome, whole, fraction, exponent)

/-- **A number.** One beyond all doubles is refused. -/
def numberRule : Rule Char Number :=
  refine numberParts fun (negative, whole, fraction, exponent) =>
    match fraction, exponent with
    | none, none => wholeNumber? negative (Digits.value whole)
    | _, _ =>
      let after := fraction.getD []
      (Double.ofDecimal? negative (Digits.value (whole ++ after))
        (exponent.getD 0 - after.length)).map .double

/-- An entry of an object. -/
def entry (value : Rule Char Json) : Rule Char (String × Json) := do
  let key ← lexeme stringText
  lexeme (item ':')
  let v ← value
  return (key, v)

/-- The entries of an object in braces. -/
def entries (value : Rule Char Json) : Rule Char (List (String × Json)) :=
  between (lexeme (item '\x7b')) (separated (lexeme (item ',')) (entry value))
    (lexeme (item '\x7d'))

/-- A value that holds no other. -/
def scalar : Rule Char Json :=
  firstOf [
    (do items "null".toList; return null),
    (do items "true".toList; return bool true),
    (do items "false".toList; return bool false),
    (do let n ← numberRule; return number n),
    (do let s ← stringText; return string s)]

/-- A value in which arrays and objects nest at most so deep. The entries of each object are
combined as given. -/
def valueRule (combine : List (String × Json) → List (String × Json)) : Nat → Rule Char Json
  | 0 => lexeme scalar
  | depth + 1 =>
    firstOf [
      lexeme scalar,
      (do
        let items ← between (lexeme (item '['))
          (separated (lexeme (item ',')) (valueRule combine depth)) (lexeme (item ']'))
        return array items),
      (do
        let es ← entries (valueRule combine depth)
        return object (combine es))]

/-- How deep arrays and objects nest at most. -/
def maxDepth : Nat := 127

/-- **The value of a text.** -/
def ofString? (text : String) : Option Json :=
  readAll? (do let _ ← takeWhile isSpace; valueRule Pairs.ofList maxDepth) text.toList

/-- The value of a text, with all entries of its objects as they stand there. -/
def verbatim? (text : String) : Option Json :=
  readAll? (do let _ ← takeWhile isSpace; valueRule id maxDepth) text.toList

end StructQL.Json
