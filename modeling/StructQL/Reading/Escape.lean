import StructQL.Reading.Rule

/-!
# Escapes

Characters that are written by their numbers, or by a letter after a backslash.

* `Escape.hexDigits`: a number with so many hexadecimal digits.
* `Escape.charOf?`: the character of a number. Surrogates are no characters.
* `Escape.character`: what may follow a backslash in a string.
-/

namespace StructQL.Escape

open Rule

/-- The value of a hexadecimal digit. -/
def hexValue? (c : Char) : Option Nat :=
  if c.isDigit then some (c.toNat - 48)
  else if 'a' ≤ c ∧ c ≤ 'f' then some (c.toNat - 87)
  else if 'A' ≤ c ∧ c ≤ 'F' then some (c.toNat - 55)
  else none

def hexDigit : Rule Char Nat := refine (satisfy fun _ => true) hexValue?

/-- The number that hexadecimal digits write. -/
def hexNumber (digits : List Nat) : Nat := digits.foldl (fun n d => n * 16 + d) 0

/-- A number with so many hexadecimal digits. -/
def hexDigits (count : Nat) : Rule Char Nat := do
  let digits ← times count hexDigit
  return hexNumber digits

/-- The character of a number, unless it is a surrogate or beyond all characters. -/
def charOf? (n : Nat) : Option Char := if n.isValidChar then some (Char.ofNat n) else none

/-- A surrogate of the range of 1024 that starts at a number, as its place there. -/
def surrogate (first : Nat) : Rule Char Nat :=
  refine (hexDigits 4) fun n =>
    if first ≤ n ∧ n < first + 0x400 then some (n - first) else none

/-- A high and a low surrogate, which are one character together. -/
def surrogatePair : Rule Char Char := do
  let high ← surrogate 0xD800
  items ['\\', 'u']
  let low ← surrogate 0xDC00
  return Char.ofNat (0x10000 + high * 0x400 + low)

/-- **What follows a backslash in a string**: a letter or a sign that stands for a character,
or the number of one in units of four digits. -/
def character : Rule Char Char := do
  let c ← satisfy fun _ => true
  match c with
  | '\"' => return '\"'
  | '\\' => return '\\'
  | '/' => return '/'
  | 'b' => return '\x08'
  | 'f' => return '\x0c'
  | 'n' => return '\n'
  | 'r' => return '\r'
  | 't' => return '\t'
  | 'u' => orElse (refine (hexDigits 4) charOf?) surrogatePair
  | _ => never

end StructQL.Escape
