import StructQL.Decimal.Shortest
import StructQL.Json.Value

/-!
# JSON text

* `Json.compact`: a value without any space.
* `Json.indented`: a value over several lines, two spaces a level.
-/

namespace StructQL

/-- Doubles from `0.00001` up to sixteen digits before the point are written without an
exponent, and always with a point. -/
def jsonLayout : Layout := ⟨-5, 15, ".0", "+"⟩

/-- A number as JSON writes it. -/
def Number.text : Number → String
  | .whole n => toString n
  | .double d => d.text jsonLayout

namespace Json

/-- A digit from zero to fifteen. -/
def hexDigit (n : Nat) : Char := if n < 10 then Char.ofNat (48 + n) else Char.ofNat (87 + n)

/-- A character inside a string: quotes, backslashes and control characters are escaped. -/
def escapeChar (c : Char) : List Char :=
  if c = '\"' then ['\\', '\"']
  else if c = '\\' then ['\\', '\\']
  else if c = '\n' then ['\\', 'n']
  else if c = '\r' then ['\\', 'r']
  else if c = '\t' then ['\\', 't']
  else if c = '\x08' then ['\\', 'b']
  else if c = '\x0c' then ['\\', 'f']
  else if c.toNat < 32 then
    ['\\', 'u', '0', '0', hexDigit (c.toNat / 16), hexDigit (c.toNat % 16)]
  else [c]

/-- A string in quotes. -/
def quote (text : String) : String :=
  String.ofList ('\"' :: text.toList.flatMap escapeChar ++ ['\"'])

mutual

/-- **The value without any space.** -/
def compact : Json → String
  | null => "null"
  | bool true => "true"
  | bool false => "false"
  | number n => n.text
  | string s => quote s
  | array items => "[" ++ compactItems items ++ "]"
  | object entries => "\x7b" ++ compactEntries entries ++ "\x7d"

def compactItems : List Json → String
  | [] => ""
  | [v] => compact v
  | v :: rest => compact v ++ "," ++ compactItems rest

def compactEntries : List (String × Json) → String
  | [] => ""
  | [(k, v)] => quote k ++ ":" ++ compact v
  | (k, v) :: rest => quote k ++ ":" ++ compact v ++ "," ++ compactEntries rest

end

/-- The space in front of a line. -/
def margin (level : Nat) : String := String.ofList (List.replicate (2 * level) ' ')

mutual

/-- **The value over several lines**, the first of which has its margin already. What is
empty stays on one line. -/
def indented (level : Nat) : Json → String
  | null => "null"
  | bool true => "true"
  | bool false => "false"
  | number n => n.text
  | string s => quote s
  | array [] => "[]"
  | array items => "[\n" ++ indentedItems (level + 1) items ++ margin level ++ "]"
  | object [] => "\x7b\x7d"
  | object entries =>
    "\x7b\n" ++ indentedEntries (level + 1) entries ++ margin level ++ "\x7d"

def indentedItems (level : Nat) : List Json → String
  | [] => ""
  | v :: rest =>
    margin level ++ indented level v ++ (if rest.isEmpty then "\n" else ",\n") ++
      indentedItems level rest

def indentedEntries (level : Nat) : List (String × Json) → String
  | [] => ""
  | (k, v) :: rest =>
    margin level ++ quote k ++ ": " ++ indented level v ++
      (if rest.isEmpty then "\n" else ",\n") ++ indentedEntries level rest

end

end Json

end StructQL
