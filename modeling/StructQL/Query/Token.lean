import StructQL.Name
import StructQL.Reading.Digits
import StructQL.Reading.Escape

/-!
# Tokens of a query

Spaces, tabs, line ends, byte order marks and comments may stand between tokens. A comma is a
token, though it hardly ever means anything.

* `Query.Token`: the tokens.
* `Query.Token.ofSource?`: the tokens of a source.
-/

namespace StructQL.Query

open Rule

/-- **The tokens.** Numbers and strings keep their source text. -/
inductive Token where
  | name (name : Name)
  | punctuator (c : Char)
  /-- Three points. -/
  | spread
  | int (source : String)
  | float (source : String)
  | string (source : String)
  deriving DecidableEq

namespace Token

/-- A line end. -/
def isLineEnd (c : Char) : Bool := c = '\n' || c = '\r'

/-- What separates tokens, comments apart. -/
def isSeparator (c : Char) : Bool :=
  c = ' ' || c = '\t' || c = '\uFEFF' || isLineEnd c

/-- Separators and comments. -/
def ignored : Rule Char Unit := do
  let _ ← many (firstOf [
    (do let _ ← takeWhile1 isSeparator),
    (do item '#'; let _ ← takeWhile fun c => !isLineEnd c)])

/-- The characters that are tokens of their own. -/
def punctuators : List Char :=
  ['!', '$', '&', '(', ')', ',', ':', '=', '@', '[', ']', '\x7b', '|', '\x7d']

def nameToken : Rule Char Token := do
  let first ← satisfy isNameStart
  let others ← takeWhile isNameContinue
  match Name.ofChars? (first :: others) with
  | some n => return name n
  | none => never

/-- An exponent with its sign. -/
def exponent : Rule Char (List Char) := do
  let mark ← satisfy fun c => c = 'e' || c = 'E'
  let sign ← optional (satisfy fun c => c = '+' || c = '-')
  let digits ← commit (takeWhile1 Char.isDigit)
  return mark :: sign.toList ++ digits

/-- A number. Neither a point nor the start of a name may follow it. -/
def numberToken : Rule Char Token := do
  let sign ← optional (satisfy fun c => c = '-')
  let whole ← Digits.whole
  let fraction ← optional do
    let point ← satisfy fun c => c = '.'
    let digits ← commit (takeWhile1 Char.isDigit)
    return point :: digits
  let power ← optional exponent
  commit (notHere (satisfy fun c => c = '.' || isNameStart c))
  let source := String.ofList (sign.toList ++ whole ++ fraction.getD [] ++ power.getD [])
  return if fraction.isNone && power.isNone then int source else float source

/-- A character by its number in braces. -/
def bracedEscape : Rule Char Char := do
  items ['u', '\x7b']
  commit do
    let digits ← many1 Escape.hexDigit
    item '\x7d'
    match Escape.charOf? (Escape.hexNumber digits) with
    | some c => return c
    | none => never

/-- A character of a string on one line: an escape, or any other that passes the test. -/
def stringChar (test : Char → Bool) : Rule Char Char :=
  firstOf [
    (do item '\\'; commit (orElse bracedEscape Escape.character)),
    satisfy fun c => c ≠ '\\' && c ≠ '\"' && test c]

/-- The characters of a string on one line. The first of them may be a line end. -/
def stringChars : Rule Char Unit := do
  let _ ← optional (stringChar fun _ => true)
  let _ ← many (stringChar fun c => !isLineEnd c)

/-- Three quotes. -/
def quotes : List Char := ['\"', '\"', '\"']

/-- A character of a string between three quotes. -/
def blockChar : Rule Char Unit :=
  firstOf [
    items ('\\' :: quotes),
    (do
      notHere (items quotes)
      let _ ← satisfy fun _ => true)]

/-- The characters of a string between three quotes. -/
def blockChars : Rule Char Unit := do let _ ← many blockChar

def stringToken : Rule Char Token :=
  firstOf [
    (do
      items quotes
      commit do
        let cs ← span blockChars
        items quotes
        return string (String.ofList cs)),
    (do
      item '\"'
      commit do
        let cs ← span stringChars
        item '\"'
        return string (String.ofList cs))]

/-- One token and what separates it from the next. -/
def token : Rule Char Token := do
  let t ← firstOf [
    nameToken,
    (do let c ← satisfy punctuators.contains; return punctuator c),
    (do items ['.', '.', '.']; return spread),
    numberToken,
    stringToken]
  ignored
  return t

/-- **The tokens of a source**, if it holds nothing else. -/
def ofSource? (source : String) : Option (List Token) :=
  readAll? (do ignored; many token) source.toList

end Token

end StructQL.Query
