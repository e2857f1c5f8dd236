import StructQL.Name
import StructQL.Reading.Rule

/-!
# Words of a schema document

Spaces, tabs, line ends, commas and comments may stand before every word.

* `SDL.ignored`: what may stand there.
* `SDL.word`: a rule after what is ignored.
* `SDL.name`, `SDL.punctuator`, `SDL.keyword`, `SDL.stringValue`, `SDL.number`: the words.
-/

namespace StructQL.SDL

open Rule

/-- A space, a tab or a line end. -/
def isSpace (c : Char) : Bool := c = ' ' || c = '\t' || c = '\r' || c = '\n'

/-- Space, a comma, or a comment up to the end of its line. -/
def ignorable : Rule Char Unit :=
  firstOf [
    (do let _ ← takeWhile1 isSpace),
    item ',',
    (do item '#'; let _ ← takeWhile fun c => c ≠ '\n')]

/-- What stands between words. -/
def ignored : Rule Char Unit := do let _ ← many ignorable

/-- A rule after what is ignored. -/
def word {α : Type} (p : Rule Char α) : Rule Char α := do
  ignored
  p

/-- The characters of a name. -/
def nameChars : Rule Char (List Char) := do
  let first ← satisfy isNameStart
  let others ← takeWhile isNameContinue
  return first :: others

def name : Rule Char Name := word (refine nameChars Name.ofChars?)

def punctuator (c : Char) : Rule Char Unit := word (item c)

/-- The word and no longer name. -/
def keyword (text : String) : Rule Char Unit := word do
  items text.toList
  notHere (satisfy isNameContinue)

/-- The characters up to three quotes, and these. -/
def blockEnd : Rule Char Unit := fun s => go s s
where
  go (start : List Char) : List Char → Reading Char Unit
    | [] => .miss start
    | c :: s => if (c :: s).take 3 = ['\"', '\"', '\"'] then .read () (s.drop 2) else go start s

/-- A character of a string on one line, or a backslash with any character. -/
def stringChar : Rule Char Unit :=
  firstOf [
    (do item '\\'; let _ ← satisfy fun _ => true),
    (do let _ ← satisfy fun c => c ≠ '\\' && c ≠ '\"' && c ≠ '\n')]

/-- A string between three quotes on either side, or between one. -/
def stringValue : Rule Char Unit := word (firstOf [
  (do items ['\"', '\"', '\"']; blockEnd),
  (do item '\"'; let _ ← many stringChar; item '\"')])

/-- A character of a number. -/
def isNumberChar (c : Char) : Bool :=
  c.isDigit || c = '.' || c = 'e' || c = 'E' || c = '+' || c = '-'

/-- Anything made of the characters of numbers. -/
def number : Rule Char Unit := word do
  let _ ← optional (item '-')
  let _ ← takeWhile1 isNumberChar

/-- A description, or none. -/
def description : Rule Char Unit := do let _ ← optional stringValue

end StructQL.SDL
