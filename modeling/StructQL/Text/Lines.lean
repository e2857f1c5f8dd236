/-!
# Lines and blanks of a text

* `Text.lines`: the lines of a text. A line feed ends a line, together with a carriage
  return right before it; nothing after the last line feed is not a line.
* `Text.isBlank`: the white space of Unicode.
* `Text.firstWord?`: the first run of characters that are not blank.
* `Text.join`: texts with a separator between them.
-/

namespace StructQL.Text

/-- A line that a line feed ended, without a carriage return at its end. -/
def dropReturn (line : List Char) : List Char :=
  if line.getLast? = some '\r' then line.dropLast else line

/-- The lines of the characters, after those of the line that is already open. -/
def linesFrom (opened : List Char) : List Char → List (List Char)
  | [] => if opened.isEmpty then [] else [opened]
  | c :: cs =>
    if c = '\n' then dropReturn opened :: linesFrom [] cs else linesFrom (opened ++ [c]) cs

/-- **The lines of a text.** -/
def lines (text : String) : List String := (linesFrom [] text.toList).map String.ofList

/-- White space as Unicode has it (the property `White_Space`). -/
def isBlank (c : Char) : Bool :=
  let n := c.toNat
  (9 ≤ n && n ≤ 13) || n == 32 || n == 0x85 || n == 0xA0 || n == 0x1680 ||
    (0x2000 ≤ n && n ≤ 0x200A) || n == 0x2028 || n == 0x2029 || n == 0x202F || n == 0x205F ||
    n == 0x3000

/-- The first run of characters that are not blank. -/
def firstWord? (cs : List Char) : Option String :=
  match (cs.dropWhile isBlank).takeWhile fun c => !isBlank c with
  | [] => none
  | word => some (String.ofList word)

/-- Texts with a separator between them. -/
def join (separator : String) : List String → String
  | [] => ""
  | [text] => text
  | text :: rest => text ++ separator ++ join separator rest

end StructQL.Text
