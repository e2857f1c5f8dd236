import StructQL.CommandLine.Pattern
import StructQL.Reading.Digits
import StructQL.Text.Lines

/-!
# Log filters

A log filter is a list of directives between commas. A directive names a level, or a target and
a span in brackets for which a level may be set.

Blanks around a directive do not count when its parts are told apart, but the parts are cut from
the directive as it stands. So a blank in front moves each level and each field by one, and one
at the end belongs to the level.

* `LogFilter.isLevel`, `LogFilter.isField`: what levels and fields may be.
* `LogFilter.Place`, `LogFilter.isDirective`: how the parts of a directive are told apart.
* `LogFilter.isValid`: the filters.
-/

namespace StructQL.LogFilter

open Rule

/-! ### Levels and fields -/

/-- The names of the levels, the quietest first. -/
def levelNames : List String := ["off", "error", "warn", "info", "debug", "trace"]

/-- One of the words, in any case. -/
def isOneOf (words : List String) (cs : List Char) : Bool :=
  words.contains (String.ofList (cs.map Char.toLower))

/-- The decimal number that the characters write, with a plus sign or without. -/
def number? (cs : List Char) : Option Nat :=
  let digits := match cs with
    | '+' :: rest => rest
    | _ => cs
  if digits.isEmpty || !digits.all Char.isDigit then none else some (Digits.value digits)

/-- A level is a name in any case, or its number, and may be left out. -/
def isLevel (cs : List Char) : Bool :=
  cs.isEmpty || isOneOf levelNames cs ||
    match number? cs with
    | some n => n < levelNames.length
    | none => false

/-- The digits of a number around its point, and an exponent. -/
def digitsAndExponent : Rule Char Unit := do
  let whole ← takeWhile Char.isDigit
  let fraction ← optional (do item '.'; takeWhile Char.isDigit)
  if whole.isEmpty && (fraction.getD []).isEmpty then never
  let _ ← optional do
    let _ ← satisfy fun c => c = 'e' || c = 'E'
    let _ ← optional (satisfy fun c => c = '+' || c = '-')
    takeWhile1 Char.isDigit

/-- A number with a plus sign. Numbers without one are patterns. -/
def isPlusNumber : List Char → Bool
  | '+' :: cs =>
    isOneOf ["inf", "infinity", "nan"] cs || (readAll? digitsAndExponent cs).isSome
  | _ => false

/-- A field is a name, or a name and a value after an equals sign. What follows another equals
sign does not count. -/
def isField (cs : List Char) : Bool :=
  !cs.isEmpty &&
    match cs.splitOn '=' with
    | _ :: value :: _ => isPlusNumber value || Pattern.isValid value
    | _ => true

/-! ### Directives -/

/-- **A place of a directive**: the character that tells where its parts begin and end, and the
one that belongs to the part. -/
abbrev Place := Char × Char

/-- The characters that belong to a part. -/
def cut (places : List Place) : List Char := places.map Prod.snd

section

-- What the directive holds behind all of its places.
variable (tail : List Char)

/-- What may follow the target and the span: a level to be set, or nothing. -/
def isSetting : List Place → Bool
  | [] => true
  | ('=', _) :: level => isLevel (cut level ++ tail)
  | _ => false

/-- The rest of a span, and what follows it. The fields of a span stand in braces. -/
def isSpan (places : List Place) : Bool :=
  match places.dropWhile fun p => p.1 ≠ ']' && p.1 ≠ '\x7b' with
  | (']', _) :: rest => isSetting tail rest
  | ('\x7b', _) :: fields =>
    match fields.span fun p => p.1 ≠ '\x7d' with
    | (field, ('\x7d', _) :: (']', _) :: rest) => isField (cut field) && isSetting tail rest
    | _ => false
  | _ => false

/-- A character that a target may start with. -/
def isTargetStart (c : Char) : Bool :=
  c = '-' || c = ':' || c = '_' || Text.isAlphanumeric c

/-- The places are those of a directive. -/
def isDirectiveAt : List Place → Bool
  | [] => false
  | ('[', _) :: span => isSpan tail span
  | p :: places =>
    isTargetStart p.1 &&
      match places.dropWhile fun p => p.1 ≠ '=' && p.1 ≠ '[' with
      | ('[', _) :: span => isSpan tail span
      | setting => isSetting tail setting

end

/-- The characters without the blanks at both ends. -/
def trim (cs : List Char) : List Char :=
  ((cs.dropWhile Text.isBlank).reverse.dropWhile Text.isBlank).reverse

/-- **The characters are a directive.** -/
def isDirective (cs : List Char) : Bool :=
  isDirectiveAt (cs.drop (trim cs).length) ((trim cs).zip cs)

/-- **The text is a log filter.** Nothing between two commas is passed over. -/
def isValid (text : String) : Bool :=
  (text.toList.splitOn ',').all fun cs => cs.isEmpty || isDirective cs

end StructQL.LogFilter
