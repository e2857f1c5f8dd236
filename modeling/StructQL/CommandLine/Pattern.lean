import StructQL.Reading.Escape
import StructQL.Text.Alphanumeric

/-!
# Patterns

Values of fields in log filters are patterns: regular expressions with groups, sets of
characters and modes, but without counted repetition. A pattern is read into tokens first, and
a scan of the tokens tells whether they fit together.

* `Pattern.Mode`: how a part of a pattern is meant.
* `Pattern.Token`: the tokens.
* `Pattern.Scan`: what is open between two tokens.
* `Pattern.isValid`: the patterns.
-/

namespace StructQL.Pattern

open Rule

/-! ### Modes -/

/-- **How a part of a pattern is meant.** -/
structure Mode where
  /-- Letters match whatever their case. -/
  ignoresCase : Bool := false
  /-- Characters are those of Unicode, not of ASCII. -/
  unicode : Bool := true

/-- The letters of the modes, and the sign between those that begin and those that end. -/
def modeLetters : List Char := "imsUuRx-".toList

/-- Which modes begin, and which end. -/
structure ModeChange where
  on : List Char
  off : List Char

/-- The change that letters write. No letter is repeated, and something follows the sign. -/
def ModeChange.ofChars? (cs : List Char) : Option ModeChange :=
  if cs.Nodup ∧ cs.getLast? ≠ some '-' then
    some ⟨cs.takeWhile fun c => c ≠ '-', (cs.dropWhile fun c => c ≠ '-').drop 1⟩
  else none

/-- The mode after a change. -/
def Mode.changed (m : Mode) (change : ModeChange) : Mode where
  ignoresCase := change.on.contains 'i' || m.ignoresCase && !change.off.contains 'i'
  unicode := change.on.contains 'u' || m.unicode && !change.off.contains 'u'

/-! ### Atoms -/

/-- **What matches one character, or a place between two.** -/
inductive Atom where
  | literal (c : Char)
  /-- A point, which matches any character. -/
  | any
  /-- The start or the end of a text or of a line. -/
  | edge
  /-- The start or the end of a word, or a place that is neither. -/
  | wordEdge
  /-- The digits, the white space or the characters of words, or all others. -/
  | kind (negated : Bool)
  /-- A set, and for each kind in it whether it is negated. -/
  | set (negated : Bool) (kinds : List Bool)

/-- **The atom can be meant in a mode.** It is known only of ASCII which characters are of a kind,
which are parts of words and which differ in case alone. Nothing may match a part of a
character. -/
def Mode.allows (m : Mode) : Atom → Bool
  | .literal _ => !(m.unicode && m.ignoresCase)
  | .any => m.unicode
  | .edge => true
  | .wordEdge => !m.unicode
  | .kind negated => !m.unicode && !negated
  | .set negated kinds =>
    if m.unicode then !m.ignoresCase && kinds.isEmpty else !negated && !kinds.contains true

/-- A character by its number, which has so many hexadecimal digits. -/
def numbered (digits : Nat) : Rule Char Atom := do
  let c ← refine (Escape.hexDigits digits) Escape.charOf?
  return .literal c

/-- What follows a backslash. -/
def escape : Rule Char Atom := do
  let c ← satisfy fun _ => true
  match c with
  | 'a' => return .literal '\x07'
  | 'f' => return .literal '\x0c'
  | 'n' => return .literal '\n'
  | 'r' => return .literal '\r'
  | 't' => return .literal '\t'
  | 'v' => return .literal '\x0b'
  | 'x' => numbered 2
  | 'u' => numbered 4
  | 'U' => numbered 8
  | 'A' | 'z' => return .edge
  | 'd' | 's' | 'w' => return .kind false
  | 'D' | 'S' | 'W' => return .kind true
  | 'b' | 'B' | '<' | '>' => return .wordEdge
  | _ => if c.toNat < 128 && !c.isAlphanum then return .literal c else never

/-! ### Sets -/

/-- The names of the sets of ASCII that stand between colons. -/
def setNames : List String :=
  ["alnum", "alpha", "ascii", "blank", "cntrl", "digit", "graph", "lower", "print", "punct",
    "space", "upper", "word", "xdigit"]

/-- A set of ASCII by its name. -/
def namedSet : Rule Char (List Bool) := do
  items ['[', ':']
  let _ ← optional (item '^')
  let letters ← takeWhile Char.isAlpha
  items [':', ']']
  if setNames.contains (String.ofList letters) then return [] else never

/-- An operation on sets: what is common to both, or only in the first, or not in both. -/
def setOperator : Rule Char (List Bool) := do
  firstOf [items ['&', '&'], items ['-', '-'], items ['~', '~']]
  return []

/-- A member of a set: an escape, or any character but the one that closes it. -/
def member : Rule Char Atom :=
  firstOf [
    (do item '\\'; commit escape),
    (do let c ← satisfy fun c => c ≠ ']'; return .literal c)]

/-- The end of a range, if a hyphen says that there is one. -/
def rangeEnd : Rule Char (Option Atom) :=
  optional do
    item '-'
    notHere (satisfy fun c => c = ']' || c = '-')
    commit member

/-- Members from one to another, in order, or one alone. -/
def range : Rule Char (List Bool) := do
  let first ← member
  let last ← rangeEnd
  commit (match first, last with
    | .literal a, some (.literal b) => if a ≤ b then return [] else never
    | .literal _, none => return []
    | .kind negated, none => return [negated]
    | _, _ => never)

/-- A set, in which sets nest at most so deep. A hyphen at its start, or else a closing bracket
there, is a member. -/
def set : Nat → Rule Char (Bool × List Bool)
  | 0 => never
  | depth + 1 => do
    item '['
    commit do
      let negation ← optional (item '^')
      let hyphens ← takeWhile fun c => c = '-'
      if hyphens.isEmpty then let _ ← optional (item ']')
      let kinds ← many (firstOf [
        namedSet,
        (do let inner ← set depth; return inner.2),
        setOperator,
        range])
      item ']'
      return (negation.isSome, kinds.flatten)

/-! ### Tokens -/

/-- **The tokens.** -/
inductive Token where
  | atom (atom : Atom)
  /-- What stands in front is repeated, or may be missing. -/
  | repetition
  | alternative
  /-- A group opens, maybe in another mode, maybe with a name. -/
  | opening (change : ModeChange) (name : Option (List Char))
  | closing
  /-- The mode changes for the rest of the group. -/
  | change (change : ModeChange)

/-- Letters of modes. -/
def modeChange : Rule Char ModeChange :=
  refine (takeWhile modeLetters.contains) ModeChange.ofChars?

/-- The name of a group. -/
def groupName : Rule Char (List Char) := do
  let first ← satisfy fun c => c = '_' || Text.isAlphanumeric c && !c.isDigit
  let others ← takeWhile fun c => "_.[]".toList.contains c || Text.isAlphanumeric c
  return first :: others

/-- What follows an opening parenthesis: a name, a change of mode, or nothing of the kind. -/
def groupOpening : Rule Char Token :=
  firstOf [
    (do
      firstOf [items "?P<".toList, items "?<".toList]
      commit do
        let name ← groupName
        item '>'
        return .opening ⟨[], []⟩ (some name)),
    (do
      item '?'
      commit do
        let c ← modeChange
        firstOf [
          (do item ':'; return .opening c none),
          (do item ')'; if c.on.isEmpty && c.off.isEmpty then never else return .change c)]),
    return .opening ⟨[], []⟩ none]

/-- A sign of repetition. A question mark behind it makes it lazy. -/
def repetition : Rule Char Token := do
  let _ ← satisfy "*+?".toList.contains
  let _ ← optional (item '?')
  return .repetition

/-- A token of a pattern. Sets nest at most so deep. -/
def token (depth : Nat) : Rule Char Token :=
  firstOf [
    repetition,
    (do item '|'; return .alternative),
    (do item '('; groupOpening),
    (do item ')'; return .closing),
    (do item '\\'; let a ← commit escape; return .atom a),
    (do let s ← set depth; return .atom (.set s.1 s.2)),
    (do item '.'; return .atom .any),
    (do let _ ← satisfy "^$".toList.contains; return .atom .edge),
    (do
      let c ← satisfy fun c => c ≠ '[' && c ≠ '\x7b'
      return .atom (.literal c))]

/-! ### The scan -/

/-- **What is open between two tokens.** -/
structure Scan where
  mode : Mode := {}
  /-- The modes around the groups that are open, the innermost first. -/
  around : List Mode := []
  /-- Something stands in front that can be repeated. -/
  isRepeatable : Bool := false
  /-- The names of groups so far. -/
  names : List (List Char) := []

/-- The scan after one more token, if it fits. -/
def Scan.step (s : Scan) : Token → Option Scan
  | .atom a => if s.mode.allows a then some { s with isRepeatable := true } else none
  | .repetition => if s.isRepeatable then some s else none
  | .alternative => some { s with isRepeatable := false }
  | .opening change name =>
    if name.any s.names.contains then none
    else some ⟨s.mode.changed change, s.mode :: s.around, false, name.toList ++ s.names⟩
  | .closing =>
    match s.around with
    | [] => none
    | mode :: around => some { s with mode, around, isRepeatable := true }
  | .change change => some { s with mode := s.mode.changed change, isRepeatable := false }

/-- **The characters are a pattern**: all tokens fit, and no group stays open. -/
def isValid (cs : List Char) : Bool :=
  match readAll? (many (token cs.length)) cs with
  | none => false
  | some tokens =>
    match tokens.foldlM Scan.step {} with
    | none => false
    | some s => s.around.isEmpty

end StructQL.Pattern
