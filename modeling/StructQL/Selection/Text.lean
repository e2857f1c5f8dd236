import StructQL.Selection.Basic
import StructQL.Text.Lines

/-!
# The text of a selection

A selection is written as the selection set that selects it, on one line or over several.
Both are laid out from the same pieces.

* `Piece`, `Selection.pieces`: words, spaces and places where a line may break.
* `Selection.text`, `Selection.indented`: the text on one line and over several.
-/

namespace StructQL

/-- A piece of the text of a selection. -/
inductive Piece where
  | word (text : String)
  | space
  /-- A new line at a depth, or a space if all stands on one line. -/
  | line (depth : Nat)
  deriving DecidableEq

namespace Piece

/-- The piece where all stands on one line. -/
def flat : Piece → String
  | word text => text
  | space => " "
  | line _ => " "

/-- The piece over several lines, two spaces a level. -/
def broken : Piece → String
  | word text => text
  | space => " "
  | line depth => "\n" ++ String.ofList (List.replicate (2 * depth) ' ')

end Piece

namespace Selection

/-- What opens the fields of a member of a struct union. -/
def memberOpening (depth : Nat) (member : Name) : List Piece :=
  [.line depth, .word "...", .space, .word "on", .space, .word member.text, .space,
    .word "\x7b"]

mutual

/-- **The pieces of a selection** that stands at a depth. Members of which no field is
selected are left out. -/
def pieces (depth : Nat) : Selection → List Piece
  | whole => [.word "<entire value>"]
  | struct set =>
    if set.fields.isEmpty then [.word "\x7b\x7d"]
    else .word "\x7b" :: setPieces (depth + 1) set ++ [.line depth, .word "\x7d"]
  | union _ members =>
    if members.all fun m => m.2.fields.isEmpty then [.word "\x7b\x7d"]
    else .word "\x7b" :: memberPieces (depth + 1) members ++ [.line depth, .word "\x7d"]

def setPieces (depth : Nat) : FieldSet Selection → List Piece
  | ⟨_, fields⟩ => fieldPieces depth fields

def fieldPieces (depth : Nat) : List (Name × Selection) → List Piece
  | [] => []
  | (name, s) :: rest =>
    .line depth :: .word name.text ::
      (if s.isWhole then [] else .space :: pieces depth s) ++ fieldPieces depth rest

def memberPieces (depth : Nat) : List (Name × FieldSet Selection) → List Piece
  | [] => []
  | (member, set) :: rest =>
    (if set.fields.isEmpty then []
      else memberOpening depth member ++ setPieces (depth + 1) set ++
        [.line depth, .word "\x7d"]) ++ memberPieces depth rest

end

/-- **The text on one line.** -/
def text (s : Selection) : String := String.join ((s.pieces 0).map Piece.flat)

/-- **The text over several lines.** -/
def indented (s : Selection) : String := String.join ((s.pieces 0).map Piece.broken)

end Selection

end StructQL
