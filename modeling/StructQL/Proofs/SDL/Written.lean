import StructQL.SDL.Definition

/-!
# How a schema document is written

A document is a sequence of words with blanks between them. Its definitions fix the words up to the
places where a description, directives or a default value may stand.

* `Blank`, `Ending`: what may stand between words, and after the last one.
* `Word`, `Spelled`: words, and a text that spells them.
* `Constant`, `AppliedDirective`, `Slot.Holds`: what may stand in the places that have no meaning.
* `ReadWhole`: the names that the reader takes for one value.
* `Piece`, `Dressed`: words and places, and a text that spells them.
* `IsDefinition`, `IsDocument`: the words and places of definitions.
* `Written`: a source that spells words and places.
-/

namespace StructQL.SDL

/-! ## Blanks and words -/

/-- **What may stand between words**: spaces, tabs, line ends, commas, and comments that a line feed
ends. -/
inductive Blank : List Char → Prop where
  | nil : Blank []
  | space {c : Char} {s : List Char} : isSpace c = true ∨ c = ',' → Blank s → Blank (c :: s)
  | comment {text s : List Char} : '\n' ∉ text → Blank s → Blank ('#' :: (text ++ '\n' :: s))

/-- **What may stand after the last word**, where the source may end in a comment. -/
inductive Ending : List Char → Prop where
  | blank {s : List Char} : Blank s → Ending s
  | comment {s text : List Char} : Blank s → '\n' ∉ text → Ending (s ++ '#' :: text)

/-- **A word.** -/
inductive Word where
  | name (n : Name)
  | mark (c : Char)
  /-- A string between quotes, with the backslashes in it. -/
  | line (body : List Char)
  /-- A string between three quotes on either side. -/
  | block (body : List Char)
  | number (digits : List Char)

/-- What stands between the quotes of a string: a backslash together with what it escapes, and any
other character but a quote and a line feed. -/
inductive LineBody : List Char → Prop where
  | nil : LineBody []
  | char {c : Char} {s : List Char} : c ≠ '\\' → c ≠ '"' → c ≠ '\n' → LineBody s → LineBody (c :: s)
  | escape {c : Char} {s : List Char} : LineBody s → LineBody ('\\' :: c :: s)

/-- The first three quotes after the opening are those that end the string. -/
def Closes (body : List Char) : Prop := ¬ ['"', '"', '"'] <:+: body ++ ['"', '"']

/-- The signs. -/
def marks : List Char := ['!', '&', '(', ')', ':', '=', '@', '[', ']', '{', '|', '}']

namespace Word

/-- The characters of a word. -/
def chars : Word → List Char
  | name n => n.text.toList
  | mark c => [c]
  | line body => '"' :: (body ++ ['"'])
  | block body => '"' :: '"' :: '"' :: (body ++ ['"', '"', '"'])
  | number digits => digits

/-- **The word is one of the language.** Any characters of numbers make a number, but for a minus
alone. -/
def IsProper : Word → Prop
  | name _ => True
  | mark c => c ∈ marks
  | line body => LineBody body
  | block body => Closes body
  | number digits => digits ≠ [] ∧ digits ≠ ['-'] ∧ ∀ c ∈ digits, isNumberChar c = true

/-- **Nothing that follows is taken for a part of the word.** The empty string does not stand before
a quote, unless no three quotes follow that could end a string together with these. -/
def EndsBefore : Word → List Char → Prop
  | name _, s => ∀ c ∈ s.head?, isNameContinue c = false
  | number _, s => ∀ c ∈ s.head?, isNumberChar c = false
  | line body, s => body = [] → ∀ rest, s = '"' :: rest → ¬ ['"', '"', '"'] <:+: rest
  | mark _, _ | block _, _ => True

end Word

/-- **The words are spelled by a text** up to some rest of it. -/
inductive Spelled : List Word → List Char → List Char → Prop where
  | nil {s : List Char} : Spelled [] s s
  | cons {w : Word} {ws : List Word} {blank s rest : List Char} : Blank blank → w.IsProper →
    w.EndsBefore s → Spelled ws s rest → Spelled (w :: ws) (blank ++ (w.chars ++ s)) rest

/-! ## Places without meaning -/

/-- The words of names with values, as in an object or among arguments. -/
def entryWords (entries : List (Name × List Word)) : List Word :=
  entries.flatMap fun e => .name e.1 :: .mark ':' :: e.2

/-- **The words of a constant**, where only some names may be values. An item of a list may be any
name. -/
inductive Constant (value : Name → Prop) : List Word → Prop where
  | line {body : List Char} : Constant value [.line body]
  | block {body : List Char} : Constant value [.block body]
  | number {digits : List Char} : Constant value [.number digits]
  | name {n : Name} : value n → Constant value [.name n]
  | list {items : List (List Word)} :
    (∀ item ∈ items, (∀ n, item ≠ [.name n]) → Constant value item) →
    Constant value (.mark '[' :: (items.flatten ++ [.mark ']']))
  | object {entries : List (Name × List Word)} : (∀ e ∈ entries, Constant value e.2) →
    Constant value (.mark '\x7b' :: (entryWords entries ++ [.mark '\x7d']))

/-- **As a value the name is read whole**: it does not open as numbers do, or nothing in it tells it
from a number. -/
def ReadWhole (n : Name) : Prop :=
  (∀ c ∈ n.text.toList.head?, isNumberChar c = false) ∨ ∀ c ∈ n.text.toList, isNumberChar c = true

/-- **The words of a directive** where it is applied, with or without arguments. -/
inductive AppliedDirective (value : Name → Prop) : List Word → Prop where
  | bare {n : Name} : AppliedDirective value [.mark '@', .name n]
  | arguments {n : Name} {entries : List (Name × List Word)} :
    (∀ e ∈ entries, Constant value e.2) →
    AppliedDirective value
      (.mark '@' :: .name n :: .mark '(' :: (entryWords entries ++ [.mark ')']))

/-- **A place without meaning.** -/
inductive Slot where
  | description
  | directives
  | defaultValue

/-- **What may stand in a place**, where only some names may be values. -/
inductive Slot.Holds (value : Name → Prop) : Slot → List Word → Prop where
  | noDescription : Holds value .description []
  | line {body : List Char} : Holds value .description [.line body]
  | block {body : List Char} : Holds value .description [.block body]
  | directives {all : List (List Word)} : (∀ ws ∈ all, AppliedDirective value ws) →
    Holds value .directives all.flatten
  | noDefault : Holds value .defaultValue []
  | default {ws : List Word} : Constant value ws → Holds value .defaultValue (.mark '=' :: ws)

/-- **A word, or a place without meaning.** -/
inductive Piece where
  | word (w : Word)
  | slot (kind : Slot)

/-- **The pieces are spelled by a text** up to some rest of it, each place holding what it may. -/
inductive Dressed (holds : Slot → List Word → Prop) : List Piece → List Char → List Char → Prop where
  | nil {s : List Char} : Dressed holds [] s s
  | word {w : Word} {ps : List Piece} {s m rest : List Char} :
    Spelled [w] s m → Dressed holds ps m rest → Dressed holds (.word w :: ps) s rest
  | slot {kind : Slot} {ws : List Word} {ps : List Piece} {s m rest : List Char} : holds kind ws →
    Spelled ws s m → Dressed holds ps m rest → Dressed holds (.slot kind :: ps) s rest

/-- **The source spells the pieces**, and nothing else. -/
def Written (holds : Slot → List Word → Prop) (ps : List Piece) (source : List Char) : Prop :=
  ∃ rest, Dressed holds ps source rest ∧ Ending rest

/-! ## The pieces of definitions -/

/-- A sign. -/
def sign (c : Char) : Piece := .word (.mark c)

/-- A name. -/
def label (n : Name) : Piece := .word (.name n)

/-- One listing after the other. -/
inductive Listed {α : Type} (one : α → List Piece → Prop) : List α → List Piece → Prop where
  | nil : Listed one [] []
  | cons {x : α} {xs : List α} {ps qs : List Piece} : one x ps → Listed one xs qs →
    Listed one (x :: xs) (ps ++ qs)

/-- A list between two signs, which may be left out if it is empty. -/
inductive Enclosed {α : Type} (opening closing : Char) (one : α → List Piece → Prop) :
    List α → List Piece → Prop where
  | absent : Enclosed opening closing one [] []
  | present {xs : List α} {ps : List Piece} : Listed one xs ps →
    Enclosed opening closing one xs (sign opening :: (ps ++ [sign closing]))

/-- Names with a sign between them. -/
def joined (separator : Char) : List Name → List Piece
  | [] => []
  | [n] => [label n]
  | n :: rest => label n :: sign separator :: joined separator rest

/-- Names with a sign between them, and maybe in front of them. -/
def led (lead : Bool) (separator : Char) (names : List Name) : List Piece :=
  if lead then sign separator :: joined separator names else joined separator names

/-- **The words of a type.** -/
def typeWords : TypeRef → List Word
  | .named n nonNull => .name n :: (if nonNull then [.mark '!'] else [])
  | .list item nonNull =>
    .mark '[' :: (typeWords item ++ .mark ']' :: (if nonNull then [.mark '!'] else []))

/-- The pieces of a type. -/
def typePieces (type : TypeRef) : List Piece := (typeWords type).map .word

/-- **The pieces of an argument**, or of a field of an input object. -/
def inputPieces (v : InputValue) : List Piece :=
  .slot .description :: label v.name :: sign ':' ::
    (typePieces v.type ++ [.slot .defaultValue, .slot .directives])

/-- The pieces of an argument. -/
def IsInput (v : InputValue) (ps : List Piece) : Prop := ps = inputPieces v

/-- The pieces of a field of an input object. -/
def IsInputField (field : Field) (ps : List Piece) : Prop :=
  field.arguments = [] ∧ ps = inputPieces ⟨field.name, field.type⟩

/-- The pieces of arguments, if there are any. -/
def IsArguments : List InputValue → List Piece → Prop := Enclosed '(' ')' IsInput

/-- **The pieces of a field.** -/
inductive IsField : Field → List Piece → Prop where
  | mk {field : Field} {arguments : List Piece} : IsArguments field.arguments arguments →
    IsField field (.slot .description :: label field.name :: (arguments ++
      sign ':' :: (typePieces field.type ++ [.slot .directives])))

/-- The pieces of the value of an enum. -/
def IsEnumValue (value : Name) (ps : List Piece) : Prop :=
  ps = [.slot .description, label value, .slot .directives]

/-- The pieces of the interfaces of a type, if there are any. -/
inductive IsImplements : List Name → List Piece → Prop where
  | absent : IsImplements [] []
  | present {names : List Name} {lead : Bool} : names ≠ [] →
    IsImplements names (label ⟨"implements", by decide⟩ :: led lead '&' names)

/-- **The pieces of a type with fields**, after its keyword. -/
inductive IsWrittenFields (one : Field → List Piece → Prop) :
    WrittenFields → List Piece → Prop where
  | mk {type : WrittenFields} {implements fields : List Piece} :
    IsImplements type.implements implements → Enclosed '\x7b' '\x7d' one type.fields fields →
    IsWrittenFields one type (label type.name :: (implements ++ .slot .directives :: fields))

/-- The pieces of the members of a union, if there are any. No member is a word that opens a
definition. -/
inductive IsMembers : List Name → List Piece → Prop where
  | absent : IsMembers [] []
  | present {names : List Name} {lead : Bool} : (∀ n ∈ names, n.text ∉ definitionKeywords) →
    IsMembers names (sign '=' :: led lead '|' names)

/-- **The pieces of a union**, after its keyword. -/
inductive IsWrittenUnion : UnionType → List Piece → Prop where
  | mk {type : UnionType} {members : List Piece} : IsMembers type.members members →
    IsWrittenUnion type (label type.name :: .slot .directives :: members)

/-- A place for a directive as a name. -/
def locationName (location : DirectiveLocation) : Name :=
  ⟨location.text, by cases location <;> decide⟩

/-- The pieces of the type of an operation. -/
def IsOperation (operation : Name × Name) (ps : List Piece) : Prop :=
  ps = [label operation.1, sign ':', label operation.2]

/-- **The pieces of a definition.** -/
inductive IsDefinition : Definition → List Piece → Prop where
  | schema {operations : List (Name × Name)} {ps : List Piece} : operations ≠ [] →
    Listed IsOperation operations ps →
    IsDefinition (.schema operations) (label ⟨"schema", by decide⟩ :: .slot .directives ::
      sign '\x7b' :: (ps ++ [sign '\x7d']))
  | scalar {n : Name} :
    IsDefinition (.scalar n) [label ⟨"scalar", by decide⟩, label n, .slot .directives]
  | object {type : WrittenFields} {ps : List Piece} : IsWrittenFields IsField type ps →
    IsDefinition (.object type) (label ⟨"type", by decide⟩ :: ps)
  | interface {type : WrittenFields} {ps : List Piece} : IsWrittenFields IsField type ps →
    IsDefinition (.interface type) (label ⟨"interface", by decide⟩ :: ps)
  | inputObject {type : WrittenFields} {ps : List Piece} : IsWrittenFields IsInputField type ps →
    IsDefinition (.inputObject type) (label ⟨"input", by decide⟩ :: ps)
  | struct {type : WrittenFields} {ps : List Piece} : IsWrittenFields IsField type ps →
    IsDefinition (.struct type) (label ⟨"struct", by decide⟩ :: ps)
  | union {type : UnionType} {ps : List Piece} : IsWrittenUnion type ps →
    IsDefinition (.union type) (label ⟨"union", by decide⟩ :: ps)
  | structUnion {type : UnionType} {ps : List Piece} : IsWrittenUnion type ps →
    IsDefinition (.structUnion type) (label ⟨"structUnion", by decide⟩ :: ps)
  | enum {type : EnumType} {ps : List Piece} : Enclosed '\x7b' '\x7d' IsEnumValue type.values ps →
    IsDefinition (.enum type)
      (label ⟨"enum", by decide⟩ :: label type.name :: .slot .directives :: ps)
  | directive {d : DirectiveDefinition} {arguments : List Piece} {lead : Bool} :
    IsArguments d.arguments arguments → d.locations ≠ [] →
    IsDefinition (.directive d) (label ⟨"directive", by decide⟩ :: sign '@' :: label d.name ::
      (arguments ++ (if d.repeatable then [label ⟨"repeatable", by decide⟩] else []) ++
        label ⟨"on", by decide⟩ :: led lead '|' (d.locations.map locationName)))

/-- The pieces of a definition with the place for its description. -/
def IsDescribed (d : Definition) (ps : List Piece) : Prop :=
  ∃ qs, IsDefinition d qs ∧ ps = .slot .description :: qs

/-- **The pieces of a document.** -/
def IsDocument : List Definition → List Piece → Prop := Listed IsDescribed

end StructQL.SDL
