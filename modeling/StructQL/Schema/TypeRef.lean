import StructQL.Name

/-!
# Type references

A type reference is a named type or a list of a type, and either may be non-null.

* `TypeRef`: the references.
* `TypeRef.base`: the named type inside all lists.
* `TypeRef.text`, `TypeRef.ofString?`: how a reference is written, as in `[Name!]!`.
-/

namespace StructQL

/-- **A type reference.** -/
inductive TypeRef where
  | named (name : Name) (nonNull : Bool)
  | list (item : TypeRef) (nonNull : Bool)
  deriving DecidableEq

namespace TypeRef

/-- Null is no value of the type. -/
def isNonNull : TypeRef → Bool
  | named _ nonNull => nonNull
  | list _ nonNull => nonNull

/-- The named type inside all lists. -/
def base : TypeRef → Name
  | named name _ => name
  | list item _ => item.base

/-- A value has to hold a value of the named type: only a single non-null reference forces
this. -/
def isForcing : TypeRef → Bool
  | named _ nonNull => nonNull
  | list _ _ => false

/-- The mark of a non-null type. -/
def mark (nonNull : Bool) : String := if nonNull then "!" else ""

/-- **How a reference is written.** -/
def text : TypeRef → String
  | named name nonNull => name.text ++ mark nonNull
  | list item nonNull => "[" ++ item.text ++ "]" ++ mark nonNull

instance : ToString TypeRef := ⟨text⟩

/-- A reference without any space, in lists at most so deep, and what follows it. -/
def readFrom? : Nat → List Char → Option (TypeRef × List Char)
  | 0, _ => none
  | depth + 1, cs =>
    let marked (rest : List Char) : Bool × List Char :=
      match rest with
      | '!' :: rest => (true, rest)
      | rest => (false, rest)
    match cs with
    | '[' :: cs =>
      match readFrom? depth cs with
      | some (item, ']' :: rest) =>
        let (nonNull, rest) := marked rest
        some (list item nonNull, rest)
      | _ => none
    | cs =>
      match Name.ofChars? (cs.takeWhile isNameContinue) with
      | some name =>
        let (nonNull, rest) := marked (cs.dropWhile isNameContinue)
        some (named name nonNull, rest)
      | none => none

/-- **The reference that a text writes**, without any space. -/
def ofString? (text : String) : Option TypeRef :=
  match readFrom? (text.length + 1) text.toList with
  | some (ref, []) => some ref
  | _ => none

end TypeRef

end StructQL
