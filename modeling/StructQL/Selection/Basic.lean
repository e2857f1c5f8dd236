import StructQL.Pairs
import StructQL.Name

/-!
# Selections of structs

What a query selects of a value: the value as a whole, or some fields of its struct, or some
fields of each struct that a struct union may be.

* `Selection`: the selections. Names are listed once; the order is that of the query.
* `FieldSet`: the selected fields of one struct.
* `Selection.same`: equality that leaves the order of fields and members aside.
-/

namespace StructQL

/-- **The selected fields of a struct**, each with what is selected of it. -/
structure FieldSet (σ : Type) where
  typeName : Name
  fields : List (Name × σ)

/-- **What is selected of a value.** -/
inductive Selection where
  /-- The value as a whole. Leaves are always selected so. -/
  | whole
  /-- Fields of a struct. There are none if conditions leave all of them out. -/
  | struct (set : FieldSet Selection)
  /-- Fields of each member of a struct union. -/
  | union (unionName : Name) (members : List (Name × FieldSet Selection))

namespace Selection

/-- The value is selected as a whole. -/
def isWhole : Selection → Bool
  | whole => true
  | _ => false

/-- The struct or struct union whose fields are selected. -/
def typeName? : Selection → Option Name
  | whole => none
  | struct set => some set.typeName
  | union unionName _ => some unionName

/-- No field is selected. -/
def isEmpty : Selection → Bool
  | whole => false
  | struct set => set.fields.isEmpty
  | union _ members => members.all fun m => m.2.fields.isEmpty

mutual

/-- **The selections are the same** but for the order of fields and members. -/
def same : Selection → Selection → Bool
  | whole, whole => true
  | struct a, struct b => sameSet a b
  | union n a, union m b => n = m && a.length = b.length && sameMembers a b
  | _, _ => false

def sameSet : FieldSet Selection → FieldSet Selection → Bool
  | ⟨n, a⟩, ⟨m, b⟩ => n = m && a.length = b.length && sameFields a b

def sameFields : List (Name × Selection) → List (Name × Selection) → Bool
  | [], _ => true
  | (name, s) :: rest, l =>
    (match l.lookup name with
      | some t => same s t
      | none => false) && sameFields rest l

def sameMembers : List (Name × FieldSet Selection) → List (Name × FieldSet Selection) → Bool
  | [], _ => true
  | (name, s) :: rest, l =>
    (match l.lookup name with
      | some t => sameSet s t
      | none => false) && sameMembers rest l

end

end Selection

end StructQL
