import StructQL.Schema.Basic

/-!
# Possible types

The types that a value can have when a query selects on it.

* `Schema.possibleTypes`: those of a value that is declared to have a type.
* `Schema.canApply`: a fragment on one type can apply to a value of another.
-/

namespace StructQL.Schema

variable (s : Schema)

/-- The object types that implement an interface. -/
def implementations (interface : Name) : List Name :=
  s.types.toList.filterMap fun type =>
    match type with
    | .object object => if interface ∈ object.implements then some object.name else none
    | _ => none

/-- **The types that a value can have**: the members of a union, the implementations of an
interface, and else the type itself. -/
def possibleTypes (name : Name) : List Name :=
  match s.type? name with
  | some (.structUnion type) | some (.union type) => distinctNames type.members
  | some (.interface type) => s.implementations type.name
  | _ => [name]

/-- **A fragment on a type can apply in a scope** if it is on the scope itself, or if some
value has both types. -/
def canApply (scope target : Name) : Bool :=
  scope = target ||
    (s.type? target).isSome &&
      (s.possibleTypes target).any fun n => (s.possibleTypes scope).contains n

variable {s} {scope : Name}

theorem possibleTypes_of_struct (hs : s.isStructLike scope = true)
    (h : s.structUnion? scope = none) : s.possibleTypes scope = [scope] := by
  obtain ⟨type, htype, hkind⟩ := isStructLike_eq_true_iff.1 hs
  unfold structUnion? at h
  unfold possibleTypes
  rw [htype] at h ⊢
  cases type with
  | struct _ => rfl
  | structUnion _ => cases h
  | _ => cases hkind

theorem possibleTypes_of_structUnion {union : UnionType}
    (h : s.structUnion? scope = some union) :
    s.possibleTypes scope = distinctNames union.members := by
  unfold possibleTypes
  rw [structUnion?_eq_some_iff.1 h]

end StructQL.Schema
