import StructQL.Fault.Report
import StructQL.Selection.Basic

/-!
# Merging selections

What two selections of the same type select together. The whole value takes in everything.

* `Selection.absorb`: one selection taken into another, with what becomes of it if they are of
  different types.
* `Selection.absorbAll`: selections taken in one after another.
* `Selection.merge`: two selections as one.
-/

namespace StructQL.Selection

/-- What has been merged, and the fault that kept the rest from it. -/
abbrev Absorbed (α : Type) := α × Option Fault

mutual

/-- **A selection taken into another.** At a fault, what was merged before stays. -/
def absorb : Selection → Selection → Absorbed Selection
  | whole, _ => (whole, none)
  | _, whole => (whole, none)
  | struct a, struct b =>
    let (set, fault) := absorbSet a b
    (struct set, fault)
  | union n a, union m b =>
    if n = m then
      let (members, fault) := absorbMembers a b
      (union n members, fault)
    else
      (union n a,
        some (.internal s!"Cannot merge selections of struct unions \"{n}\" and \"{m}\""))
  | struct a, union m _ =>
    (struct a,
      some (.internal s!"Cannot merge selections scoped to \"{a.typeName}\" and \"{m}\""))
  | union n a, struct b =>
    (union n a,
      some (.internal s!"Cannot merge selections scoped to \"{n}\" and \"{b.typeName}\""))

def absorbSet : FieldSet Selection → FieldSet Selection → Absorbed (FieldSet Selection)
  | ⟨n, a⟩, ⟨m, b⟩ =>
    if n = m then
      let (fields, fault) := absorbFields a b
      (⟨n, fields⟩, fault)
    else
      (⟨n, a⟩, some (.internal s!"Cannot merge field selections of \"{n}\" and \"{m}\""))

def absorbFields :
    List (Name × Selection) → List (Name × Selection) → Absorbed (List (Name × Selection))
  | l, [] => (l, none)
  | l, (name, s) :: rest =>
    match l.lookup name with
    | none => absorbFields (l ++ [(name, s)]) rest
    | some old =>
      match absorb old s with
      | (new, none) => absorbFields (Pairs.put name new l) rest
      | (new, some fault) => (Pairs.put name new l, some fault)

def absorbMembers :
    List (Name × FieldSet Selection) → List (Name × FieldSet Selection) →
      Absorbed (List (Name × FieldSet Selection))
  | l, [] => (l, none)
  | l, (name, s) :: rest =>
    match l.lookup name with
    | none => absorbMembers (l ++ [(name, s)]) rest
    | some old =>
      match absorbSet old s with
      | (new, none) => absorbMembers (Pairs.put name new l) rest
      | (new, some fault) => (Pairs.put name new l, some fault)

end

/-- **Selections taken in one after another**, up to the first fault. -/
def absorbAll (s : Selection) : List Selection → Absorbed Selection
  | [] => (s, none)
  | other :: rest =>
    match s.absorb other with
    | (new, none) => absorbAll new rest
    | (new, some fault) => (new, some fault)

/-- **Two selections as one.** -/
def merge (a b : Selection) : Except Failure Selection :=
  match a.absorb b with
  | (s, none) => .ok s
  | (_, some fault) => .error (.single fault)

end StructQL.Selection
