import StructQL.Fault.Basic
import StructQL.Query.Document
import StructQL.Text.Lines

/-!
# Cycles of fragments

A fragment refers to the fragments that it spreads, at any depth. A search along these
references, which visits every fragment once, meets a cycle where it comes back to a fragment
on its way.

* `Query.spreads`: the fragments that a selection spreads.
* `Frame`: a fragment on the way, with the spreads of it that are still to be followed.
* `fragmentCycles`: the cycles that the search meets.
* `fragmentCycleFaults`: the faults of a table of fragments.
-/

namespace StructQL

namespace Query

/-- The fragments that a list of selections spreads, those spread on its own level apart from
those spread below. What is nested later comes first among the latter. -/
def spreadsByLevel : List Node → List Name × List Name
  | [] => ([], [])
  | .field _ _ _ _ selections :: rest | .inline _ _ selections :: rest =>
    let inner := spreadsByLevel selections
    let (here, below) := spreadsByLevel rest
    (here, below ++ (inner.1 ++ inner.2))
  | .spread name _ :: rest =>
    let (here, below) := spreadsByLevel rest
    (name :: here, below)

/-- **The fragments that a list of selections spreads**, at any depth. -/
def spreads (nodes : List Node) : List Name :=
  (spreadsByLevel nodes).1 ++ (spreadsByLevel nodes).2

end Query

/-- A fragment on the way of the search, with the spreads that are still to be followed. -/
structure Frame where
  name : Name
  pending : List Name

/-- A fragment, with all its spreads still to be followed. -/
def Frame.ofFragment (fragment : Query.Fragment) : Frame :=
  ⟨fragment.name, Query.spreads fragment.selections⟩

/-- What is still to be followed on a way. -/
def Frame.work : List Frame → Nat
  | [] => 0
  | frame :: rest => frame.pending.length + 1 + work rest

/-- The part of a way from a fragment on. The way lists its last fragment first. -/
def wayFrom (name : Name) (way : List Frame) : List Name :=
  (way.map Frame.name).reverse.dropWhile (· ≠ name)

/-- **The cycles that the search meets**, each from the fragment that it comes back to. The
search follows the way, then starts from the further fragments. -/
def fragmentCycles (starts : List Name) (way : List Frame) (unvisited : Table Query.Fragment) :
    List (List Name) :=
  match way with
  | [] =>
    match starts with
    | [] => []
    | name :: rest =>
      match _h : unvisited.find? name with
      | none => fragmentCycles rest [] unvisited
      | some fragment => fragmentCycles rest [.ofFragment fragment] (unvisited.erase name)
  | ⟨_, []⟩ :: rest => fragmentCycles starts rest unvisited
  | ⟨name, spread :: pending⟩ :: rest =>
    let way := ⟨name, pending⟩ :: rest
    if way.any fun frame => frame.name = spread then
      wayFrom spread way :: fragmentCycles starts way unvisited
    else
      match _h : unvisited.find? spread with
      | none => fragmentCycles starts way unvisited
      | some fragment =>
        fragmentCycles starts (.ofFragment fragment :: way) (unvisited.erase spread)
termination_by (unvisited.size, starts.length + Frame.work way)
decreasing_by
  · exact .right _ (by simp)
  · exact .left _ _ (Table.size_erase_lt (Table.contains_of_find? _h))
  · exact .right _ (by simp [Frame.work])
  · exact .right _ (by simp [Frame.work])
  · exact .right _ (by simp [Frame.work])
  · exact .left _ _ (Table.size_erase_lt (Table.contains_of_find? _h))

/-- A cycle as a fault, named for the fragment that it comes back to. -/
def cycleFault? (cycle : List Name) : Option Fault :=
  cycle.head?.map fun first =>
    .fragmentCycle first (Text.join " -> " ((cycle ++ [first]).map Name.text))

/-- **The faults of a table of fragments**: the cycles that a search from each fragment in
turn meets. -/
def fragmentCycleFaults (fragments : Table Query.Fragment) : List Fault :=
  (fragmentCycles fragments.names [] fragments).filterMap cycleFault?

end StructQL
