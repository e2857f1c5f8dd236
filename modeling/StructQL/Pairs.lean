/-!
# Pairs by key

Lists of keys with values, in the order in which the keys came. Values are looked up by
`List.lookup`.

* `Pairs.put`: a value takes the place of its key's value, or goes to the end.
* `Pairs.ofList`: a key keeps its first place and its last value.
* `Pairs.addTo`, `Pairs.group`: the values of a key gathered where it came first.
-/

namespace StructQL.Pairs

variable {κ α : Type} [DecidableEq κ]

/-- A value takes the place of its key's value, or goes to the end. -/
def put (key : κ) (value : α) : List (κ × α) → List (κ × α)
  | [] => [(key, value)]
  | (k, v) :: rest => if k = key then (k, value) :: rest else (k, v) :: put key value rest

/-- **A key keeps its first place and its last value.** -/
def ofList (l : List (κ × α)) : List (κ × α) := l.foldl (fun all p => put p.1 p.2 all) []

/-- A value joins the group of its key, or opens a group at the end. -/
def addTo (key : κ) (value : α) : List (κ × List α) → List (κ × List α)
  | [] => [(key, [value])]
  | (k, group) :: rest =>
    if k = key then (k, group ++ [value]) :: rest else (k, group) :: addTo key value rest

/-- **Values gathered by key**: groups in the order in which their keys came, and in each
group the values in their own order. -/
def group (l : List (κ × α)) : List (κ × List α) :=
  l.foldl (fun groups p => addTo p.1 p.2 groups) []

theorem mem_of_lookup {l : List (κ × α)} {key : κ} {value : α}
    (h : l.lookup key = some value) : (key, value) ∈ l := by
  induction l with
  | nil => cases h
  | cons p rest ih =>
    rw [List.lookup_cons] at h
    split at h
    · rename_i hk
      cases h
      rw [beq_iff_eq] at hk
      subst hk
      exact List.mem_cons_self
    · exact List.mem_cons_of_mem _ (ih h)

theorem sizeOf_lookup_lt [SizeOf κ] [SizeOf α] {l : List (κ × α)} {key : κ} {value : α}
    (h : l.lookup key = some value) : sizeOf value < sizeOf l := by
  have := List.sizeOf_lt_of_mem (mem_of_lookup h)
  simp only [Prod.mk.sizeOf_spec] at this
  omega

end StructQL.Pairs
