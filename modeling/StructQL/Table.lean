import StructQL.Name

/-!
# Tables

A table lists things with distinct names in the order in which they came, as schemas,
field lists and fragment definitions do.

* `Table`: the list, with the proof that no two of its things share a name.
* `Table.find?`: the thing of a name.
* `Table.put`: a thing takes the place of its namesake, or goes to the end.
* `Table.addNew`: a thing goes to the end unless it has a namesake.
* `Table.erase`: the table without the thing of a name.
-/

namespace StructQL

/-- **Things with distinct names**, in the order in which they came. -/
structure Table (α : Type) [Named α] where
  toList : List α
  nodup : (toList.map Named.nameOf).Nodup

namespace Table

variable {α : Type} [Named α]

instance [DecidableEq α] : DecidableEq (Table α) := fun a b =>
  if h : a.toList = b.toList then
    .isTrue (by cases a; cases b; cases h; rfl)
  else
    .isFalse (fun e => h (by rw [e]))

/-- No thing at all. -/
def empty : Table α := ⟨[], List.nodup_nil⟩

/-- The names, in order. -/
def names (t : Table α) : List Name := t.toList.map Named.nameOf

/-- The number of things. -/
def size (t : Table α) : Nat := t.toList.length

/-- The thing of a name. -/
def find? (t : Table α) (name : Name) : Option α :=
  t.toList.find? fun a => Named.nameOf a = name

/-- Some thing has the name. -/
def contains (t : Table α) (name : Name) : Bool := t.names.contains name

theorem contains_of_find? {t : Table α} {name : Name} {a : α} (h : t.find? name = some a) :
    t.contains name = true := by
  have hn : Named.nameOf a = name := by simpa using List.find?_some h
  simp only [contains, names, List.contains_iff_mem, List.mem_map]
  exact ⟨a, List.mem_of_find?_eq_some h, hn⟩

theorem exists_find?_of_contains {t : Table α} {name : Name} (h : t.contains name = true) :
    ∃ a, t.find? name = some a := by
  simp only [contains, names, List.contains_iff_mem, List.mem_map] at h
  obtain ⟨a, ha, hn⟩ := h
  exact Option.isSome_iff_exists.1 (List.find?_isSome.2 ⟨a, ha, by simpa using hn⟩)

/-- A thing is found under its own name. -/
theorem find?_of_mem {t : Table α} {a : α} (h : a ∈ t.toList) :
    t.find? (Named.nameOf a) = some a := by
  obtain ⟨l, hnd⟩ := t
  dsimp only [find?] at h ⊢
  induction l with
  | nil => cases h
  | cons b l ih =>
    rw [List.map_cons, List.nodup_cons] at hnd
    rcases List.mem_cons.1 h with rfl | h
    · simp
    · have hne : Named.nameOf b ≠ Named.nameOf a := fun he =>
        hnd.1 (he ▸ List.mem_map_of_mem h)
      rw [List.find?_cons_of_neg (by simpa using hne)]
      exact ih hnd.2 h

/-- The thing takes the place of its namesake. -/
def replaceIn (a : α) (l : List α) : List α :=
  l.map fun b => if Named.nameOf b = Named.nameOf a then a else b

theorem map_nameOf_replaceIn (a : α) (l : List α) :
    (replaceIn a l).map Named.nameOf = l.map Named.nameOf := by
  unfold replaceIn
  rw [List.map_map]
  apply List.map_congr_left
  intro b _
  by_cases h : Named.nameOf b = Named.nameOf a <;> simp [h]

theorem nodup_append_new {t : Table α} {a : α} (h : ¬ t.contains (Named.nameOf a)) :
    ((t.toList ++ [a]).map Named.nameOf).Nodup := by
  rw [List.map_append, List.nodup_append]
  refine ⟨t.nodup, by simp, ?_⟩
  intro x hx y hy hxy
  simp only [List.map_cons, List.map_nil, List.mem_singleton] at hy
  subst hy; subst hxy
  exact h (by simpa [contains, names] using hx)

/-- A thing takes the place of its namesake, or goes to the end. -/
def put (t : Table α) (a : α) : Table α :=
  if h : t.contains (Named.nameOf a) then
    ⟨replaceIn a t.toList, by rw [map_nameOf_replaceIn]; exact t.nodup⟩
  else
    ⟨t.toList ++ [a], nodup_append_new h⟩

/-- A thing goes to the end unless it has a namesake. -/
def addNew (t : Table α) (a : α) : Table α :=
  if h : t.contains (Named.nameOf a) then t else ⟨t.toList ++ [a], nodup_append_new h⟩

/-- Each name goes to the first thing that bears it. -/
def ofFirsts (l : List α) : Table α := l.foldl addNew empty

/-- The table without the thing of a name. -/
def erase (t : Table α) (name : Name) : Table α :=
  ⟨t.toList.filter fun a => Named.nameOf a ≠ name,
    t.nodup.sublist (List.filter_sublist.map _)⟩

theorem size_erase_lt {t : Table α} {name : Name} (h : t.contains name = true) :
    (t.erase name).size < t.size := by
  simp only [contains, names, List.contains_iff_mem, List.mem_map] at h
  obtain ⟨a, ha, hn⟩ := h
  exact List.length_filter_lt_length_iff_exists.2 ⟨a, ha, by simp [hn]⟩

theorem contains_erase {t : Table α} {name other : Name} (h : t.contains name = true)
    (hne : name ≠ other) : (t.erase other).contains name = true := by
  simp only [contains, names, List.contains_iff_mem, List.mem_map] at h ⊢
  obtain ⟨a, ha, hn⟩ := h
  exact ⟨a, List.mem_filter.2 ⟨ha, by simpa [hn] using hne⟩, hn⟩

end Table

end StructQL
