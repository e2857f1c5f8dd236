import StructQL.Schema.References

/-!
# The types that have a value

The nodes of a graph of references are visited in passes. A node is added when a value of it can be
built from values of those that were added before, in the same pass too. The first pass that adds
nothing is the last one.

* `unmet`: what is left of a list when some names have been met, by which loops are bounded.
* `ReferenceGraph.visit`, `ReferenceGraph.pass`: one node, and all nodes in turn.
* `ReferenceGraph.instantiable`: the nodes that have a value.
* `Schema.instantiable`: the structs and struct unions that have one.
-/

namespace StructQL

section Unmet

variable {α : Type} (name : α → Name) (l : List α) {met more : List Name}

/-- **What is left** of a list when some names have been met. -/
def unmet (met : List Name) : List α := l.filter fun a => !met.contains (name a)

theorem unmet_of_subset (h : met ⊆ more) :
    unmet name l more = (unmet name l met).filter fun a => !more.contains (name a) := by
  rw [unmet, unmet, List.filter_filter]
  refine List.filter_congr fun a _ => ?_
  by_cases hmet : name a ∈ met
  · simp [hmet, h hmet]
  · simp [hmet]

/-- Nothing comes back when more names have been met. -/
theorem length_unmet_le (h : met ⊆ more) :
    (unmet name l more).length ≤ (unmet name l met).length := by
  rw [unmet_of_subset name l h]
  exact List.length_filter_le _ _

/-- Less is left when a name is met that the list has. -/
theorem length_unmet_lt (h : met ⊆ more) {a : α} (ha : a ∈ l) (hnew : name a ∉ met)
    (hmet : name a ∈ more) : (unmet name l more).length < (unmet name l met).length := by
  rw [unmet_of_subset name l h, List.length_filter_lt_length_iff_exists]
  exact ⟨a, List.mem_filter.2 ⟨ha, by simpa using hnew⟩, by simpa using hmet⟩

end Unmet

namespace ReferenceGraph

variable (g : ReferenceGraph)

/-- A value of the node can be built from values of the known ones. -/
def isBuildable (known : List Name) (node : Name) : Bool :=
  if g.unions.contains node then
    (g.required node).isEmpty || (g.required node).any known.contains
  else (g.required node).all known.contains

/-- **A pass over the nodes**: those that have a value as far as is known, and whether this pass
has added some. -/
structure Pass where
  known : List Name
  changed : Bool

/-- A node is added if it is new and a value of it can be built. -/
def visit (p : Pass) (node : Name) : Pass :=
  if p.known.contains node then p
  else if g.isBuildable p.known node then ⟨p.known ++ [node], true⟩
  else p

/-- All nodes in turn. -/
def pass (known : List Name) : Pass := g.nodes.foldl g.visit ⟨known, false⟩

/-! ## What a pass adds -/

variable {g} {nodes known : List Name}

/-- What a visit does to a node. -/
theorem visit_cases (g : ReferenceGraph) (p : Pass) (node : Name) :
    g.visit p node = p ∧ (node ∈ p.known ∨ g.isBuildable p.known node = false) ∨
      node ∉ p.known ∧ g.isBuildable p.known node = true ∧
        g.visit p node = ⟨p.known ++ [node], true⟩ := by
  unfold visit
  by_cases hknown : node ∈ p.known
  · exact .inl ⟨by simp [hknown], .inl hknown⟩
  · cases hbuild : g.isBuildable p.known node with
    | false => exact .inl ⟨by simp, .inr rfl⟩
    | true => exact .inr ⟨hknown, rfl, by simp [hknown]⟩

theorem known_subset_visits (g : ReferenceGraph) (nodes : List Name) (p : Pass) :
    p.known ⊆ (nodes.foldl g.visit p).known := by
  refine List.foldlRecOn (motive := fun q : Pass => p.known ⊆ q.known) nodes g.visit
    (List.Subset.refl _) fun q hq node _ => ?_
  rcases visit_cases g q node with ⟨h, -⟩ | ⟨-, -, h⟩
  · rwa [h]
  · rw [h]
    exact List.subset_append_of_subset_left _ hq

/-- Visits that change something add one of the nodes. -/
theorem exists_added_of_visits : ∀ {p : Pass}, p.changed = false →
    (nodes.foldl g.visit p).changed = true →
    ∃ node ∈ nodes, node ∉ p.known ∧ node ∈ (nodes.foldl g.visit p).known := by
  induction nodes with
  | nil =>
    intro p hp hchanged
    rw [List.foldl_nil, hp] at hchanged
    cases hchanged
  | cons node rest ih =>
    intro p hp hchanged
    rcases visit_cases g p node with ⟨h, -⟩ | ⟨hnew, -, h⟩
    · rw [List.foldl_cons, h] at hchanged ⊢
      obtain ⟨other, hmem, hadded⟩ := ih hp hchanged
      exact ⟨other, List.mem_cons_of_mem _ hmem, hadded⟩
    · have hadded : node ∈ p.known ++ [node] := List.mem_append_right _ List.mem_cons_self
      rw [List.foldl_cons, h]
      exact ⟨node, List.mem_cons_self, hnew, known_subset_visits g rest _ hadded⟩

/-- **A pass that changes something leaves fewer nodes.** -/
theorem length_unmet_pass_lt (h : (g.pass known).changed = true) :
    (unmet id g.nodes (g.pass known).known).length < (unmet id g.nodes known).length := by
  obtain ⟨node, hmem, hnew, hadded⟩ :
      ∃ node ∈ g.nodes, node ∉ known ∧ node ∈ (g.pass known).known := exists_added_of_visits rfl h
  have hkeeps : known ⊆ (g.pass known).known := known_subset_visits g g.nodes ⟨known, false⟩
  exact length_unmet_lt id g.nodes hkeeps hmem hnew hadded

variable (g) in
/-- Passes, one after another, until one adds nothing. -/
def passes (known : List Name) : List Name :=
  if (g.pass known).changed then passes (g.pass known).known else (g.pass known).known
termination_by (unmet id g.nodes known).length
decreasing_by exact length_unmet_pass_lt ‹_›

variable (g) in
/-- **The nodes that have a value.** -/
def instantiable : List Name := g.passes []

end ReferenceGraph

/-- **The types that have a value.** -/
def Schema.instantiable (s : Schema) : List Name := s.referenceGraph.instantiable

end StructQL
