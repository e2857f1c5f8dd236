import StructQL.Schema.Instantiable

/-!
# The search for a cycle

From a type without a value a depth-first search follows the forcing references that lead to types
without one, and ends at the first reference back to the path.

* `ReferenceGraph.unbreakableEdges`: the references that are followed from a node.
* `CycleSearch`: where the search stands. Its stack, the nodes on the path and the references
  between them are kept side by side.
* `ReferenceGraph.step`, `Moves`: what a step does.
* `CycleSearch.Aligned`: the stack and the path have the same nodes, so that the search ends.
* `ReferenceGraph.search`: the steps, to the last one.
* `Schema.unbreakableCycle?`: a cycle that a type without a value leads to.
-/

namespace StructQL

/-- **Where a search stands.** -/
structure CycleSearch where
  /-- The nodes that lead to no cycle. -/
  acyclic : List Name
  /-- The nodes on the path, from the root on. -/
  onPath : List Name
  /-- The references along the path. -/
  path : List Reference
  /-- The nodes on the path with the references that are still to be followed from each, from the
  last one back to the root. -/
  stack : List (Name × List Reference)

/-- A reference goes before those with a later place in the graph. -/
def insertByPlace (e : Reference × Nat) : List (Reference × Nat) → List (Reference × Nat)
  | [] => [e]
  | other :: rest => if e.2 ≤ other.2 then e :: other :: rest else other :: insertByPlace e rest

/-- References by their places in the graph. -/
def sortByPlace (l : List (Reference × Nat)) : List (Reference × Nat) := l.foldr insertByPlace []

theorem perm_insertByPlace (e : Reference × Nat) (l : List (Reference × Nat)) :
    (insertByPlace e l).Perm (e :: l) := by
  induction l with
  | nil => exact .refl _
  | cons other rest ih =>
    rw [insertByPlace]
    split
    · exact .refl _
    · exact (ih.cons other).trans (.swap e other rest)

theorem perm_sortByPlace (l : List (Reference × Nat)) : (sortByPlace l).Perm l := by
  induction l with
  | nil => exact .refl _
  | cons e rest ih => exact (perm_insertByPlace e _).trans (ih.cons e)

namespace ReferenceGraph

variable (g : ReferenceGraph) (instantiable : List Name)

/-- **The references that are followed from a node**, the first one first: those that force a value
of a node without one. -/
def unbreakableEdges (node : Name) : List Reference :=
  (sortByPlace ((g.edgesFrom node).filter fun e =>
    e.1.forcing && !instantiable.contains e.1.target)).map Prod.fst

/-- The search from a node. -/
def start (root : Name) : CycleSearch :=
  ⟨[], [root], [], [(root, g.unbreakableEdges instantiable root)]⟩

/-- **A step of the search** follows the next reference from the last node of the path. It is
passed over if it leads to no cycle, and it closes one if it leads back to the path. From a node
that has no reference left the search goes back, and without a path it is over. -/
def step (t : CycleSearch) : CycleSearch ⊕ Option (List Reference) :=
  match t.stack with
  | [] => .inr none
  | (node, []) :: rest =>
    .inl ⟨t.acyclic ++ [node], t.onPath.dropLast, t.path.dropLast, rest⟩
  | (node, r :: pending) :: rest =>
    if t.acyclic.contains r.target then .inl { t with stack := (node, pending) :: rest }
    else
      match t.onPath.idxOf? r.target with
      | some position => .inr (some (t.path.drop position ++ [r]))
      | none =>
        .inl ⟨t.acyclic, t.onPath ++ [r.target], t.path ++ [r],
          (r.target, g.unbreakableEdges instantiable r.target) :: (node, pending) :: rest⟩

end ReferenceGraph

/-- **The moves of a search** that goes on. -/
inductive Moves (g : ReferenceGraph) (instantiable : List Name) :
    CycleSearch → CycleSearch → Prop where
  /-- From a node without references back to the one before. -/
  | back {acyclic onPath : List Name} {path : List Reference} {node : Name}
    {rest : List (Name × List Reference)} :
    Moves g instantiable ⟨acyclic, onPath, path, (node, []) :: rest⟩
      ⟨acyclic ++ [node], onPath.dropLast, path.dropLast, rest⟩
  /-- Past a reference that leads to no cycle. -/
  | skip {acyclic onPath : List Name} {path pending : List Reference} {node : Name} {r : Reference}
    {rest : List (Name × List Reference)} : r.target ∈ acyclic →
    Moves g instantiable ⟨acyclic, onPath, path, (node, r :: pending) :: rest⟩
      ⟨acyclic, onPath, path, (node, pending) :: rest⟩
  /-- Along a reference to a new node. -/
  | enter {acyclic onPath : List Name} {path pending : List Reference} {node : Name} {r : Reference}
    {rest : List (Name × List Reference)} : r.target ∉ acyclic → r.target ∉ onPath →
    Moves g instantiable ⟨acyclic, onPath, path, (node, r :: pending) :: rest⟩
      ⟨acyclic, onPath ++ [r.target], path ++ [r],
        (r.target, g.unbreakableEdges instantiable r.target) :: (node, pending) :: rest⟩

namespace ReferenceGraph

variable {g : ReferenceGraph} {instantiable : List Name} {t next : CycleSearch} {node : Name}

/-- A step that does not end the search is one of the moves. -/
theorem moves_of_step (h : g.step instantiable t = .inl next) : Moves g instantiable t next := by
  obtain ⟨acyclic, onPath, path, stack⟩ := t
  match stack with
  | [] => cases h
  | (node, []) :: rest =>
    obtain rfl := Sum.inl.inj h
    exact .back
  | (node, r :: pending) :: rest =>
    rw [step] at h
    dsimp only at h
    split at h
    · rename_i hacyclic
      obtain rfl := Sum.inl.inj h
      exact .skip (by simpa using hacyclic)
    · rename_i hacyclic
      split at h
      · cases h
      · rename_i hpath
        obtain rfl := Sum.inl.inj h
        exact .enter (by simpa using hacyclic) (List.idxOf?_eq_none_iff.1 hpath)

theorem mem_edges_of_mem_unbreakableEdges {r : Reference}
    (h : r ∈ g.unbreakableEdges instantiable node) : r ∈ g.edges := by
  obtain ⟨⟨_, i⟩, hmem, rfl⟩ := List.mem_map.1 h
  have hfrom := (List.mem_filter.1 ((perm_sortByPlace _).mem_iff.1 hmem)).1
  exact List.fst_mem_of_mem_zipIdx (List.mem_filter.1 (List.mem_reverse.1 hfrom)).1

theorem length_unbreakableEdges_le (g : ReferenceGraph) (instantiable : List Name) (node : Name) :
    (g.unbreakableEdges instantiable node).length ≤ g.edges.length := by
  rw [unbreakableEdges, List.length_map, (perm_sortByPlace _).length_eq]
  refine Nat.le_trans (List.length_filter_le _ _) ?_
  rw [edgesFrom, List.length_reverse]
  exact Nat.le_trans (List.length_filter_le _ _) (by simp)

end ReferenceGraph

namespace CycleSearch

variable {g : ReferenceGraph} {instantiable : List Name} {t next : CycleSearch}

/-- **The stack and the path have the same nodes**, and what is still to be followed are
references of the graph. -/
structure Aligned (g : ReferenceGraph) (t : CycleSearch) : Prop where
  onPath : t.onPath = (t.stack.map Prod.fst).reverse
  pending : ∀ frame ∈ t.stack, frame.2 ⊆ g.edges

theorem aligned_start (g : ReferenceGraph) (instantiable : List Name) (root : Name) :
    (g.start instantiable root).Aligned g where
  onPath := rfl
  pending := by
    intro frame hframe r hr
    obtain rfl := List.mem_singleton.1 hframe
    exact ReferenceGraph.mem_edges_of_mem_unbreakableEdges hr

/-- The stack and the path stay aligned. -/
theorem Aligned.moves (h : t.Aligned g) (hmove : Moves g instantiable t next) : next.Aligned g := by
  obtain ⟨honPath, hpending⟩ := h
  cases hmove with
  | back =>
    dsimp only at honPath
    refine ⟨?_, (List.forall_mem_cons.1 hpending).2⟩
    rw [honPath, List.map_cons, List.reverse_cons, List.dropLast_concat]
  | skip =>
    obtain ⟨hnode, hrest⟩ := List.forall_mem_cons.1 hpending
    have hless := List.Subset.trans (List.subset_cons_self _ _) hnode
    exact ⟨honPath, List.forall_mem_cons.2 ⟨hless, hrest⟩⟩
  | enter =>
    dsimp only at honPath
    obtain ⟨hnode, hrest⟩ := List.forall_mem_cons.1 hpending
    refine ⟨by simp [honPath], List.forall_mem_cons.2 ⟨?_, List.forall_mem_cons.2 ⟨?_, hrest⟩⟩⟩
    · exact fun r hr => ReferenceGraph.mem_edges_of_mem_unbreakableEdges hr
    · exact List.Subset.trans (List.subset_cons_self _ _) hnode

/-- The nodes that the search has come to. -/
def met (t : CycleSearch) : List Name := t.acyclic ++ t.onPath

/-- The references that are still to be followed from the nodes of a stack, and the ways back. -/
def work : List (Name × List Reference) → Nat
  | [] => 0
  | (_, pending) :: rest => pending.length + 1 + work rest

/-- So many steps are left at most: a reference to a new node brings no more work than the graph
has references. -/
def stepsLeft (g : ReferenceGraph) (t : CycleSearch) : Nat :=
  (unmet Reference.target g.edges t.met).length * (g.edges.length + 2) + work t.stack

/-- No node is forgotten: one that the search goes back from is kept as leading to no cycle. -/
theorem Aligned.met_subset (h : t.Aligned g) (hmove : Moves g instantiable t next) :
    t.met ⊆ next.met := by
  have honPath := h.onPath
  cases hmove with
  | @back acyclic onPath path node rest =>
    have hlast : onPath = onPath.dropLast ++ [node] := by
      rw [show onPath = _ from honPath, List.map_cons, List.reverse_cons, List.dropLast_concat]
    intro other hother
    rw [met, hlast] at hother
    simp only [met, List.mem_append] at hother ⊢
    grind
  | skip => exact List.Subset.refl _
  | enter =>
    rw [met, met, ← List.append_assoc]
    exact List.subset_append_left _ _

/-- **The search ends**: each move leaves fewer steps. -/
theorem Aligned.stepsLeft_lt (h : t.Aligned g) (hmove : Moves g instantiable t next) :
    next.stepsLeft g < t.stepsLeft g := by
  have hmet := h.met_subset hmove
  have hle := Nat.mul_le_mul_right (g.edges.length + 2)
    (length_unmet_le Reference.target g.edges hmet)
  unfold stepsLeft
  cases hmove with
  | back =>
    simp only [work, List.length_nil]
    omega
  | skip =>
    simp only [work, List.length_cons]
    omega
  | @enter acyclic onPath path pending node r rest hacyclic honPath =>
    -- the reference itself leads to a node that is new
    have hlt := length_unmet_lt Reference.target g.edges hmet
      (h.pending _ List.mem_cons_self (List.mem_cons_self (a := r)))
      (by simp [met, hacyclic, honPath]) (by simp [met])
    have hmul := Nat.mul_le_mul_right (g.edges.length + 2) (Nat.succ_le_of_lt hlt)
    rw [Nat.succ_mul] at hmul
    have hnext := g.length_unbreakableEdges_le instantiable r.target
    simp only [work, List.length_cons]
    omega

end CycleSearch

namespace ReferenceGraph

variable (g : ReferenceGraph) (instantiable : List Name)

/-- **The search goes on** to its last step, which finds a cycle or none. -/
def search (t : CycleSearch) (h : t.Aligned g) : Option (List Reference) :=
  match hstep : g.step instantiable t with
  | .inl next => search next (h.moves (moves_of_step hstep))
  | .inr found => found
termination_by t.stepsLeft g
decreasing_by exact h.stepsLeft_lt (moves_of_step hstep)

end ReferenceGraph

/-- **A cycle that makes it impossible to build a value of the type**, if there is one. -/
def Schema.unbreakableCycle? (s : Schema) (instantiable : List Name) (name : Name) :
    Option (List Reference) :=
  if instantiable.contains name then none
  else s.referenceGraph.search instantiable _
    (CycleSearch.aligned_start s.referenceGraph instantiable name)

end StructQL
