import StructQL.Proofs.Schema.ReferenceGraph

/-!
# What a search keeps

The search holds its path three times: as nodes, as the references between them, and as the nodes of
its stack. Each move keeps them side by side, so that the references from the place of a node on are
those that lead from this node to the end of the path.

* `end_of_step`: what the last step has come to.
* `exists_last_of_search`: what each move keeps is true when the search ends.
* `Tracks`: the references along the path lead from node to node of the stack.
* `Tracks.moves`: **each move keeps the path and the stack side by side.**
* `GoesAhead`: the search has not gone back, and has a reference to follow.
* `exists_cycle_of_search`: a search that always has a reference to follow **ends with a cycle**.
* `search_congr`: the graph matters to the search only by the references that are followed.
-/

namespace StructQL

variable {g : ReferenceGraph} {instantiable : List Name} {t next : CycleSearch}

namespace ReferenceGraph

/-! ## From step to step -/

theorem search_of_next (h : t.Aligned g) (hstep : g.step instantiable t = .inl next) :
    g.search instantiable t h =
      g.search instantiable next (h.moves (moves_of_step hstep)) := by
  rw [search]
  split
  · rename_i other hother
    obtain rfl := Sum.inl.inj (hstep.symm.trans hother)
    rfl
  · rename_i found hfound
    rw [hstep] at hfound
    cases hfound

theorem search_of_end {found : Option (List Reference)} (h : t.Aligned g)
    (hstep : g.step instantiable t = .inr found) : g.search instantiable t h = found := by
  rw [search]
  split
  · rename_i next hnext
    rw [hstep] at hnext
    cases hnext
  · rename_i other hother
    exact Sum.inr.inj (hother.symm.trans hstep)

/-- **The last step** has no path left, or comes to a reference that leads back to the path. -/
theorem end_of_step {found : Option (List Reference)} (hstep : g.step instantiable t = .inr found) :
    t.stack = [] ∧ found = none ∨
      ∃ node r pending rest position, t.stack = (node, r :: pending) :: rest ∧
        t.onPath.idxOf? r.target = some position ∧
        found = some (t.path.drop position ++ [r]) := by
  obtain ⟨acyclic, onPath, path, stack⟩ := t
  match stack with
  | [] => exact .inl ⟨rfl, (Sum.inr.inj hstep).symm⟩
  | (node, []) :: rest => cases hstep
  | (node, r :: pending) :: rest =>
    rw [step] at hstep
    dsimp only at hstep
    split at hstep
    · cases hstep
    · split at hstep
      · rename_i position hposition
        exact .inr ⟨node, r, pending, rest, position, rfl, hposition, (Sum.inr.inj hstep).symm⟩
      · cases hstep

/-- **What each move keeps is true when the search ends**, at a last step that tells what is
found. -/
theorem exists_last_of_search {P : CycleSearch → Prop}
    (hmoves : ∀ t next, t.Aligned g → P t → Moves g instantiable t next → P next)
    (h : t.Aligned g) (ht : P t) :
    ∃ last, last.Aligned g ∧ P last ∧
      g.step instantiable last = .inr (g.search instantiable t h) := by
  fun_induction g.search instantiable t h with
  | case1 t h next hstep ih => exact ih (hmoves t next h ht (moves_of_step hstep))
  | case2 t h found hstep => exact ⟨t, h, ht, hstep⟩

/-- **The graph matters to a search** only by the references that are followed. -/
theorem search_congr {g' : ReferenceGraph} {instantiable' : List Name}
    (hsame : ∀ node, g.unbreakableEdges instantiable node = g'.unbreakableEdges instantiable' node)
    (h : t.Aligned g) (h' : t.Aligned g') :
    g.search instantiable t h = g'.search instantiable' t h' := by
  have hsteps : ∀ t, g.step instantiable t = g'.step instantiable' t := fun t => by
    unfold step
    simp only [hsame]
  fun_induction g.search instantiable t h with
  | case1 t h next hstep ih =>
    rw [search_of_next h' (hsteps t ▸ hstep)]
    exact ih _
  | case2 t h found hstep => rw [search_of_end h' (hsteps t ▸ hstep)]

end ReferenceGraph

/-! ## The path and the stack -/

/-- **The references along the path lead from node to node of the stack**, starting at the root, and
no node comes twice. What is still to be followed are references that the search may follow. -/
inductive Tracks (g : ReferenceGraph) (instantiable : List Name) (root : Name) :
    List Reference → List (Name × List Reference) → Prop where
  | ended : Tracks g instantiable root [] []
  | root {pending : List Reference} : pending ⊆ g.unbreakableEdges instantiable root →
    Tracks g instantiable root [] [(root, pending)]
  | enter {path pending after : List Reference} {node : Name} {r : Reference}
    {rest : List (Name × List Reference)} :
    Tracks g instantiable root path ((node, pending) :: rest) →
    r ∈ g.unbreakableEdges instantiable node →
    r.target ∉ ((node, pending) :: rest).map Prod.fst →
    after ⊆ g.unbreakableEdges instantiable r.target →
    Tracks g instantiable root (path ++ [r]) ((r.target, after) :: (node, pending) :: rest)

namespace Tracks

variable {root node : Name} {path pending : List Reference} {r : Reference}
  {rest : List (Name × List Reference)}

theorem pending_subset (h : Tracks g instantiable root path ((node, pending) :: rest)) :
    pending ⊆ g.unbreakableEdges instantiable node := by
  cases h with
  | root hpending => exact hpending
  | enter _ _ _ hafter => exact hafter

theorem skip (h : Tracks g instantiable root path ((node, r :: pending) :: rest)) :
    Tracks g instantiable root path ((node, pending) :: rest) := by
  have hless : pending ⊆ r :: pending := fun _ => List.mem_cons_of_mem r
  cases h with
  | root hpending => exact .root (List.Subset.trans hless hpending)
  | enter hbefore hr hnew hafter => exact .enter hbefore hr hnew (List.Subset.trans hless hafter)

theorem back (h : Tracks g instantiable root path ((node, pending) :: rest)) :
    Tracks g instantiable root path.dropLast rest := by
  cases h with
  | root => exact .ended
  | enter hbefore =>
    rw [List.dropLast_concat]
    exact hbefore

/-- **Each move keeps the path and the stack side by side.** -/
theorem moves (h : Tracks g instantiable root t.path t.stack) (ht : t.Aligned g)
    (hmove : Moves g instantiable t next) : Tracks g instantiable root next.path next.stack := by
  cases hmove with
  | back => exact h.back
  | skip => exact h.skip
  | @enter acyclic onPath path pending node r rest _ hnew =>
    have honPath : onPath = (((node, r :: pending) :: rest).map Prod.fst).reverse := ht.onPath
    refine .enter h.skip (h.pending_subset List.mem_cons_self) ?_ (List.Subset.refl _)
    rw [honPath, List.mem_reverse] at hnew
    exact hnew

/-- The nodes of the stack are those that the references along the path start from, and the last
node. -/
theorem nodes_eq (h : Tracks g instantiable root path ((node, pending) :: rest)) :
    (((node, pending) :: rest).map Prod.fst).reverse = path.map Reference.source ++ [node] := by
  generalize hstack : (node, pending) :: rest = stack at h
  induction h generalizing node pending rest with
  | ended => cases hstack
  | root =>
    cases hstack
    rfl
  | @enter path pending after node r rest _ hr _ _ ih =>
    cases hstack
    have hsource : r.source = node := (ReferenceGraph.mem_unbreakableEdges.1 hr).2.1
    rw [List.map_cons, List.reverse_cons, ih rfl, List.map_append, List.map_singleton, hsource]

end Tracks

/-! ## The way ahead -/

/-- **The search has only gone ahead**, and has a reference to follow from the last node of its
path. -/
def CycleSearch.GoesAhead (t : CycleSearch) : Prop :=
  t.acyclic = [] ∧ ∃ node r pending rest, t.stack = (node, r :: pending) :: rest

namespace ReferenceGraph

variable {root : Name}

/-- A search that can always follow a reference goes ahead. -/
theorem goesAhead_of_moves
    (hahead : ∀ node, ∀ r ∈ g.unbreakableEdges instantiable node,
      g.unbreakableEdges instantiable r.target ≠ [])
    (htracks : Tracks g instantiable root t.path t.stack) (h : t.GoesAhead)
    (hmove : Moves g instantiable t next) : next.GoesAhead := by
  obtain ⟨hacyclic, _, _, _, _, hstack⟩ := h
  cases hmove with
  | back => cases hstack
  | skip hmem =>
    obtain rfl : _ = [] := hacyclic
    cases hmem
  | @enter acyclic onPath path pending node r rest =>
    have hr := htracks.pending_subset List.mem_cons_self
    obtain ⟨first, others, hfirst⟩ := List.exists_cons_of_ne_nil (hahead node r hr)
    exact ⟨hacyclic, r.target, first, others, (node, pending) :: rest, by rw [hfirst]⟩

/-- A search that goes ahead does not end without a cycle. -/
theorem exists_cycle_of_step {found : Option (List Reference)} (h : t.GoesAhead)
    (hstep : g.step instantiable t = .inr found) : ∃ cycle, found = some cycle := by
  obtain ⟨-, _, _, _, _, hstack⟩ := h
  rcases end_of_step hstep with ⟨hempty, -⟩ | ⟨_, _, _, _, _, -, -, hfound⟩
  · rw [hempty] at hstack
    cases hstack
  · exact ⟨_, hfound⟩

/-- **A search that can always follow a reference ends with a cycle.** -/
theorem exists_cycle_of_search
    (hahead : ∀ node, ∀ r ∈ g.unbreakableEdges instantiable node,
      g.unbreakableEdges instantiable r.target ≠ [])
    (hroot : g.unbreakableEdges instantiable root ≠ [])
    (h : (g.start instantiable root).Aligned g) :
    ∃ cycle, g.search instantiable _ h = some cycle := by
  obtain ⟨first, others, hfirst⟩ := List.exists_cons_of_ne_nil hroot
  obtain ⟨last, -, ⟨-, hlast⟩, hstep⟩ := exists_last_of_search
    (P := fun t => Tracks g instantiable root t.path t.stack ∧ t.GoesAhead)
    (fun t next ht hP hmove => ⟨hP.1.moves ht hmove, goesAhead_of_moves hahead hP.1 hP.2 hmove⟩)
    h ⟨.root (List.Subset.refl _), rfl, root, first, others, [], by rw [start, hfirst]⟩
  exact exists_cycle_of_step hlast hstep

/-- **What a search finds**: a reference leads from the end of the path back to a node on it, and
the cycle has the references from the place of this node on. -/
theorem path_of_search {cycle : List Reference} (h : (g.start instantiable root).Aligned g)
    (hfound : g.search instantiable _ h = some cycle) :
    ∃ path node r pending rest position,
      Tracks g instantiable root path ((node, r :: pending) :: rest) ∧
      (path.map Reference.source ++ [node]).idxOf? r.target = some position ∧
      cycle = path.drop position ++ [r] := by
  obtain ⟨last, halign, htracks, hstep⟩ := exists_last_of_search
    (P := fun t => Tracks g instantiable root t.path t.stack)
    (fun t next ht hP hmove => hP.moves ht hmove) h (.root (List.Subset.refl _))
  rw [hfound] at hstep
  rcases end_of_step hstep with ⟨-, hnone⟩ |
    ⟨node, r, pending, rest, position, hstack, hposition, hcycle⟩
  · cases hnone
  · have honPath := halign.onPath
    rw [hstack] at htracks honPath
    rw [honPath, htracks.nodes_eq] at hposition
    exact ⟨last.path, node, r, pending, rest, position, htracks, hposition,
      Option.some.inj hcycle⟩

end ReferenceGraph

end StructQL
