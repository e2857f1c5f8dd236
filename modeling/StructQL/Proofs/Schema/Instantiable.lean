import StructQL.Proofs.Schema.ReferenceGraph

/-!
# The types that have a value

`ReferenceGraph.instantiable` is found in passes that add to the set while they go through the
nodes. It is a fixed point, and the least one.

* `known_of_unchanged`: visits that change nothing have found nothing to add.
* `pass_induction`: what holds of each node that can be built from nodes of which it holds is kept
  by a pass.
* `mem_instantiable_of_isBuildable`: **a node that can be built from the set is in it.**
* `instantiable_induction`: **the set is the least one of this kind.**
* `unbreakableEdges_ne_nil`: a node outside the set has a reference that the search can follow.
-/

namespace StructQL.ReferenceGraph

variable {g : ReferenceGraph} {p : Pass} {node : Name} {nodes known : List Name}

/-! ## A pass -/

/-- A change is not taken back. -/
theorem changed_visits (nodes : List Name) (h : p.changed = true) :
    (nodes.foldl g.visit p).changed = true := by
  refine List.foldlRecOn (motive := fun q : Pass => q.changed = true) nodes g.visit h
    fun q hq node _ => ?_
  rcases visit_cases g q node with ⟨hvisit, -⟩ | ⟨-, -, hvisit⟩
  · rwa [hvisit]
  · rw [hvisit]

/-- **Visits that change nothing** have found nothing to add. -/
theorem known_of_unchanged : ∀ {p : Pass}, (nodes.foldl g.visit p).changed = false →
    (nodes.foldl g.visit p).known = p.known ∧
      ∀ node ∈ nodes, g.isBuildable p.known node = true → node ∈ p.known := by
  induction nodes with
  | nil => exact fun _ => ⟨rfl, by simp⟩
  | cons node rest ih =>
    intro p hp
    rw [List.foldl_cons] at hp ⊢
    rcases visit_cases g p node with ⟨h, hold⟩ | ⟨-, -, h⟩
    · rw [h] at hp ⊢
      obtain ⟨hsame, hrest⟩ := ih hp
      refine ⟨hsame, fun other hother hbuild => ?_⟩
      rcases List.mem_cons.1 hother with rfl | hother
      · rcases hold with hknown | hnot
        · exact hknown
        · rw [hnot] at hbuild
          cases hbuild
      · exact hrest other hother hbuild
    · -- the node was added, which the rest of the pass does not take back
      have hchanged : (rest.foldl g.visit (g.visit p node)).changed = true :=
        changed_visits rest (by rw [h])
      rw [hchanged] at hp
      cases hp

/-- What holds of each node that can be built from nodes of which it holds **is kept by a pass**. -/
theorem pass_induction {P : Name → Prop} (hstep : ∀ known node, (∀ n ∈ known, P n) →
    node ∈ g.nodes → g.isBuildable known node = true → P node) (hknown : ∀ n ∈ known, P n) :
    ∀ n ∈ (g.pass known).known, P n := by
  refine List.foldlRecOn (motive := fun q : Pass => ∀ n ∈ q.known, P n) g.nodes g.visit hknown
    fun q hq node hnode => ?_
  rcases visit_cases g q node with ⟨h, -⟩ | ⟨-, hbuild, h⟩
  · rwa [h]
  · rw [h]
    intro n hn
    rcases List.mem_append.1 hn with hn | hn
    · exact hq n hn
    · rw [List.mem_singleton.1 hn]
      exact hstep q.known node hq hnode hbuild

/-! ## All passes -/

/-- **The set is closed**: a node that can be built from it is in it. -/
theorem mem_instantiable_of_isBuildable (hnode : node ∈ g.nodes)
    (hbuild : g.isBuildable g.instantiable node = true) : node ∈ g.instantiable := by
  suffices hpasses : ∀ known, g.isBuildable (g.passes known) node = true →
      node ∈ g.passes known from
    hpasses [] hbuild
  intro known
  fun_induction g.passes known with
  | case1 known _ ih => exact ih
  | case2 known hchanged =>
    -- the last pass has found nothing to add
    obtain ⟨hsame, hclosed⟩ : (g.pass known).known = known ∧
        ∀ node ∈ g.nodes, g.isBuildable known node = true → node ∈ known :=
      known_of_unchanged (p := ⟨known, false⟩) (Bool.eq_false_iff.2 hchanged)
    rw [hsame]
    exact hclosed node hnode

/-- **The set is the least closed one.** -/
theorem instantiable_induction {P : Name → Prop} (hstep : ∀ known node, (∀ n ∈ known, P n) →
    node ∈ g.nodes → g.isBuildable known node = true → P node) : ∀ n ∈ g.instantiable, P n := by
  suffices hpasses : ∀ known, (∀ n ∈ known, P n) → ∀ n ∈ g.passes known, P n from
    hpasses [] (by simp)
  intro known
  fun_induction g.passes known with
  | case1 known _ ih => exact fun hknown => ih (pass_induction hstep hknown)
  | case2 known _ => exact fun hknown => pass_induction hstep hknown

/-! ## What is left outside -/

/-- **A node outside the set has a reference to another one outside of it**: a struct because it has
not all that it needs, a struct union because it has members, but none in the set. -/
theorem unbreakableEdges_ne_nil (hnode : node ∈ g.nodes) (hout : node ∉ g.instantiable) :
    g.unbreakableEdges g.instantiable node ≠ [] := by
  have hbuild : ¬ g.isBuildable g.instantiable node = true := fun h =>
    hout (mem_instantiable_of_isBuildable hnode h)
  have hlacking : ∃ n ∈ g.required node, n ∉ g.instantiable := by
    unfold isBuildable at hbuild
    split at hbuild
    · rw [Bool.or_eq_true, not_or, List.isEmpty_iff] at hbuild
      obtain ⟨n, hn⟩ := List.exists_mem_of_ne_nil _ hbuild.1
      exact ⟨n, hn, fun hi => hbuild.2 (List.any_eq_true.2 ⟨n, hn, by simpa using hi⟩)⟩
    · simpa using hbuild
  obtain ⟨n, hn, hlacks⟩ := hlacking
  obtain ⟨r, hr, hsource, hforcing, rfl⟩ := mem_required.1 hn
  exact List.ne_nil_of_mem (mem_unbreakableEdges.2 ⟨hr, hsource, hforcing, hlacks⟩)

end StructQL.ReferenceGraph
