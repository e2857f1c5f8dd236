import StructQL.Proofs.Schema.CycleSearch
import StructQL.Proofs.Schema.Instantiable
import StructQL.Schema.Valid

/-!
# Cycles that make a type impossible

A type outside the set of `Schema.instantiable` always has a forcing reference that stays outside.
The search that follows these references therefore never goes back, and ends with a cycle.

* `exists_unbreakableCycle?`: the search from a type outside the set ends with a cycle.
* `cycle_mem_cycleFaults_iff`: a cycle is reported for the structs outside the set.
-/

namespace StructQL

namespace Schema

variable {s : Schema} {name : Name}

/-- A struct or struct union without a value has a reference that the search can follow. -/
theorem unbreakableEdges_ne_nil (hs : s.isStructLike name = true) (h : name ∉ s.instantiable) :
    s.referenceGraph.unbreakableEdges s.instantiable name ≠ [] :=
  ReferenceGraph.unbreakableEdges_ne_nil (mem_nodes.2 hs) h

/-- The references that the search follows lead to structs and struct unions. -/
theorem isStructLike_of_mem_unbreakableEdges {instantiable : List Name} {r : Reference}
    (h : r ∈ s.referenceGraph.unbreakableEdges instantiable name) :
    s.isStructLike r.target = true := by
  obtain ⟨_, -, hr⟩ := exists_type_of_mem_edges (ReferenceGraph.mem_unbreakableEdges.1 h).1
  exact (of_mem_references hr).2

/-- **The search from a type without a value ends with a cycle.** -/
theorem exists_unbreakableCycle? (hs : s.isStructLike name = true) (h : name ∉ s.instantiable) :
    ∃ cycle, s.unbreakableCycle? s.instantiable name = some cycle := by
  rw [unbreakableCycle?, if_neg (by simpa using h)]
  refine ReferenceGraph.exists_cycle_of_search (fun node r hr => ?_)
    (unbreakableEdges_ne_nil hs h) _
  obtain ⟨-, -, -, hout⟩ := ReferenceGraph.mem_unbreakableEdges.1 hr
  exact unbreakableEdges_ne_nil (isStructLike_of_mem_unbreakableEdges hr) hout

/-- A cycle is found for the types that have no value. -/
theorem unbreakableCycle?_isSome_iff (hs : s.isStructLike name = true) :
    (s.unbreakableCycle? s.instantiable name).isSome = true ↔ name ∉ s.instantiable := by
  by_cases h : name ∈ s.instantiable
  · simp [unbreakableCycle?, h]
  · obtain ⟨cycle, hcycle⟩ := exists_unbreakableCycle? hs h
    rw [hcycle]
    exact iff_of_true rfl h

/-- **A cycle is reported for the structs that have no value.** -/
theorem cycle_mem_cycleFaults_iff {type : StructType}
    (h : s.type? name = some (.struct type)) :
    (∃ path, Fault.cycle name path ∈ s.cycleFaults) ↔ name ∉ s.instantiable := by
  rw [← unbreakableCycle?_isSome_iff (isStructLike_eq_true_iff.2 ⟨_, h, rfl⟩)]
  have hname : type.name = name := name_of_type? h
  unfold cycleFaults
  constructor
  · rintro ⟨path, hp⟩
    obtain ⟨t, -, hfault⟩ := List.mem_filterMap.1 hp
    obtain ⟨cycle, hcycle, hf⟩ := Option.map_eq_some_iff.1 hfault
    rw [← (Fault.cycle.inj hf).1, hcycle]
    rfl
  · intro hsome
    obtain ⟨cycle, hcycle⟩ := Option.isSome_iff_exists.1 hsome
    refine ⟨Reference.describe cycle, List.mem_filterMap.2 ⟨type, ?_, ?_⟩⟩
    · exact List.mem_filterMap.2 ⟨_, mem_of_type? h, rfl⟩
    · rw [hname, hcycle]
      rfl

end Schema

end StructQL
