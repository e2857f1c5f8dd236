import Mathlib.Data.List.Perm.Basic
import StructQL.Proofs.Fault.Report
import StructQL.Proofs.Schema.CycleSearch
import StructQL.Proofs.Schema.LeastFixedPoint
import StructQL.Proofs.Table
import StructQL.Schema.Valid

/-!
# The same types in another order

What is wrong with a schema does not depend on the order of its types. The passes that find the types
with a value come to them in another order, but they find the least closed set. The search for a cycle
compares only places of references of one type, and these keep their order.

* `Schema.Rearranged`: the same types, in another order.
* `Rearranged.mem_instantiable_iff`: the same types have a value.
* `Rearranged.unbreakableCycle?_eq`: the same cycle shows that a type has none.
* `Rearranged.shapeFaults_perm`: **the same is wrong with the structs and struct unions.**
-/

namespace StructQL.Schema

/-- **The same types, in another order.** -/
def Rearranged (s s' : Schema) : Prop := s.types.toList.Perm s'.types.toList

namespace Rearranged

variable {s s' : Schema} (h : s.Rearranged s')

include h

/-! ## Types -/

theorem type?_eq (name : Name) : s.type? name = s'.type? name := Table.find?_eq_of_perm h name

theorem kind?_eq (name : Name) : s.kind? name = s'.kind? name := by
  rw [kind?, kind?, h.type?_eq]

theorem isStructLike_eq (name : Name) : s.isStructLike name = s'.isStructLike name := by
  rw [isStructLike, isStructLike, h.kind?_eq]

theorem structs_perm : s.structs.Perm s'.structs := List.Perm.filterMap _ h

theorem structUnions_perm : s.structUnions.Perm s'.structUnions := List.Perm.filterMap _ h

/-! ## Types that have a value -/

theorem canBuild_iff (K : Set Name) (type : TypeDefinition) :
    s.CanBuild K type ↔ s'.CanBuild K type := by
  cases type <;> simp only [CanBuild, h.isStructLike_eq]

theorem isClosed_iff (K : Set Name) : s.IsClosed K ↔ s'.IsClosed K := by
  simp only [IsClosed, h.type?_eq, h.canBuild_iff]

/-- **The same types have a value**: they are the least set that is closed in both schemas. -/
theorem mem_instantiable_iff (name : Name) : name ∈ s.instantiable ↔ name ∈ s'.instantiable := by
  rw [Schema.mem_instantiable_iff, Schema.mem_instantiable_iff]
  simp only [h.isClosed_iff]

/-! ## Cycles -/

/-- The references of a type stand in the order of its fields or members. -/
theorem references_eq (type : TypeDefinition) : s.references type = s'.references type := by
  have hlike : s.isStructLike = s'.isStructLike := funext h.isStructLike_eq
  unfold references
  rw [hlike]

/-- **The search follows the same references from a type**: it compares places of references of one
type only, and these keep their order. -/
theorem unbreakableEdges_eq (name : Name) :
    s.referenceGraph.unbreakableEdges s.instantiable name =
      s'.referenceGraph.unbreakableEdges s'.instantiable name := by
  have hcontains : s.instantiable.contains = s'.instantiable.contains := by
    funext other
    rw [Bool.eq_iff_iff, List.contains_iff_mem, List.contains_iff_mem]
    exact h.mem_instantiable_iff other
  have hreferences : s.references = s'.references := funext h.references_eq
  rw [ReferenceGraph.unbreakableEdges_eq, ReferenceGraph.unbreakableEdges_eq, filter_edges,
    filter_edges, h.type?_eq, hreferences, hcontains]

/-- **The same cycle shows that a type has no value.** -/
theorem unbreakableCycle?_eq (name : Name) :
    s.unbreakableCycle? s.instantiable name = s'.unbreakableCycle? s'.instantiable name := by
  unfold unbreakableCycle?
  by_cases hmem : name ∈ s.instantiable
  · have hmem' := (h.mem_instantiable_iff name).1 hmem
    rw [if_pos (by simpa using hmem), if_pos (by simpa using hmem')]
  · have hmem' := mt (h.mem_instantiable_iff name).2 hmem
    have hstart : s.referenceGraph.start s.instantiable name =
        s'.referenceGraph.start s'.instantiable name := by
      rw [ReferenceGraph.start, ReferenceGraph.start, h.unbreakableEdges_eq]
    rw [if_neg (by simpa using hmem), if_neg (by simpa using hmem')]
    simp only [hstart]
    exact ReferenceGraph.search_congr h.unbreakableEdges_eq _ _

theorem cycleFaults_perm : s.cycleFaults.Perm s'.cycleFaults := by
  unfold cycleFaults
  dsimp only
  simp only [h.unbreakableCycle?_eq]
  exact h.structs_perm.filterMap _

/-! ## Fields and members -/

theorem structFaults_eq (type : StructType) : s.structFaults type = s'.structFaults type := by
  have hfield : s.fieldFaults type.name = s'.fieldFaults type.name := by
    funext field
    unfold fieldFaults
    dsimp only
    rw [h.kind?_eq]
  unfold structFaults
  rw [hfield]

theorem membersFaults_eq (union : Name) (seen members : List Name) :
    s.membersFaults union seen members = s'.membersFaults union seen members := by
  induction members generalizing seen with
  | nil => rfl
  | cons member rest ih =>
    rw [membersFaults, membersFaults, memberFaults, memberFaults, h.kind?_eq, ih]

theorem unionFaults_eq (type : UnionType) : s.unionFaults type = s'.unionFaults type := by
  unfold unionFaults
  rw [h.membersFaults_eq]

/-! ## The verdict -/

/-- **The same is wrong with the structs and struct unions**, with the same cycles. -/
theorem shapeFaults_perm : s.shapeFaults.Perm s'.shapeFaults := by
  have hstruct : s.structFaults = s'.structFaults := funext h.structFaults_eq
  have hunion : s.unionFaults = s'.unionFaults := funext h.unionFaults_eq
  unfold shapeFaults
  rw [hstruct, hunion]
  exact ((h.structs_perm.flatMap_right _).append (h.structUnions_perm.flatMap_right _)).append
    h.cycleFaults_perm

end Rearranged

theorem faultsOf_validate (s : Schema) :
    faultsOf s.validate = (Report.ofList s.shapeFaults).faults := by
  unfold validate
  split
  · rename_i h
    rw [h]
    rfl
  · exact Failure.faults_ofReport _

theorem exists_validate_iff {s : Schema} :
    (∃ valid, s.validate = .ok valid) ↔ s.shapeFaults = [] := by
  unfold validate
  split
  · rename_i h
    exact iff_of_true ⟨_, rfl⟩ h
  · rename_i h
    exact iff_of_false nofun h

end StructQL.Schema
