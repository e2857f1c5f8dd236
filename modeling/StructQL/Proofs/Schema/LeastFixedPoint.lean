import Mathlib.Order.Bounds.Basic
import StructQL.Proofs.Schema.Instantiable

/-!
# The types that have a value, as a least set

* `Schema.CanBuild`: a value of a type can be built from values of the types of a set.
* `Schema.IsClosed`: a set has all types that can be built from it.
* `isLeast_instantiable`: **the types that have a value are the least closed set.**
-/

namespace StructQL

namespace Schema

/-- **A value of the type can be built** from values of the types of a set: of a struct, if the set
has all structs and struct unions that its fields refer to, one at a time and not nullable; of a
struct union, if the set has one of its members, or if no member is a struct or struct union. -/
def CanBuild (s : Schema) (K : Set Name) : TypeDefinition → Prop
  | .struct type => ∀ field ∈ type.fields.toList, ∀ name,
      field.type = .named name true → s.isStructLike name = true → name ∈ K
  | .structUnion type =>
    (∀ member ∈ type.members, s.isStructLike member = false) ∨
      ∃ member ∈ type.members, s.isStructLike member = true ∧ member ∈ K
  | _ => False

/-- **The set has all types that can be built from it.** -/
def IsClosed (s : Schema) (K : Set Name) : Prop :=
  ∀ name type, s.type? name = some type → s.CanBuild K type → name ∈ K

variable {s : Schema} {type : TypeDefinition}

theorem CanBuild.kind {K : Set Name} (h : s.CanBuild K type) :
    type.kind.isStructLike = true := by
  cases type with
  | struct _ => rfl
  | structUnion _ => rfl
  | _ => exact h.elim

/-- What can be built from a set can be built from a larger one. -/
theorem CanBuild.mono {K L : Set Name} (hKL : K ⊆ L) (h : s.CanBuild K type) :
    s.CanBuild L type := by
  cases type with
  | struct struct =>
    intro field hf name htype hlike
    exact hKL (h field hf name htype hlike)
  | structUnion union =>
    rcases h with hnone | ⟨member, hm, hlike, hK⟩
    · exact .inl hnone
    · exact .inr ⟨member, hm, hlike, hKL hK⟩
  | _ => exact h.elim

/-- **What the passes test** is whether a value of the type can be built from the known ones. -/
theorem isBuildable_iff_canBuild {known : List Name} {name : Name}
    (htype : s.type? name = some type) (hlike : type.kind.isStructLike = true) :
    s.referenceGraph.isBuildable known name = true ↔ s.CanBuild {n | n ∈ known} type := by
  cases type with
  | struct struct =>
    have hunion : name ∉ s.referenceGraph.unions := by
      rw [mem_unions, htype]
      rintro ⟨union, h⟩
      cases h
    have hall : s.referenceGraph.isBuildable known name = true ↔
        ∀ other ∈ s.referenceGraph.required name, other ∈ known := by
      simp [ReferenceGraph.isBuildable, hunion]
    rw [hall]
    constructor
    · intro hreq field hf other hfield hlike
      exact hreq other ((mem_required_struct htype).2 ⟨hlike, field, hf, hfield⟩)
    · intro hcan other hother
      obtain ⟨hlike, field, hf, hfield⟩ := (mem_required_struct htype).1 hother
      exact hcan field hf other hfield hlike
  | structUnion union =>
    have hor : s.referenceGraph.isBuildable known name = true ↔
        s.referenceGraph.required name = [] ∨
          ∃ other ∈ s.referenceGraph.required name, other ∈ known := by
      simp [ReferenceGraph.isBuildable, mem_unions.2 ⟨union, htype⟩]
    rw [hor]
    refine or_congr ?_ ?_
    · rw [List.eq_nil_iff_forall_not_mem]
      constructor
      · intro hnone member hm
        exact Bool.eq_false_iff.2 fun hlike =>
          hnone member ((mem_required_structUnion htype).2 ⟨hlike, hm⟩)
      · intro hnone other hother
        obtain ⟨hlike, hm⟩ := (mem_required_structUnion htype).1 hother
        exact Bool.eq_false_iff.1 (hnone other hm) hlike
    · constructor
      · rintro ⟨other, hother, hknown⟩
        obtain ⟨hlike, hm⟩ := (mem_required_structUnion htype).1 hother
        exact ⟨other, hm, hlike, hknown⟩
      · rintro ⟨other, hm, hlike, hknown⟩
        exact ⟨other, (mem_required_structUnion htype).2 ⟨hlike, hm⟩, hknown⟩
  | _ => cases hlike

/-- The types that have a value are closed. -/
theorem isClosed_instantiable : s.IsClosed {name | name ∈ s.instantiable} := by
  intro name type htype hcan
  have hnode : name ∈ s.referenceGraph.nodes :=
    mem_nodes.2 (isStructLike_eq_true_iff.2 ⟨type, htype, hcan.kind⟩)
  exact ReferenceGraph.mem_instantiable_of_isBuildable hnode
    ((isBuildable_iff_canBuild htype hcan.kind).2 hcan)

/-- **The types that have a value are the least closed set.** -/
theorem isLeast_instantiable :
    IsLeast {K : Set Name | s.IsClosed K} {name | name ∈ s.instantiable} := by
  refine ⟨isClosed_instantiable, fun K hK => ?_⟩
  -- a visit adds only what can be built from types of the closed set
  refine ReferenceGraph.instantiable_induction (P := fun name => name ∈ K) ?_
  intro known name hknown hnode hbuild
  obtain ⟨type, htype, hlike⟩ := isStructLike_eq_true_iff.1 (mem_nodes.1 hnode)
  exact hK name type htype (((isBuildable_iff_canBuild htype hlike).1 hbuild).mono hknown)

/-- A type has a value if every closed set has it. -/
theorem mem_instantiable_iff {name : Name} :
    name ∈ s.instantiable ↔ ∀ K, s.IsClosed K → name ∈ K :=
  ⟨fun h _ hK => isLeast_instantiable.2 hK h, fun h => h _ isClosed_instantiable⟩

end Schema

end StructQL
