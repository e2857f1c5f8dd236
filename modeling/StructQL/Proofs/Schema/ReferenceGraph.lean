import Mathlib.Data.List.Induction
import StructQL.Proofs.Table
import StructQL.Schema.CycleSearch

/-!
# The references of a graph

The references that a node is left by are told by the graph as a whole. In the graph of a schema
they are those of the type of this name.

* `ReferenceGraph.mem_required`: what a node needs values of.
* `ReferenceGraph.unbreakableEdges_eq`: **the references that a search follows** stand in the order
  of the graph.
* `Schema.filter_edges`: the references from a node are those of its type.
* `Schema.mem_required_struct`, `Schema.mem_required_structUnion`: what a struct needs values of,
  and of what a struct union needs one.
-/

namespace StructQL

/-! ## Graphs -/

/-- A reference with a later place than all others goes to the end. -/
theorem insertByPlace_eq_append {e : Reference × Nat} {l : List (Reference × Nat)}
    (h : ∀ other ∈ l, other.2 < e.2) : insertByPlace e l = l ++ [e] := by
  induction l with
  | nil => rfl
  | cons other rest ih =>
    have hlater : ¬ e.2 ≤ other.2 := Nat.not_le_of_lt (h other List.mem_cons_self)
    rw [insertByPlace, if_neg hlater, ih fun x hx => h x (List.mem_cons_of_mem _ hx),
      List.cons_append]

/-- References that stand the last one first are turned round. -/
theorem sortByPlace_reverse {l : List (Reference × Nat)} (h : l.Pairwise fun a b => a.2 < b.2) :
    sortByPlace l.reverse = l := by
  induction l using List.reverseRecOn with
  | nil => rfl
  | append_singleton l e ih =>
    obtain ⟨hl, -, hlast⟩ := List.pairwise_append.1 h
    rw [List.reverse_append, List.reverse_singleton, List.singleton_append, sortByPlace,
      List.foldr_cons, ← sortByPlace, ih hl]
    exact insertByPlace_eq_append fun other ho => hlast other ho e List.mem_cons_self

namespace ReferenceGraph

variable {g : ReferenceGraph} {instantiable : List Name} {node name : Name} {r : Reference}

theorem pairwise_zipIdx {α : Type} (l : List α) : l.zipIdx.Pairwise fun a b => a.2 < b.2 := by
  have h := List.pairwise_map.1 (List.zipIdx_map_snd 0 l ▸ List.pairwise_lt_range')
  exact h

/-- **The references that are followed from a node** stand in the order of the graph. -/
theorem unbreakableEdges_eq (g : ReferenceGraph) (instantiable : List Name) (node : Name) :
    g.unbreakableEdges instantiable node =
      (g.edges.filter fun r => r.source = node).filter fun r =>
        r.forcing && !instantiable.contains r.target := by
  rw [unbreakableEdges, edgesFrom, List.filter_reverse, sortByPlace_reverse]
  · conv_rhs => rw [← List.zipIdx_map_fst 0 g.edges]
    rw [List.filter_map, List.filter_map]
    rfl
  · exact ((pairwise_zipIdx g.edges).filter _).filter _

theorem mem_unbreakableEdges : r ∈ g.unbreakableEdges instantiable node ↔
    r ∈ g.edges ∧ r.source = node ∧ r.forcing = true ∧ r.target ∉ instantiable := by
  rw [unbreakableEdges_eq, List.mem_filter, List.mem_filter]
  simp [and_assoc]

theorem mem_required : name ∈ g.required node ↔
    ∃ r ∈ g.edges, r.source = node ∧ r.forcing = true ∧ r.target = name := by
  have hplace : ∀ r, r ∈ g.edges ↔ ∃ i, (r, i) ∈ g.edges.zipIdx := fun r => by
    rw [List.mem_iff_getElem?]
    exact exists_congr fun i => (List.mem_zipIdx_iff_getElem? (x := (r, i))).symm
  simp only [required, edgesFrom, List.mem_map, List.mem_filter, List.mem_reverse, Prod.exists]
  grind

end ReferenceGraph

/-! ## The graph of a schema -/

namespace Schema

variable {s : Schema} {name : Name} {type : TypeDefinition} {r : Reference}

theorem isForcing_eq_true_iff {type : TypeRef} :
    type.isForcing = true ↔ type = .named type.base true := by
  cases type <;> simp [TypeRef.isForcing, TypeRef.base]

/-- The references of a type start at it, and lead to structs and struct unions. -/
theorem of_mem_references (h : r ∈ s.references type) :
    r.source = type.name ∧ s.isStructLike r.target = true := by
  unfold references at h
  split at h
  · obtain ⟨field, hf, rfl⟩ := List.mem_map.1 h
    exact ⟨rfl, (List.mem_filter.1 hf).2⟩
  · obtain ⟨member, hm, rfl⟩ := List.mem_map.1 h
    exact ⟨rfl, (List.mem_filter.1 hm).2⟩
  · cases h

theorem mem_nodes : name ∈ s.referenceGraph.nodes ↔ s.isStructLike name = true := by
  rw [isStructLike_eq_true_iff]
  constructor
  · intro h
    obtain ⟨type, htype, rfl⟩ := List.mem_map.1 h
    obtain ⟨hmem, hlike⟩ := List.mem_filter.1 htype
    exact ⟨type, type?_of_mem hmem, hlike⟩
  · rintro ⟨type, htype, hlike⟩
    rw [← name_of_type? htype]
    exact List.mem_map_of_mem (List.mem_filter.2 ⟨mem_of_type? htype, hlike⟩)

theorem mem_unions :
    name ∈ s.referenceGraph.unions ↔ ∃ union, s.type? name = some (.structUnion union) := by
  constructor
  · intro h
    obtain ⟨union, hunion, rfl⟩ := List.mem_map.1 h
    obtain ⟨type, htype, hsome⟩ := List.mem_filterMap.1 hunion
    cases type with
    | structUnion _ =>
      cases hsome
      exact ⟨union, type?_of_mem htype⟩
    | _ => cases hsome
  · rintro ⟨union, htype⟩
    rw [← name_of_type? htype]
    exact List.mem_map_of_mem (List.mem_filterMap.2 ⟨_, mem_of_type? htype, rfl⟩)

/-- **The references from a node** are those of its type. -/
theorem filter_edges (s : Schema) (name : Name) :
    (s.referenceGraph.edges.filter fun r => r.source = name) =
      (s.type? name).elim [] s.references := by
  have hown : ∀ type ∈ s.types.toList,
      (s.references type).filter (fun r => r.source = name) =
        if type.name = name then s.references type else [] := by
    intro type _
    split
    · rename_i hname
      rw [List.filter_eq_self]
      exact fun r hr => by simp [(of_mem_references hr).1, hname]
    · rename_i hname
      rw [List.filter_eq_nil_iff]
      exact fun r hr => by simp [(of_mem_references hr).1, hname]
  rw [referenceGraph, List.filter_flatMap, List.flatMap_congr hown]
  exact Table.flatMap_of_name s.types name s.references

theorem mem_edges_iff (htype : s.type? name = some type) :
    r ∈ s.referenceGraph.edges ∧ r.source = name ↔ r ∈ s.references type := by
  have h := filter_edges s name
  rw [htype, Option.elim_some] at h
  rw [← h, List.mem_filter, decide_eq_true_iff]

/-- A reference of the graph starts at a type that has it. -/
theorem exists_type_of_mem_edges (h : r ∈ s.referenceGraph.edges) :
    ∃ type, s.type? r.source = some type ∧ r ∈ s.references type := by
  obtain ⟨type, hmem, hr⟩ := List.mem_flatMap.1 h
  exact ⟨type, (of_mem_references hr).1 ▸ type?_of_mem hmem, hr⟩

/-- A struct needs values of the structs and struct unions of its single non-null fields. -/
theorem mem_required_struct {struct : StructType} {other : Name}
    (h : s.type? name = some (.struct struct)) :
    other ∈ s.referenceGraph.required name ↔ s.isStructLike other = true ∧
      ∃ field ∈ struct.fields.toList, field.type = .named other true := by
  simp only [ReferenceGraph.mem_required, ← and_assoc, mem_edges_iff h]
  constructor
  · rintro ⟨r, ⟨hr, hforcing⟩, rfl⟩
    obtain ⟨field, hf, rfl⟩ := List.mem_map.1 hr
    obtain ⟨hfield, hlike⟩ := List.mem_filter.1 hf
    exact ⟨hlike, field, hfield, isForcing_eq_true_iff.1 hforcing⟩
  · rintro ⟨hlike, field, hfield, htype⟩
    have hbase : field.type.base = other := by rw [htype]; rfl
    refine ⟨⟨struct.name, some field.name, field.type.base, field.type.isForcing⟩,
      ⟨List.mem_map.2 ⟨field, List.mem_filter.2 ⟨hfield, ?_⟩, rfl⟩, ?_⟩, hbase⟩
    · rw [hbase]; exact hlike
    · rw [htype]; rfl

/-- A struct union needs a value of one of its members. -/
theorem mem_required_structUnion {union : UnionType} {other : Name}
    (h : s.type? name = some (.structUnion union)) :
    other ∈ s.referenceGraph.required name ↔
      s.isStructLike other = true ∧ other ∈ union.members := by
  simp only [ReferenceGraph.mem_required, ← and_assoc, mem_edges_iff h]
  constructor
  · rintro ⟨r, ⟨hr, -⟩, rfl⟩
    obtain ⟨member, hm, rfl⟩ := List.mem_map.1 hr
    obtain ⟨hmember, hlike⟩ := List.mem_filter.1 hm
    exact ⟨hlike, mem_distinctNames.1 hmember⟩
  · rintro ⟨hlike, hmember⟩
    exact ⟨⟨union.name, none, other, true⟩, ⟨List.mem_map.2 ⟨other,
      List.mem_filter.2 ⟨mem_distinctNames.2 hmember, hlike⟩, rfl⟩, rfl⟩, rfl⟩

end Schema

end StructQL
