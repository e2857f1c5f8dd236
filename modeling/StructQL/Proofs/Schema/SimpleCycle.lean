import Mathlib.Data.List.Chain
import Mathlib.Data.List.Nodup
import Mathlib.Logic.Relation
import StructQL.Proofs.Schema.LeastFixedPoint
import StructQL.Proofs.Schema.UnbreakableCycle

/-!
# The cycles that are found

A type without a value is shown to have none by a cycle of forcing references, each from a type
without a value to another.

* `Schema.Forces`, `Schema.Unbreakable`: the references that a cycle consists of.
* `Reference.IsSimpleCycle`: references that lead around, leaving no type twice.
* `Schema.ShowsNoValue`: a cycle of them that a type leads to.
* `Walk`: references along which a type is reached from a root.
* `Walk.isSimpleCycle`: a walk that comes back closes a cycle.
* `unbreakableCycle?_exact`: **a simple cycle of unbreakable references is found for the types
  outside the least closed set**, and for no others.
-/

namespace StructQL

/-- **References that lead around**, leaving no type twice. -/
structure Reference.IsSimpleCycle (cycle : List Reference) : Prop where
  ne_nil : cycle ≠ []
  /-- Each one starts where the one before ends. -/
  chain : cycle.IsChain fun a b => a.target = b.source
  /-- The last one ends where the first one starts. -/
  closes : ∀ first ∈ cycle.head?, ∀ last ∈ cycle.getLast?, last.target = first.source
  nodup : (cycle.map Reference.source).Nodup

namespace Schema

/-- **A reference that forces a value**: a field of a struct that is neither nullable nor a list,
or a member of a struct union. -/
inductive Forces (s : Schema) : Reference → Prop where
  | field {name target : Name} {type : StructType} {field : Field} :
    s.type? name = some (.struct type) → field ∈ type.fields.toList →
    field.type = .named target true → s.isStructLike target = true →
    Forces s ⟨name, some field.name, target, true⟩
  | member {name target : Name} {type : UnionType} :
    s.type? name = some (.structUnion type) → target ∈ type.members →
    s.isStructLike target = true → Forces s ⟨name, none, target, true⟩

/-- **A forcing reference between types without a value.** -/
structure Unbreakable (s : Schema) (r : Reference) : Prop where
  forces : s.Forces r
  source : r.source ∉ s.instantiable
  target : r.target ∉ s.instantiable

/-- An unbreakable reference leads from one type to another. -/
def Leads (s : Schema) (a b : Name) : Prop :=
  ∃ r, s.Unbreakable r ∧ r.source = a ∧ r.target = b

/-- **The cycle shows that a type has no value**: it is a simple cycle of unbreakable references,
and such references lead from the type to it. -/
structure ShowsNoValue (s : Schema) (root : Name) (cycle : List Reference) : Prop where
  simple : Reference.IsSimpleCycle cycle
  unbreakable : ∀ r ∈ cycle, s.Unbreakable r
  reached : ∀ first ∈ cycle.head?, Relation.ReflTransGen s.Leads root first.source

variable {s : Schema} {root name : Name} {walked : List Reference} {r : Reference}

theorem forces_of_mem_references {type : TypeDefinition} (htype : s.type? name = some type)
    (h : r ∈ s.references type) (hforcing : r.forcing = true) : s.Forces r := by
  have hname := name_of_type? htype
  cases type with
  | struct type =>
    obtain ⟨field, hf, rfl⟩ := List.mem_map.1 h
    obtain ⟨hmem, hlike⟩ := List.mem_filter.1 hf
    have hbase : field.type = .named field.type.base true := isForcing_eq_true_iff.1 hforcing
    change s.Forces ⟨type.name, some field.name, field.type.base, field.type.isForcing⟩
    rw [show type.name = name from hname, show field.type.isForcing = true from hforcing]
    exact .field htype hmem hbase hlike
  | structUnion type =>
    obtain ⟨member, hm, rfl⟩ := List.mem_map.1 h
    obtain ⟨hmem, hlike⟩ := List.mem_filter.1 hm
    change s.Forces ⟨type.name, none, member, true⟩
    rw [show type.name = name from hname]
    exact .member htype (mem_distinctNames.1 hmem) hlike
  | _ => cases h

/-- The references that the search follows are unbreakable. -/
theorem unbreakable_of_mem_unbreakableEdges (hout : name ∉ s.instantiable)
    (h : r ∈ s.referenceGraph.unbreakableEdges s.instantiable name) :
    s.Unbreakable r ∧ r.source = name := by
  obtain ⟨hmem, hsource, hforcing, htarget⟩ := ReferenceGraph.mem_unbreakableEdges.1 h
  obtain ⟨type, htype, hr⟩ := exists_type_of_mem_edges hmem
  exact ⟨⟨forces_of_mem_references htype hr hforcing, hsource ▸ hout, htarget⟩, hsource⟩

/-- **A walk** from a root to a type, along unbreakable references and without a type twice. -/
structure Walk (s : Schema) (root : Name) (walked : List Reference) (name : Name) : Prop where
  chain : walked.IsChain fun a b => a.target = b.source
  last : ∀ r ∈ walked.getLast?, r.target = name
  nodup : (walked.map Reference.source ++ [name]).Nodup
  unbreakable : ∀ r ∈ walked, s.Unbreakable r
  out : name ∉ s.instantiable
  reached : Relation.ReflTransGen s.Leads root name

theorem Walk.start (h : root ∉ s.instantiable) : s.Walk root [] root where
  chain := .nil
  last := by simp
  nodup := by simp
  unbreakable := by simp
  out := h
  reached := .refl

section Step

variable (hw : s.Walk root walked name) (hr : s.Unbreakable r) (hsource : r.source = name)

include hw hsource in
theorem Walk.chain_append : (walked ++ [r]).IsChain fun a b => a.target = b.source := by
  refine List.isChain_append.2 ⟨hw.chain, .singleton _, fun last hlast first hfirst => ?_⟩
  obtain rfl : r = first := by simpa using hfirst
  rw [hw.last last hlast, hsource]

include hw hsource in
theorem Walk.nodup_append : ((walked ++ [r]).map Reference.source).Nodup := by
  rw [List.map_append, List.map_singleton, hsource]
  exact hw.nodup

include hw hr in
theorem Walk.unbreakable_append : ∀ x ∈ walked ++ [r], s.Unbreakable x := by
  intro x hx
  rcases List.mem_append.1 hx with hx | hx
  · exact hw.unbreakable x hx
  · rwa [List.mem_singleton.1 hx]

include hw hr hsource in
theorem Walk.reached_target : Relation.ReflTransGen s.Leads root r.target :=
  hw.reached.tail ⟨r, hr, hsource, rfl⟩

include hw hr hsource in
/-- A step to a type that was not left before. -/
theorem Walk.step (hnew : r.target ∉ (walked ++ [r]).map Reference.source) :
    s.Walk root (walked ++ [r]) r.target where
  chain := hw.chain_append hsource
  last := by simp
  nodup := by
    rw [← List.concat_eq_append]
    exact List.Nodup.concat hnew (hw.nodup_append hsource)
  unbreakable := hw.unbreakable_append hr
  out := hr.target
  reached := hw.reached_target hr hsource

include hw hsource in
/-- **A walk that comes back closes a cycle**: the references from the place on where the type was
left. -/
theorem Walk.isSimpleCycle {position : Nat}
    (hback : (walked.map Reference.source ++ [name]).idxOf? r.target = some position) :
    Reference.IsSimpleCycle (walked.drop position ++ [r]) ∧
      ∀ first ∈ (walked.drop position ++ [r]).head?, first.source = r.target := by
  obtain ⟨hlt, hplace, -⟩ := List.idxOf?_eq_some_iff.1 hback
  have hle : position ≤ walked.length := by
    rw [List.length_append, List.length_map, List.length_singleton] at hlt
    omega
  have hdrop : walked.drop position ++ [r] = (walked ++ [r]).drop position :=
    (List.drop_append_of_le_length hle).symm
  have hfirst : ∀ first ∈ (walked.drop position ++ [r]).head?, first.source = r.target := by
    intro first hf
    rw [hdrop, List.head?_drop] at hf
    have hget : ((walked ++ [r]).map Reference.source)[position]? = some first.source := by
      rw [List.getElem?_map, hf, Option.map_some]
    rw [List.map_append, List.map_singleton, hsource, List.getElem?_eq_getElem hlt, hplace] at hget
    exact (Option.some.inj hget).symm
  have hsuffix : walked.drop position ++ [r] <:+ walked ++ [r] := hdrop ▸ List.drop_suffix _ _
  refine ⟨⟨by simp, (hw.chain_append hsource).suffix hsuffix, ?_, ?_⟩, hfirst⟩
  · intro first hf last hl
    rw [List.getLast?_concat] at hl
    rw [← Option.some.inj hl, hfirst first hf]
  · exact (hw.nodup_append hsource).sublist (hsuffix.sublist.map _)

end Step

/-- **The path of a search is a walk** along unbreakable references. -/
theorem Walk.of_tracks {pending : List Reference} {rest : List (Name × List Reference)}
    (hroot : root ∉ s.instantiable)
    (h : Tracks s.referenceGraph s.instantiable root walked ((name, pending) :: rest)) :
    s.Walk root walked name := by
  generalize hstack : (name, pending) :: rest = stack at h
  induction h generalizing name pending rest with
  | ended => cases hstack
  | root =>
    cases hstack
    exact .start hroot
  | enter hbefore hr hnew _ ih =>
    cases hstack
    have hw := ih rfl
    obtain ⟨hunbreakable, hsource⟩ := unbreakable_of_mem_unbreakableEdges hw.out hr
    refine hw.step hunbreakable hsource ?_
    rw [List.map_append, List.map_singleton, hsource, ← hbefore.nodes_eq, List.mem_reverse]
    exact hnew

/-- **What the search finds** shows that the root has no value. -/
theorem showsNoValue_of_unbreakableCycle? {cycle : List Reference}
    (h : s.unbreakableCycle? s.instantiable root = some cycle) : s.ShowsNoValue root cycle := by
  unfold unbreakableCycle? at h
  split at h
  · cases h
  · rename_i hroot
    obtain ⟨path, node, r, pending, rest, position, htracks, hback, rfl⟩ :=
      ReferenceGraph.path_of_search _ h
    have hw := Walk.of_tracks (by simpa using hroot) htracks
    obtain ⟨hr, hsource⟩ := unbreakable_of_mem_unbreakableEdges hw.out
      (htracks.pending_subset List.mem_cons_self)
    obtain ⟨hcycle, hfirst⟩ := hw.isSimpleCycle hsource hback
    refine ⟨hcycle, fun x hx => ?_, fun first hf => ?_⟩
    · refine hw.unbreakable_append hr x ?_
      rcases List.mem_append.1 hx with hx | hx
      · exact List.mem_append_left _ (List.mem_of_mem_drop hx)
      · exact List.mem_append_right _ hx
    · rw [hfirst first hf]
      exact hw.reached_target hr hsource

/-- The types that have a value are the least set that is closed under building values, and **a
cycle is found exactly for the structs and struct unions outside of it**: a simple one, of forcing
references between types outside the set, to which such references lead from the type. -/
theorem unbreakableCycle?_exact (s : Schema) (root : Name) (hroot : s.isStructLike root = true) :
    IsLeast {K : Set Name | s.IsClosed K} {name | name ∈ s.instantiable} ∧
      (s.unbreakableCycle? s.instantiable root = none ↔ root ∈ s.instantiable) ∧
      ∀ cycle, s.unbreakableCycle? s.instantiable root = some cycle →
        s.ShowsNoValue root cycle := by
  refine ⟨isLeast_instantiable, ?_, fun cycle h => showsNoValue_of_unbreakableCycle? h⟩
  rw [← not_iff_not, ← unbreakableCycle?_isSome_iff hroot, Option.isSome_iff_ne_none]

/-- A struct that needs one of two structs that need each other through a struct union. -/
def siteOfPages : Schema where
  types := ⟨[.scalar Name.string,
    .struct ⟨⟨"Site", .refl true⟩, ⟨[⟨⟨"home", .refl true⟩, .named ⟨"Page", .refl true⟩ true, []⟩],
      by decide⟩⟩,
    .struct ⟨⟨"Page", .refl true⟩, ⟨[⟨⟨"title", .refl true⟩, .named Name.string true, []⟩,
      ⟨⟨"part", .refl true⟩, .named ⟨"Part", .refl true⟩ true, []⟩], by decide⟩⟩,
    .struct ⟨⟨"Header", .refl true⟩, ⟨[⟨⟨"page", .refl true⟩, .named ⟨"Page", .refl true⟩ true, []⟩],
      by decide⟩⟩,
    .structUnion ⟨⟨"Part", .refl true⟩, [⟨"Header", .refl true⟩, ⟨"Page", .refl true⟩]⟩], by decide⟩
  directives := .empty
  roots := .standard

/-- From the site, the cycle of its pages is found. -/
theorem unbreakableCycle?_siteOfPages :
    siteOfPages.isStructLike ⟨"Site", .refl true⟩ = true ∧
      ∃ cycle, siteOfPages.unbreakableCycle? siteOfPages.instantiable ⟨"Site", .refl true⟩ =
          some cycle ∧
        Reference.describe cycle = "Page.part -> Part -> Header.page -> Page" ∧
        siteOfPages.ShowsNoValue ⟨"Site", .refl true⟩ cycle := by
  have hfound : (siteOfPages.unbreakableCycle? siteOfPages.instantiable ⟨"Site", .refl true⟩).map
      Reference.describe = some "Page.part -> Part -> Header.page -> Page" := by decide +kernel
  obtain ⟨cycle, hcycle, htext⟩ := Option.map_eq_some_iff.1 hfound
  obtain ⟨-, -, hspec⟩ := unbreakableCycle?_exact siteOfPages ⟨"Site", .refl true⟩ (by decide)
  exact ⟨by decide, cycle, hcycle, htext, hspec cycle hcycle⟩

end Schema

end StructQL
