import Mathlib.Data.List.Permutation
import StructQL.Merger
import StructQL.Proofs.Expansion.Depth
import StructQL.Proofs.Gathering.Form
import StructQL.Proofs.Grouping
import StructQL.Proofs.Schema.Instantiable

/-!
# The selection of a struct

* `exists_occurrence_iff`: the included occurrences of sites are the fields that they lead to.
* `selectionWithin_spec`: enough levels give the selection by the route on which only the innermost
  condition decides.
* `mergeScope_covering_iff`: **this is the selection by all conditions together just if both routes
  agree.**
-/

namespace StructQL

namespace QueryContext

open Checked

variable {ctx : QueryContext} {scope : Name} {sites : List Site}

theorem faults_allOccurrences_eq_nil (h : (ctx.allOccurrences scope sites).faults = []) :
    ∀ site ∈ sites, (ctx.occurrences scope site).faults = [] := by
  unfold allOccurrences at h
  exact faults_each_eq_nil.1 (faults_bind_eq_nil.1 h).1

theorem mem_allOccurrences {o : Occurrence} :
    o ∈ (ctx.allOccurrences scope sites).value ↔
      ∃ site ∈ sites, o ∈ (ctx.occurrences scope site).value := by
  simp [allOccurrences]

/-- **The included occurrences of sites are the fields that they lead to**, each on its innermost
condition. -/
theorem exists_occurrence_iff (h : (ctx.allOccurrences scope sites).faults = [])
    {f : SelectedField} {parent : Name} :
    (∃ o ∈ (ctx.allOccurrences scope sites).value,
      o.isIncluded = true ∧ o.field = f ∧ o.parent = parent) ↔
      ∃ nodes ∈ included sites, ∃ conditions names,
        ctx.Selects nodes conditions names f ∧ innermost conditions scope = parent := by
  constructor
  · rintro ⟨o, ho, hinc, rfl, rfl⟩
    obtain ⟨site, hsite, ho⟩ := mem_allOccurrences.1 ho
    obtain ⟨hsinc, conditions, names, hs, hp⟩ := selects_of_mem_occurrences ho hinc
    exact ⟨site.selections, ⟨site, hsite, hsinc, rfl⟩, conditions, names, hs, hp.symm⟩
  · rintro ⟨_, ⟨site, hsite, hsinc, rfl⟩, conditions, names, hs, rfl⟩
    have hfaults := faults_allOccurrences_eq_nil h site hsite
    obtain ⟨o, ho, hinc, hf, hp⟩ := exists_occurrence_of_selects hs hsinc hfaults
    exact ⟨o, mem_allOccurrences.2 ⟨site, hsite, ho⟩, hinc, hf, hp⟩

variable {gather : Name → List Site → Checked (Option Selection)}

/-! ## The fields of a struct -/

/-- A type has the field, as every type has `__typename`. -/
def HasField (ctx : QueryContext) (type name : Name) : Prop :=
  name = Name.typename ∨ (ctx.schema.field? type name).isSome = true

theorem hasField_of_structField? {type name base : Name}
    (h : ctx.structField? type name = some base) : ctx.HasField type name := by
  obtain ⟨-, field, hfield, -⟩ := structField?_eq_some_iff.1 h
  exact .inr (by rw [hfield]; rfl)

theorem existing_value {group : List Occurrence} (h : (ctx.existing group).faults = []) :
    (ctx.existing group).value = group := by
  refine List.filter_eq_self.2 fun o ho => ?_
  cases hm : ctx.missingFault? o with
  | none => rfl
  | some fault =>
    have : fault ∈ (ctx.existing group).faults := List.mem_filterMap.2 ⟨o, ho, hm⟩
    rw [h] at this
    cases this

theorem leafSelection_value {type : Name} {group : List Occurrence} {s : Selection} :
    (leafSelection type group).value = some s ↔
      group.any Occurrence.isIncluded = true ∧ s = .whole := by
  unfold leafSelection
  dsimp only
  split
  · rename_i h
    simp [h, eq_comm]
  · rename_i h
    simp [h]

variable {type name base : Name} {group : List Occurrence}

/-- The occurrences of a field with structs or struct unions as values select what is gathered of
these. -/
theorem fieldSelection_of_structField? (hne : group ≠ [])
    (h : (ctx.fieldSelection gather type name group).faults = [])
    (hfield : ctx.structField? type name = some base) :
    (gather base (group.map Occurrence.site)).faults = [] ∧
      (ctx.fieldSelection gather type name group).value =
        (gather base (group.map Occurrence.site)).value := by
  obtain ⟨hname, field, hf, rfl, hlike⟩ := structField?_eq_some_iff.1 hfield
  unfold fieldSelection at h ⊢
  rw [if_neg hname] at h ⊢
  have hvalue := existing_value (faults_bind_eq_nil.1 h).1
  obtain ⟨first, rest, hcons⟩ := List.exists_cons_of_ne_nil hne
  have hrest := (faults_bind_eq_nil.1 h).2
  rw [value_bind]
  rw [hvalue, hcons, hf] at hrest ⊢
  dsimp only at hrest ⊢
  rw [if_pos hlike] at hrest ⊢
  exact ⟨hrest, rfl⟩

/-- The occurrences of another field select whole values. -/
theorem fieldSelection_of_leaf (hne : group ≠ [])
    (h : (ctx.fieldSelection gather type name group).faults = [])
    (hfield : ctx.structField? type name = none) {s : Selection} :
    (ctx.fieldSelection gather type name group).value = some s ↔
      ctx.HasField type name ∧ group.any Occurrence.isIncluded = true ∧ s = .whole := by
  unfold fieldSelection at h ⊢
  unfold HasField
  by_cases hname : name = Name.typename
  · rw [if_pos hname, leafSelection_value]
    simp [hname]
  · rw [if_neg hname] at h ⊢
    have hvalue := existing_value (faults_bind_eq_nil.1 h).1
    obtain ⟨first, rest, hcons⟩ := List.exists_cons_of_ne_nil hne
    rw [value_bind, hvalue, hcons]
    cases hf : ctx.schema.field? type name with
    | none => simp [hname]
    | some field =>
      have hlike : ¬ ctx.schema.isStructLike field.type.base = true := fun hlike => by
        simp [structField?, hname, hf, hlike] at hfield
      dsimp only
      rw [if_neg hlike, leafSelection_value]
      simp

/-- The groups in which the occurrences of a struct are gathered, by their field. -/
def fieldGroups (occurrences : List Occurrence) : List (Name × List Occurrence) :=
  Pairs.group (occurrences.map fun o => (o.name, o))

theorem mem_fieldGroup {occurrences group : List Occurrence} {o : Occurrence}
    (h : (name, group) ∈ fieldGroups occurrences) :
    o ∈ group ↔ o ∈ occurrences ∧ o.name = name := by
  rw [Pairs.mem_values h]
  simp [and_comm]

theorem ne_nil_of_mem_fieldGroups {occurrences group : List Occurrence}
    (h : (name, group) ∈ fieldGroups occurrences) : group ≠ [] :=
  (Pairs.mem_group.1 h).1

theorem exists_fieldGroup {occurrences : List Occurrence} {o : Occurrence}
    (h : o ∈ occurrences) : ∃ group, (o.name, group) ∈ fieldGroups occurrences :=
  Pairs.exists_group (List.mem_map.2 ⟨o, h, rfl⟩)

variable {occurrences : List Occurrence}

theorem faults_fieldGroup (h : (ctx.fieldSet gather type occurrences).faults = [])
    (hgroup : (name, group) ∈ fieldGroups occurrences) :
    (ctx.fieldSelection gather type name group).faults = [] := by
  unfold fieldSet at h
  have heach := (faults_bind_eq_nil.1 (faults_bind_eq_nil.1 h).2).1
  exact (faults_bind_eq_nil.1 (faults_each_eq_nil.1 heach (name, group) hgroup)).1

theorem mem_fieldSet {s : Selection} :
    (name, s) ∈ (ctx.fieldSet gather type occurrences).value.fields ↔
      ∃ group, (name, group) ∈ fieldGroups occurrences ∧
        (ctx.fieldSelection gather type name group).value = some s := by
  unfold fieldSet fieldGroups
  simp only [value_bind, value_pure, value_each, List.mem_filterMap, List.mem_map, id_eq,
    exists_eq_right, Prod.exists, Option.map_eq_some_iff, Prod.mk.injEq]
  constructor
  · rintro ⟨other, group, hgroup, s', hs, rfl, rfl⟩
    exact ⟨group, hgroup, hs⟩
  · rintro ⟨group, hgroup, hs⟩
    exact ⟨name, group, hgroup, s, hs, rfl, rfl⟩

theorem nodup_fieldSet :
    ((ctx.fieldSet gather type occurrences).value.fields.map Prod.fst).Nodup := by
  have hnd := Pairs.nodup_group (occurrences.map fun o => (o.name, o))
  unfold fieldSet
  simp only [value_bind, value_pure, value_each]
  generalize Pairs.group (occurrences.map fun o => (o.name, o)) = groups at hnd ⊢
  refine List.Nodup.sublist ?_ hnd
  clear hnd
  induction groups with
  | nil => exact List.Sublist.refl _
  | cons p groups ih =>
    obtain ⟨name, group⟩ := p
    cases hv : (ctx.fieldSelection gather type name group).value with
    | none =>
      simp only [List.map_cons, hv, Option.map_none, List.filterMap_cons, id_eq]
      exact ih.trans (List.sublist_cons_self _ _)
    | some s =>
      simp only [List.map_cons, hv, Option.map_some, List.filterMap_cons, id_eq]
      exact ih.cons_cons _

/-! ## The scope -/

/-- The occurrences that are gathered for a struct of the scope. -/
def concerning (ctx : QueryContext) (scope type : Name) (occurrences : List Occurrence) :
    List Occurrence :=
  if (ctx.schema.structUnion? scope).isSome then occurrences.filter (ctx.concerns type)
  else occurrences

/-- The fields that a scope lists of a struct are those that are gathered for it. -/
theorem fieldSet_of_fieldsOf? {fields : List (Name × Selection)}
    (h : (ctx.scopeSelection gather scope occurrences).faults = [])
    (hfields : (ctx.scopeSelection gather scope occurrences).value.fieldsOf? type = some fields) :
    (ctx.fieldSet gather type (ctx.concerning scope type occurrences)).faults = [] ∧
      (ctx.fieldSet gather type (ctx.concerning scope type occurrences)).value.fields = fields := by
  unfold scopeSelection at h hfields
  unfold concerning
  cases hunion : ctx.schema.structUnion? scope with
  | none =>
    -- a struct keeps all occurrences
    rw [hunion] at h hfields
    obtain ⟨rfl, rfl⟩ := fieldsOf?_struct.1 hfields
    exact ⟨(faults_bind_eq_nil.1 h).1, rfl⟩
  | some union =>
    -- a member of a union keeps those that concern it
    rw [hunion] at h hfields
    obtain ⟨set, hset, rfl⟩ := fieldsOf?_union.1 hfields
    rw [value_each] at hset
    obtain ⟨m, hm, he⟩ := List.mem_map.1 (Pairs.mem_of_lookup hset)
    obtain ⟨rfl, rfl⟩ := Prod.mk.inj he
    have heach := faults_each_eq_nil.1 (faults_bind_eq_nil.1 h).1 m hm
    exact ⟨(faults_bind_eq_nil.1 heach).1, rfl⟩

/-! ## Enough levels -/

theorem mem_concerning {o : Occurrence} :
    o ∈ ctx.concerning scope type occurrences ↔ o ∈ occurrences ∧
      ((ctx.schema.structUnion? scope).isSome = true →
        type ∈ ctx.schema.possibleTypes o.parent) := by
  unfold concerning
  by_cases h : (ctx.schema.structUnion? scope).isSome = true
  · simp [h, concerns]
  · simp [h]

/-- The nearest route is that of the occurrences that are gathered for a struct. -/
theorem mem_routed_nearest (h : (ctx.allOccurrences scope sites).faults = [])
    {selections : List Query.Node} :
    selections ∈ ctx.routed ctx.nearest scope (included sites) type name ↔
      ctx.HasField type name ∧
        ∃ o ∈ ctx.concerning scope type (ctx.allOccurrences scope sites).value,
          o.isIncluded = true ∧ o.name = name ∧ o.site.selections = selections := by
  constructor
  · rintro ⟨nodes, hnodes, conditions, names, key, hs, hcovers, hfield⟩
    obtain ⟨o, ho, hinc, hof, hop⟩ :=
      (exists_occurrence_iff h).2 ⟨nodes, hnodes, conditions, names, hs, rfl⟩
    have hname : o.name = name := congrArg SelectedField.name hof
    have hselections : o.site.selections = selections := congrArg SelectedField.selections hof
    refine ⟨hfield, o, mem_concerning.2 ⟨ho, fun hunion => ?_⟩, hinc, hname, hselections⟩
    rw [hop]
    exact hcovers hunion
  · rintro ⟨hfield, o, ho, hinc, rfl, rfl⟩
    obtain ⟨hmem, hcovers⟩ := mem_concerning.1 ho
    obtain ⟨nodes, hnodes, conditions, names, hs, hp⟩ :=
      (exists_occurrence_iff h).1 ⟨o, hmem, hinc, rfl, rfl⟩
    refine ⟨nodes, hnodes, conditions, names, o.responseKey, hs, fun hunion => ?_, hfield⟩
    rw [hp]
    exact hcovers hunion

/-- The sites of a group are what the nearest route leads to, if the field exists. -/
theorem included_fieldGroup (h : (ctx.allOccurrences scope sites).faults = [])
    (hgroup : (name, group) ∈
      fieldGroups (ctx.concerning scope type (ctx.allOccurrences scope sites).value))
    (hfield : ctx.HasField type name) :
    included (group.map Occurrence.site) =
      ctx.routed ctx.nearest scope (included sites) type name := by
  ext selections
  rw [mem_routed_nearest h]
  constructor
  · rintro ⟨site, hsite, hinc, rfl⟩
    obtain ⟨o, ho, rfl⟩ := List.mem_map.1 hsite
    obtain ⟨hmem, hname⟩ := (mem_fieldGroup hgroup).1 ho
    exact ⟨hfield, o, hmem, hinc, hname, rfl⟩
  · rintro ⟨-, o, ho, hinc, hname, rfl⟩
    exact ⟨o.site, List.mem_map_of_mem ((mem_fieldGroup hgroup).2 ⟨ho, hname⟩), hinc, rfl⟩

theorem included_nonempty_iff :
    (included sites).Nonempty ↔ sites.any Site.included = true := by
  rw [List.any_eq_true]
  constructor
  · rintro ⟨_, site, hsite, hinc, -⟩
    exact ⟨site, hsite, hinc⟩
  · rintro ⟨site, hsite, hinc⟩
    exact ⟨_, site, hsite, hinc, rfl⟩

theorem nil_mem_included_iff :
    [] ∈ included sites ↔ (sites.any fun site => site.isBare && site.included) = true := by
  rw [List.any_eq_true]
  constructor
  · rintro ⟨site, hsite, hinc, hbare⟩
    exact ⟨site, hsite, by simp [Site.isBare, hbare, hinc]⟩
  · rintro ⟨site, hsite, hboth⟩
    rw [Bool.and_eq_true] at hboth
    exact ⟨site, hsite, hboth.2, List.isEmpty_iff.1 hboth.1⟩

/-- **A function gathers what the sites select**, if some is included. -/
structure Gathers (ctx : QueryContext) (gather : Name → List Site → Checked (Option Selection))
    (scope : Name) (sites : List Site) : Prop where
  isSome_iff : (gather scope sites).value.isSome = true ↔ (included sites).Nonempty
  collects : ∀ s, (gather scope sites).value = some s →
    ctx.Collects ctx.nearest scope (included sites) s

theorem any_included_map :
    (group.map Occurrence.site).any Site.included = group.any Occurrence.isIncluded := by
  rw [List.any_map]
  rfl

/-- **A selection of a field is what the nearest route leads to**: all of a leaf, and what is
collected of a struct. -/
structure CollectsField (ctx : QueryContext) (scope : Name) (S : Set (List Query.Node))
    (type name : Name) (s : Selection) : Prop where
  leaf : ctx.structField? type name = none → s = .whole
  nested : ∀ base, ctx.structField? type name = some base →
    ctx.Collects ctx.nearest base (ctx.routed ctx.nearest scope S type name) s

/-- **What the group of a field selects is what the nearest route leads to**, if what is gathered of
its values is. -/
theorem fieldGroup_spec (hocc : (ctx.allOccurrences scope sites).faults = [])
    (hgroup : (name, group) ∈
      fieldGroups (ctx.concerning scope type (ctx.allOccurrences scope sites).value))
    (h : (ctx.fieldSelection gather type name group).faults = [])
    (hgather : ∀ base inner, ctx.structField? type name = some base →
      included inner = ctx.routed ctx.nearest scope (included sites) type name →
      (gather base inner).faults = [] → ctx.Gathers gather base inner) :
    ((ctx.fieldSelection gather type name group).value.isSome = true ↔
        (ctx.routed ctx.nearest scope (included sites) type name).Nonempty) ∧
      ∀ s, (ctx.fieldSelection gather type name group).value = some s →
        ctx.CollectsField scope (included sites) type name s := by
  have hne := ne_nil_of_mem_fieldGroups hgroup
  have hsites := included_fieldGroup hocc hgroup
  cases hfield : ctx.structField? type name with
  | none =>
    have hvalue : ∀ s, (ctx.fieldSelection gather type name group).value = some s ↔ _ :=
      fun s => fieldSelection_of_leaf hne h hfield
    refine ⟨⟨fun hsome => ?_, fun hrouted => ?_⟩, fun s hs => ⟨fun _ => ?_, ?_⟩⟩
    · obtain ⟨s, hs⟩ := Option.isSome_iff_exists.1 hsome
      obtain ⟨hhas, hinc, -⟩ := (hvalue s).1 hs
      rw [← hsites hhas, included_nonempty_iff, any_included_map]
      exact hinc
    · obtain ⟨_, hsel⟩ := id hrouted
      have hhas := ((mem_routed_nearest hocc).1 hsel).1
      rw [← hsites hhas, included_nonempty_iff, any_included_map] at hrouted
      rw [(hvalue .whole).2 ⟨hhas, hrouted, rfl⟩]
      rfl
    · exact ((hvalue s).1 hs).2.2
    · intro base hbase
      rw [hfield] at hbase
      cases hbase
  | some base =>
    -- the field exists, so what is gathered of it is what the route leads to
    obtain ⟨hnone, hgathered⟩ := fieldSelection_of_structField? hne h hfield
    have hrouted := hsites (hasField_of_structField? hfield)
    have hg := hgather base _ hfield hrouted hnone
    rw [hgathered, ← hrouted]
    refine ⟨hg.isSome_iff, fun s hs => ⟨?_, ?_⟩⟩
    · intro hnot
      rw [hfield] at hnot
      cases hnot
    · intro other hother
      obtain rfl := Option.some.inj (hfield.symm.trans hother)
      rw [← hrouted]
      exact hg.collects s hs

/-- **The selection of a scope is the one by the nearest route**, if what is gathered of the values
of its fields is. -/
theorem collects_scopeSelection (hs : ctx.schema.isStructLike scope = true)
    (hocc : (ctx.allOccurrences scope sites).faults = [])
    (h : (ctx.scopeSelection gather scope (ctx.allOccurrences scope sites).value).faults = [])
    (hbare : [] ∉ included sites)
    (hgather : ∀ type name base inner, ctx.structField? type name = some base →
      included inner = ctx.routed ctx.nearest scope (included sites) type name →
      (gather base inner).faults = [] → ctx.Gathers gather base inner) :
    ctx.Collects ctx.nearest scope (included sites)
      (ctx.scopeSelection gather scope (ctx.allOccurrences scope sites).value).value := by
  have hform : HasForm ctx.schema scope
      (ctx.scopeSelection gather scope (ctx.allOccurrences scope sites).value).value :=
    hasForm_scopeSelection hs
  -- every field of the selection comes from the group of its name
  have hfound : ∀ type fields name s,
      (ctx.scopeSelection gather scope (ctx.allOccurrences scope sites).value).value.fieldsOf?
        type = some fields → (name, s) ∈ fields →
      (ctx.routed ctx.nearest scope (included sites) type name).Nonempty ∧
        ctx.CollectsField scope (included sites) type name s := by
    intro type fields name s hfields hsel
    obtain ⟨hfaults, rfl⟩ := fieldSet_of_fieldsOf? h hfields
    obtain ⟨group, hgroup, hvalue⟩ := mem_fieldSet.1 hsel
    obtain ⟨hsome, hspec⟩ :=
      fieldGroup_spec hocc hgroup (faults_fieldGroup hfaults hgroup) (hgather type name)
    exact ⟨hsome.1 (by rw [hvalue]; rfl), hspec s hvalue⟩
  refine .narrowed hbare hform.typeName? (fun _ => hform.isSome_fieldsOf?) ?_ ?_ ?_
  · intro type fields hfields
    obtain ⟨hfaults, rfl⟩ := fieldSet_of_fieldsOf? h hfields
    refine ⟨nodup_fieldSet, fun name => ⟨fun hname => ?_, fun hrouted => ?_⟩⟩
    · obtain ⟨⟨_, s⟩, hsel, rfl⟩ := List.mem_map.1 hname
      exact (hfound type _ _ s hfields hsel).1
    · obtain ⟨_, hsel⟩ := id hrouted
      obtain ⟨-, o, ho, -, rfl, -⟩ := (mem_routed_nearest hocc).1 hsel
      obtain ⟨group, hgroup⟩ := exists_fieldGroup ho
      obtain ⟨hsome, -⟩ :=
        fieldGroup_spec hocc hgroup (faults_fieldGroup hfaults hgroup) (hgather type o.name)
      obtain ⟨s, hvalue⟩ := Option.isSome_iff_exists.1 (hsome.2 hrouted)
      exact List.mem_map.2 ⟨_, mem_fieldSet.2 ⟨group, hgroup, hvalue⟩, rfl⟩
  · intro type fields name s hfields hsel hfield
    exact (hfound type fields name s hfields hsel).2.leaf hfield
  · intro type fields name s base hfields hsel hfield
    exact (hfound type fields name s hfields hsel).2.nested base hfield

theorem faults_selectionWithin {levels : Nat}
    (h : (ctx.selectionWithin (levels + 1) scope sites).faults = []) :
    (ctx.allOccurrences scope sites).faults = [] ∧
      (ctx.scopeSelection (ctx.selectionWithin levels) scope
        (ctx.allOccurrences scope sites).value).faults = [] := by
  rw [selectionWithin, faults_bind_eq_nil, faults_bind_eq_nil] at h
  exact ⟨h.1, h.2.1⟩

theorem value_selectionWithin (levels : Nat) :
    (ctx.selectionWithin (levels + 1) scope sites).value =
      if !sites.any Site.included then none
      else if sites.any fun site => site.isBare && site.included then some .whole
      else some (ctx.scopeSelection (ctx.selectionWithin levels) scope
        (ctx.allOccurrences scope sites).value).value := by
  rw [selectionWithin, value_bind, value_bind]
  split
  · rfl
  · split <;> rfl

/-- There is a selection just if some site is included. -/
theorem isSome_selection (ctx : QueryContext) (scope : Name) (sites : List Site) :
    (ctx.selection scope sites).value.isSome = sites.any Site.included := by
  unfold selection levels
  rw [value_selectionWithin]
  cases sites.any Site.included with
  | false => rfl
  | true =>
    simp only [Bool.not_true, Bool.false_eq_true, if_false]
    split <;> rfl

/-- **Enough levels give the selection by the nearest route.** -/
theorem selectionWithin_spec (hc : NoNestedCycle ctx.fragments) :
    ∀ (levels : Nat) (scope : Name) (sites : List Site),
      ctx.schema.isStructLike scope = true →
      ((included sites).Nonempty → ctx.Within levels (included sites)) →
      (ctx.selectionWithin levels scope sites).faults = [] →
      ctx.Gathers (ctx.selectionWithin levels) scope sites := by
  intro levels
  induction levels with
  | zero =>
    intro scope sites _ hw _
    -- no level is enough for an included site
    have hempty : ¬ (included sites).Nonempty := fun hne => Nat.lt_irrefl 0 (hw hne).pos
    exact ⟨⟨nofun, fun h => absurd h hempty⟩, nofun⟩
  | succ levels ih =>
    intro scope sites hs hw hfaults
    obtain ⟨hocc, hscope⟩ := faults_selectionWithin hfaults
    have hvalue : (ctx.selectionWithin (levels + 1) scope sites).value = _ :=
      value_selectionWithin levels
    by_cases hne : (included sites).Nonempty
    · have hany := included_nonempty_iff.1 hne
      rw [hany] at hvalue
      -- one bare site makes the selection whole, whatever the other sites select
      by_cases hbare : [] ∈ included sites
      · rw [nil_mem_included_iff.1 hbare] at hvalue
        refine ⟨iff_of_true (by rw [hvalue]; rfl) hne, fun s hs => ?_⟩
        rw [hvalue] at hs
        cases hs
        exact .whole hbare
      · rw [if_neg (by simp), if_neg (by rwa [← nil_mem_included_iff])] at hvalue
        refine ⟨iff_of_true (by rw [hvalue]; rfl) hne, fun s hs' => ?_⟩
        rw [hvalue] at hs'
        cases hs'
        refine collects_scopeSelection hs hocc hscope hbare ?_
        intro type name base inner hfield hrouted hnone
        obtain ⟨-, field, hf, -, hlike⟩ := structField?_eq_some_iff.1 hfield
        refine ih base inner hlike (fun hinner => ?_) hnone
        -- what is selected of a field is within one level less
        refine (hw hne).below hc (Schema.size_pos_of_field? hf) hinner fun selections hsel => ?_
        rw [hrouted] at hsel
        obtain ⟨nodes, hnodes, conditions, names, key, hselects, -⟩ := hsel
        exact ⟨nodes, hnodes, conditions, names, _, hselects, rfl⟩
    · have hany : sites.any Site.included = false := by
        rw [Bool.eq_false_iff, ne_eq, ← included_nonempty_iff]
        exact hne
      rw [hany] at hvalue
      refine ⟨iff_of_false (by rw [hvalue]; simp) hne, fun s hs => ?_⟩
      rw [hvalue] at hs
      cases hs

end QueryContext

namespace Merger

open QueryContext

variable {m : Merger} {scope : Name} {selections : List (List Query.Node)} {s : Selection}

/-- **What several selections select together, they select by the nearest route.** -/
theorem collects_nearest_of_mergeScope (hc : NoNestedCycle m.document.fragmentTable)
    (h : m.mergeScope scope selections = .ok s) :
    (m.context []).Collects (m.context []).nearest scope {nodes | nodes ∈ selections} s := by
  unfold mergeScope at h
  split at h
  · rename_i hs
    split at h
    · cases h
    · rename_i selection hresult
      cases h
      obtain ⟨hfaults, hvalue⟩ := Checked.result_eq_ok hresult
      have hincluded : included (selections.map (Site.mk · true)) =
          {nodes | nodes ∈ selections} := by
        ext nodes
        simp [included]
      have hg := selectionWithin_spec hc _ scope _ hs (fun _ => within_levels _) hfaults
      rw [← hincluded]
      exact hg.collects s hvalue
    · cases h
  · cases h

/-- **They select it by all conditions together just if both routes agree.** -/
theorem mergeScope_covering_iff (m : Merger) (hc : NoNestedCycle m.document.fragmentTable)
    (scope : Name) (selections : List (List Query.Node)) (s : Selection)
    (h : m.mergeScope scope selections = .ok s) :
    (m.context []).Collects (m.context []).covering scope {nodes | nodes ∈ selections} s ↔
      (m.context []).Agree (m.context []).nearest (m.context []).covering scope
        {nodes | nodes ∈ selections} {nodes | nodes ∈ selections} := by
  have hnearest := collects_nearest_of_mergeScope hc h
  exact ⟨fun hcovering => hnearest.agree hcovering, fun hagree => hnearest.of_agree hagree⟩

/-- The structs `A` and `B`, which both have a field `y`, and their union `U`. -/
def sharedField : Merger where
  schema := {
    schema := {
      types := ⟨[.scalar Name.string,
        .struct ⟨⟨"A", by decide⟩, ⟨[⟨⟨"x", by decide⟩, .named Name.string false, []⟩,
          ⟨⟨"y", by decide⟩, .named Name.string false, []⟩], by decide⟩⟩,
        .struct ⟨⟨"B", by decide⟩, ⟨[⟨⟨"y", by decide⟩, .named Name.string false, []⟩],
          by decide⟩⟩,
        .structUnion ⟨⟨"U", by decide⟩, [⟨"A", by decide⟩, ⟨"B", by decide⟩]⟩], by decide⟩
      directives := .empty
      roots := .standard }
    shapeFaults_eq_nil := by decide +kernel }
  document := ⟨[], []⟩

/-- The selection `x ... on U { ... on B { y } }`. -/
def throughUnion : List Query.Node :=
  [.field none ⟨"x", by decide⟩ [] [] [],
    .inline (some ⟨"U", by decide⟩) []
      [.inline (some ⟨"B", by decide⟩) [] [.field none ⟨"y", by decide⟩ [] [] []]]]

/-- Both fields of `A`. -/
def bothFields : Selection :=
  .struct ⟨⟨"A", by decide⟩, [(⟨"x", by decide⟩, .whole), (⟨"y", by decide⟩, .whole)]⟩

theorem noNestedCycle_sharedField : NoNestedCycle sharedField.document.fragmentTable := by
  rintro name other ⟨fragment, hfind, -⟩
  cases hfind

theorem mergeScope_throughUnion :
    sharedField.mergeScope ⟨"A", by decide⟩ [throughUnion] = .ok bothFields := by
  cbv

/-- No value of `A` is a `B`, so `y` is not selected of it. -/
theorem not_collects_throughUnion :
    ¬ (sharedField.context []).Collects (sharedField.context []).covering ⟨"A", by decide⟩
      {nodes | nodes ∈ [throughUnion]} bothFields := by
  intro h
  cases h with
  | narrowed _ _ _ hnames _ _ =>
    -- `y` would need an occurrence that is in no fragment on `B`, but its only one is
    have hy := ((hnames ⟨"A", by decide⟩ _ rfl).2 ⟨"y", by decide⟩).1 (by simp)
    obtain ⟨_, nodes, hnodes, conditions, names, key, hs, hcovers⟩ := hy
    obtain rfl : nodes = throughUnion := by simpa using hnodes
    cases hs with
    | field hmem _ => simp [throughUnion] at hmem
    | spread hmem _ _ _ => simp [throughUnion] at hmem
    | inline hmem _ hs =>
      obtain ⟨rfl, rfl, rfl⟩ : _ ∧ _ ∧ _ := by simpa [throughUnion] using hmem
      cases hs with
      | field hmem _ => simp at hmem
      | spread hmem _ _ _ => simp at hmem
      | inline hmem _ hs =>
        obtain ⟨rfl, rfl, rfl⟩ : _ ∧ _ ∧ _ := by simpa using hmem
        have hcovered := hcovers ⟨"B", by decide⟩ (by simp)
        revert hcovered
        decide

/-- The routes differ where a fragment on a union leads from one member on to another. -/
theorem not_agree_throughUnion :
    ¬ (sharedField.context []).Agree (sharedField.context []).nearest
      (sharedField.context []).covering ⟨"A", by decide⟩ {nodes | nodes ∈ [throughUnion]}
      {nodes | nodes ∈ [throughUnion]} := fun hagree =>
  not_collects_throughUnion ((mergeScope_covering_iff sharedField noNestedCycle_sharedField
    ⟨"A", by decide⟩ [throughUnion] bothFields mergeScope_throughUnion).2 hagree)

/-- **The innermost condition is not all that counts**: merging succeeds with a field that no value
of the struct has under the conditions around it. -/
theorem mergeScope_not_covering :
    NoNestedCycle sharedField.document.fragmentTable ∧
      sharedField.mergeScope ⟨"A", by decide⟩ [throughUnion] = .ok bothFields ∧
      ¬ (sharedField.context []).Collects (sharedField.context []).covering ⟨"A", by decide⟩
        {nodes | nodes ∈ [throughUnion]} bothFields :=
  ⟨noNestedCycle_sharedField, mergeScope_throughUnion, not_collects_throughUnion⟩

end Merger

end StructQL
