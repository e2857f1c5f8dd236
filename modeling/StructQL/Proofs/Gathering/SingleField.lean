import StructQL.Proofs.Gathering.Join
import StructQL.Proofs.Gathering.ObjectEntries

/-!
# Operations that select one field

A query that selects nothing but a field with structs as values can be merged as an operation, or
its selections can be merged in the scope of the field.

* `checkedOperations_occurrencesOf`: as an operation it has what is gathered in the scope, and the
  fragment cycles of the document besides.
* `MergesAlike`: both give the same selection, or fail for the same faults.
* `mergesAlike_iff`: **they do just if the document has no fragment cycles**, and the field is not
  `__typename`.
-/

namespace StructQL

/-- Occurrences of a field with nothing but their selections. -/
def occurrencesOf (name : Name) (selections : List (List Query.Node)) : List Query.Node :=
  selections.map fun nodes => .field none name [] [] nodes

namespace QueryContext

open Checked

variable {ctx : QueryContext} {scope root name : Name} {selections : List (List Query.Node)}
  {field : Field}

/-- What occurrences of a field are in a scope. -/
def occurrencesIn (scope name : Name) (selections : List (List Query.Node)) : List Occurrence :=
  selections.map fun nodes => ⟨scope, none, name, [], [], ⟨nodes, true⟩⟩

theorem allOccurrences_occurrencesOf :
    ctx.allOccurrences scope [⟨occurrencesOf name selections, true⟩] =
      pure (occurrencesIn scope name selections) := by
  have hexpand : ∀ selections, ctx.expand scope (occurrencesOf name selections) true ctx.fragments =
      pure (occurrencesIn scope name selections) := by
    intro selections
    induction selections with
    | nil => rw [occurrencesOf, List.map_nil, expand]; rfl
    | cons nodes rest ih =>
      unfold occurrencesOf at ih ⊢
      rw [List.map_cons, expand_cons, expand_field, ih, isIncluded_nil]
      rfl
  exact allOccurrences_singleton (hexpand selections)

theorem fieldCountOf_occurrencesOf :
    Query.fieldCountOf (occurrencesOf name selections) =
      selections.length + (selections.map Query.fieldCountOf).sum := by
  induction selections with
  | nil => rfl
  | cons nodes rest ih =>
    unfold occurrencesOf at ih ⊢
    rw [List.map_cons, Query.fieldCountOf, ih, Query.Node.fieldCount, List.map_cons,
      List.sum_cons, List.length_cons]
    omega

/-- The levels of what is selected of a field fit below those of the field. -/
theorem levels_le_occurrencesOf (name : Name) (hsize : 0 < ctx.schema.types.size) (hne : selections ≠ []) :
    ctx.levels (selections.map (Site.mk · true)) ≤
      ctx.schema.types.size * ctx.fieldCount [⟨occurrencesOf name selections, true⟩] := by
  have hlength := List.length_pos_of_ne_nil hne
  have hlt : ctx.fieldCount (selections.map (Site.mk · true)) + 1 ≤
      ctx.fieldCount [⟨occurrencesOf name selections, true⟩] := by
    rw [fieldCount_eq_add (selections.map (Site.mk · true)),
      fieldCount_eq_add [⟨occurrencesOf name selections, true⟩], List.map_map, List.map_singleton,
      List.sum_singleton, fieldCountOf_occurrencesOf]
    have hsame : (selections.map ((fun site => Query.fieldCountOf site.selections) ∘
        fun nodes => Site.mk nodes true)) = selections.map Query.fieldCountOf := rfl
    rw [hsame]
    omega
  have hmul := Nat.mul_le_mul_left ctx.schema.types.size hlt
  rw [Nat.mul_succ] at hmul
  unfold levels
  omega

/-- Occurrences of a field of an object are all in one place. -/
theorem placeGroups_occurrencesIn {object : FieldsType}
    (hroot : ctx.schema.type? root = some (.object object))
    (hfield : (ctx.schema.field? root name).isSome = true) (hname : name ≠ Name.typename)
    (hne : selections ≠ []) :
    ctx.placeGroups root (occurrencesIn root name selections) =
      [(⟨root, name, name⟩, occurrencesIn root name selections)] := by
  have hpossible : ctx.schema.possibleTypes root = [root] := by
    unfold Schema.possibleTypes
    rw [hroot]
  have hplaced : ∀ o ∈ occurrencesIn root name selections,
      ctx.placed root o = [(⟨root, name, name⟩, o)] := by
    intro o ho
    obtain ⟨nodes, -, rfl⟩ := List.mem_map.1 ho
    unfold placed resolvers
    rw [if_neg hname]
    simp [hfield, hpossible, Occurrence.responseKey]
  have hflat : (occurrencesIn root name selections).flatMap (ctx.placed root) =
      (occurrencesIn root name selections).map fun o => (⟨root, name, name⟩, o) := by
    rw [List.flatMap_congr hplaced]
    exact List.flatMap_pure_eq_map _ _
  rw [placeGroups, hflat, Pairs.group_of_key]
  simpa [occurrencesIn] using hne

/-- **The entries of occurrences of a field** are what is gathered of it, if there is something. -/
theorem entries_occurrencesOf (ctx : QueryContext) (hc : NoNestedCycle ctx.fragments) {object : FieldsType}
    (hroot : ctx.schema.type? root = some (.object object))
    (hfield : ctx.schema.field? root name = some field)
    (hlike : ctx.schema.isStructLike field.type.base = true) (hname : name ≠ Name.typename)
    (hne : selections ≠ []) :
    ctx.entries root [⟨occurrencesOf name selections, true⟩] = (do
      let selection ← ctx.selection field.type.base (selections.map (Site.mk · true))
      return (selection.map (Entry.mk [name] root name field.type)).toList) := by
  have hsites : (occurrencesIn root name selections).map Occurrence.site =
      selections.map (Site.mk · true) := by
    rw [occurrencesIn, List.map_map]
    rfl
  have hgroups := placeGroups_occurrencesIn hroot (by rw [hfield]; rfl) hname hne
  unfold placeGroups at hgroups
  rw [entries, levels, entriesWithin, allOccurrences_occurrencesOf]
  change ctx.scopeEntries _ _ _ _ _ = _
  rw [scopeEntries, value_pure, hgroups]
  have hgather := selectionWithin_eq_selection hc hlike
    (levels_le_occurrencesOf name (size_pos_of_isStructLike hlike) hne)
  simp only [each, List.map_singleton, List.flatMap_singleton]
  rw [entriesAt_of_struct hfield hlike, hsites, hgather]
  simp [bind, pure]

/-- Occurrences of `__typename` have no entries. -/
theorem entries_typename :
    ctx.entries root [⟨occurrencesOf Name.typename selections, true⟩] = pure [] := by
  have hplaced : ∀ o ∈ occurrencesIn root Name.typename selections, ctx.placed root o = [] := by
    intro o ho
    obtain ⟨nodes, -, rfl⟩ := List.mem_map.1 ho
    rw [placed, if_pos rfl]
  rw [entries, levels, entriesWithin, allOccurrences_occurrencesOf]
  change ctx.scopeEntries _ _ _ _ _ = _
  rw [scopeEntries, value_pure, List.flatMap_eq_nil_iff.2 hplaced]
  rfl

end QueryContext

theorem code_of_mem_fragmentCycleFaults {fragments : Table Query.Fragment} {f : Fault}
    (h : f ∈ fragmentCycleFaults fragments) : f.code = .fragmentCycle := by
  obtain ⟨cycle, -, hf⟩ := List.mem_filterMap.1 h
  obtain ⟨first, -, rfl⟩ := Option.map_eq_some_iff.1 hf
  rfl

namespace Merger

open Checked

variable {m : Merger} {operation : Query.Operation} {name : Name} {field : Field}
  {selections : List (List Query.Node)}

/-- **The document has one operation, a query for a field with structs as values.** The field is
selected without alias, arguments and directives, and no variable is a Boolean by default. -/
structure SelectsField (m : Merger) (operation : Query.Operation) (name : Name) (field : Field)
    (selections : List (List Query.Node)) : Prop where
  single : m.document.operations = [operation]
  query : operation.type = .query
  noDefaults : operation.booleanDefaults = []
  occurrences : operation.selections = occurrencesOf name selections
  nonempty : selections ≠ []
  object : ∃ object, m.schema.schema.type? m.schema.schema.roots.query = some (.object object)
  declared : m.schema.schema.field? m.schema.schema.roots.query name = some field
  structLike : m.schema.schema.isStructLike field.type.base = true

/-- **Merging the operation and merging the selections is alike**: both give the same selection, or
both fail for the same faults. -/
structure MergesAlike (m : Merger) (operation : Query.Operation) (name : Name) (field : Field)
    (selections : List (List Query.Node)) : Prop where
  selection : ∀ s, m.mergeOperations = .ok [⟨.query, operation.name,
      [⟨[name], m.schema.schema.roots.query, name, field.type, s⟩]⟩] ↔
    m.mergeScope field.type.base selections = .ok s
  faults : (∀ s, m.mergeScope field.type.base selections ≠ .ok s) →
    (∀ operations, m.mergeOperations ≠ .ok operations) ∧
      ∀ f, f ∈ faultsOf m.mergeOperations ↔ f ∈ faultsOf (m.mergeScope field.type.base selections)

theorem checkedOperations_single (h : m.SelectsField operation name field selections) :
    m.checkedOperations =
      ⟨[⟨.query, operation.name, ((m.context []).entries m.schema.schema.roots.query
          [⟨occurrencesOf name selections, true⟩]).value⟩],
        fragmentCycleFaults m.document.fragmentTable ++
          ((m.context []).entries m.schema.schema.roots.query
            [⟨occurrencesOf name selections, true⟩]).faults⟩ := by
  have hone : m.mergeOperation operation = (do
      let entries ← (m.context []).entries m.schema.schema.roots.query
        [⟨occurrencesOf name selections, true⟩]
      return some ⟨.query, operation.name, entries⟩) := by
    unfold mergeOperation
    rw [h.query, h.noDefaults, h.occurrences]
    rfl
  unfold checkedOperations
  rw [h.single, each, List.map_singleton, hone]
  simp [faulty, bind, pure]

/-- **The operation has what is gathered of its field**, and all faults of it and of the
document. -/
theorem checkedOperations_occurrencesOf (hc : NoNestedCycle m.document.fragmentTable)
    (h : m.SelectsField operation name field selections) (hname : name ≠ Name.typename) :
    m.checkedOperations =
      ⟨[⟨.query, operation.name, ((m.gathered field.type.base selections).value.map
          (Entry.mk [name] m.schema.schema.roots.query name field.type)).toList⟩],
        fragmentCycleFaults m.document.fragmentTable ++
          (m.gathered field.type.base selections).faults⟩ := by
  obtain ⟨object, hroot⟩ := h.object
  have hentries : (m.context []).entries m.schema.schema.roots.query
      [⟨occurrencesOf name selections, true⟩] = _ :=
    (m.context []).entries_occurrencesOf hc hroot h.declared h.structLike hname h.nonempty
  rw [checkedOperations_single h, hentries]
  simp [gathered]

/-- What is gathered of a field is no fragment cycle. -/
theorem not_mem_cycleFaults (h : m.SelectsField operation name field selections) {f : Fault}
    (hf : f ∈ (m.gathered field.type.base selections).faults) :
    f ∉ fragmentCycleFaults m.document.fragmentTable := by
  intro hcycle
  have hcode := (m.context []).code_of_mem_selectionWithin _ _ _ h.structLike hf
  rw [code_of_mem_fragmentCycleFaults hcycle] at hcode
  revert hcode
  decide

/-- Where both ways are alike, the operation fails for nothing that the selections do not have. -/
theorem MergesAlike.mem_gathered (ha : m.MergesAlike operation name field selections)
    (h : m.SelectsField operation name field selections) {f : Fault}
    (hf : f ∈ m.checkedOperations.faults) : f ∈ (m.gathered field.type.base selections).faults := by
  have hfails : f ∈ faultsOf m.mergeOperations := mem_faultsOf_result.2 hf
  rw [← mem_faultsOf_mergeScope h.structLike h.nonempty]
  refine ((ha.faults fun s hs => ?_).2 f).1 hfails
  rw [(ha.selection s).2 hs] at hfails
  cases hfails

theorem MergesAlike.fragmentCycleFaults_eq_nil
    (ha : m.MergesAlike operation name field selections)
    (h : m.SelectsField operation name field selections) :
    fragmentCycleFaults m.document.fragmentTable = [] := by
  refine List.eq_nil_iff_forall_not_mem.2 fun f hf => ?_
  have hmem : f ∈ m.checkedOperations.faults := by
    rw [checkedOperations_single h]
    exact List.mem_append_left _ hf
  exact not_mem_cycleFaults h (ha.mem_gathered h hmem) hf

/-- An operation that selects `__typename` succeeds without entries, whatever is selected of it. -/
theorem MergesAlike.ne_typename (ha : m.MergesAlike operation name field selections)
    (h : m.SelectsField operation name field selections) : name ≠ Name.typename := by
  rintro rfl
  have hempty : m.mergeOperations = .ok [⟨.query, operation.name, []⟩] := by
    unfold mergeOperations
    rw [checkedOperations_single h, QueryContext.entries_typename, ha.fragmentCycleFaults_eq_nil h]
    rfl
  by_cases hs : ∃ s, m.mergeScope field.type.base selections = .ok s
  · obtain ⟨s, hs⟩ := hs
    have hentry := (ha.selection s).2 hs
    rw [hempty] at hentry
    simp at hentry
  · exact (ha.faults fun s hok => hs ⟨s, hok⟩).1 _ hempty

theorem mergesAlike_of_noCycle (hc : NoNestedCycle m.document.fragmentTable)
    (h : m.SelectsField operation name field selections)
    (hcycles : fragmentCycleFaults m.document.fragmentTable = []) (hname : name ≠ Name.typename) :
    m.MergesAlike operation name field selections := by
  have hchecked := checkedOperations_occurrencesOf hc h hname
  rw [hcycles, List.nil_append] at hchecked
  have hfaults : ∀ f, f ∈ faultsOf m.mergeOperations ↔
      f ∈ faultsOf (m.mergeScope field.type.base selections) := fun f => by
    rw [mem_faultsOf_mergeScope h.structLike h.nonempty, mergeOperations, mem_faultsOf_result,
      hchecked]
  by_cases hnone : (m.gathered field.type.base selections).faults = []
  · obtain ⟨t, ht⟩ := Option.isSome_iff_exists.1 (isSome_gathered m field.type.base h.nonempty)
    have hscope := mergeScope_of_value h.structLike hnone ht
    have hoperations : m.mergeOperations = .ok [⟨.query, operation.name,
        [⟨[name], m.schema.schema.roots.query, name, field.type, t⟩]⟩] := by
      unfold mergeOperations result
      rw [hchecked, hnone, ht]
      rfl
    refine ⟨fun s => ?_, fun hfails => absurd hscope (hfails t)⟩
    rw [hoperations, hscope]
    simp
  · obtain ⟨f, hf⟩ := List.exists_mem_of_ne_nil _ hnone
    have hfails : ∀ operations, m.mergeOperations ≠ .ok operations := by
      intro operations hok
      have hmem : f ∈ faultsOf m.mergeOperations :=
        (hfaults f).2 ((mem_faultsOf_mergeScope h.structLike h.nonempty).2 hf)
      rw [hok] at hmem
      cases hmem
    refine ⟨fun s => iff_of_false (hfails _) fun hok => hnone ?_, fun _ => ⟨hfails, hfaults⟩⟩
    exact (mergeScope_eq_ok_iff.1 hok).2.1

/-- **Merging the operation and merging the selections is alike just if the document has no fragment
cycles**, which are searched for in operations only, and the field is not `__typename`. -/
theorem mergesAlike_iff (m : Merger) (operation : Query.Operation) (name : Name) (field : Field)
    (selections : List (List Query.Node)) (hc : NoNestedCycle m.document.fragmentTable)
    (h : m.SelectsField operation name field selections) :
    m.MergesAlike operation name field selections ↔
      fragmentCycleFaults m.document.fragmentTable = [] ∧ name ≠ Name.typename :=
  ⟨fun ha => ⟨ha.fragmentCycleFaults_eq_nil h, ha.ne_typename h⟩,
    fun ⟨hcycles, hname⟩ => mergesAlike_of_noCycle hc h hcycles hname⟩

/-- The field `x` of the struct `S`. -/
def fieldX : Query.Node := .field none ⟨"x", .refl true⟩ [] [] []

/-- The query `{ f { ...F } }`. -/
def spreadingF : Query.Operation where
  type := .query
  name := none
  variableDefinitions := []
  directives := []
  selections := occurrencesOf ⟨"f", .refl true⟩ [[.spread ⟨"F", .refl true⟩ []]]

/-- The field `f`, of the struct type `S`. -/
def fieldF : Field := ⟨⟨"f", .refl true⟩, .named ⟨"S", .refl true⟩ false, []⟩

/-- The query `{ f { ...F } }`, with selections for the fragment `F` on `S`. -/
def withFragment (selections : List Query.Node) : Merger where
  schema := {
    schema := {
      types := ⟨[.scalar Name.string,
        .object ⟨RootTypes.standard.query, [], ⟨[fieldF], by decide⟩⟩,
        .struct ⟨⟨"S", .refl true⟩,
          .ofFirsts [⟨⟨"x", .refl true⟩, .named Name.string false, []⟩]⟩], by decide⟩
      directives := .empty
      roots := .standard }
    shapeFaults_eq_nil := by decide +kernel }
  document := ⟨[spreadingF], [⟨⟨"F", .refl true⟩, ⟨"S", .refl true⟩, [], selections⟩]⟩

theorem selectsField_withFragment (selections : List Query.Node) :
    (withFragment selections).SelectsField spreadingF ⟨"f", by decide⟩ fieldF
      [[.spread ⟨"F", by decide⟩ []]] where
  single := rfl
  query := rfl
  noDefaults := rfl
  occurrences := rfl
  nonempty := by simp
  object := ⟨_, rfl⟩
  declared := rfl
  structLike := rfl

/-- Below the field `x` nothing is selected, so the fragment leads to no fragment there. -/
theorem noNestedCycle_withFragment {selections : List Query.Node}
    (h : ∀ name, ¬ Query.Spreads true selections name) :
    NoNestedCycle (withFragment selections).document.fragmentTable := by
  rintro name other ⟨fragment, hfind, hs⟩
  have hmem := List.mem_of_find?_eq_some hfind
  obtain rfl := List.mem_singleton.1 hmem
  exact absurd hs (h other)

theorem not_spreads_below {selections : List Query.Node}
    (h : ∀ node ∈ selections, node = fieldX ∨ ∃ name, node = .spread name []) (name : Name) :
    ¬ Query.Spreads true selections name := by
  intro hs
  cases hs with
  | inline hmem _ =>
    obtain he | ⟨_, he⟩ := h _ hmem <;> cases he
  | field hmem hs =>
    obtain he | ⟨_, he⟩ := h _ hmem <;> cases he
    -- nothing is selected of `x`
    cases hs with
    | spread hmem => cases hmem
    | inline hmem _ => cases hmem
    | field hmem _ => cases hmem

/-- Both ways are alike for the fragment `fragment F on S { x }`. -/
theorem mergesAlike_fieldX :
    (withFragment [fieldX]).MergesAlike spreadingF ⟨"f", by decide⟩ fieldF
      [[.spread ⟨"F", by decide⟩ []]] :=
  (mergesAlike_iff (withFragment [fieldX]) spreadingF ⟨"f", by decide⟩ fieldF
    [[.spread ⟨"F", by decide⟩ []]] (noNestedCycle_withFragment (not_spreads_below (by simp)))
    (selectsField_withFragment [fieldX])).2 ⟨by cbv, by decide⟩

/-- The selections of `fragment F on S { x ...F }`. -/
def spreadingItself : List Query.Node := [fieldX, .spread ⟨"F", .refl true⟩ []]

/-- **A fragment that spreads itself merges in the scope of a struct**, and does not in an
operation. -/
theorem not_mergesAlike_spreadingItself :
    NoNestedCycle (withFragment spreadingItself).document.fragmentTable ∧
      (withFragment spreadingItself).SelectsField spreadingF ⟨"f", by decide⟩ fieldF
        [[.spread ⟨"F", by decide⟩ []]] ∧
      ¬ (withFragment spreadingItself).MergesAlike spreadingF ⟨"f", by decide⟩ fieldF
        [[.spread ⟨"F", by decide⟩ []]] := by
  refine ⟨noNestedCycle_withFragment (not_spreads_below (by simp [spreadingItself])),
    selectsField_withFragment _, fun ha => ?_⟩
  have hscope : (withFragment spreadingItself).mergeScope ⟨"S", by decide⟩
      [[.spread ⟨"F", by decide⟩ []]] =
      .ok (.struct ⟨⟨"S", by decide⟩, [(⟨"x", by decide⟩, .whole)]⟩) := by
    cbv
  have hoperations : (withFragment spreadingItself).mergeOperations =
      .error (.single (.fragmentCycle ⟨"F", by decide⟩ "F -> F")) := by
    cbv
  have hentry := (ha.selection _).2 hscope
  rw [hoperations] at hentry
  cases hentry

end Merger

end StructQL
