import Mathlib.Data.List.Forall2
import StructQL.Proofs.Gathering.StructSelection

/-!
# The entries of an operation

* `QueryContext.applying`: the route by which an occurrence concerns an object type if the type is
  possible in the scope and under all conditions around the occurrence.
* `QueryContext.resolving`: the route by which the innermost condition and the scope decide, and by
  which the field stays on this condition if no type has both.
* `QueryContext.Visits`: the struct fields that a walk by a route comes to.
* `entriesWithin_spec`: the entries of sites are those of the walk by `resolving`.
* `mergeOperations_applying_iff`: **they are those of the walk by `applying` just if both walks come
  to the same fields.**
-/

namespace StructQL

namespace QueryContext

variable (ctx : QueryContext)

/-- **The innermost condition and the scope have the type in common.** If they have no type in
common, the field stays on the condition. -/
def resolving : Route := fun scope type conditions _ =>
  type ∈ ctx.schema.possibleTypes (innermost conditions scope) ∧
      type ∈ ctx.schema.possibleTypes scope ∨
    (∀ other ∈ ctx.schema.possibleTypes (innermost conditions scope),
      other ∉ ctx.schema.possibleTypes scope) ∧ type = innermost conditions scope

/-- **The object type is possible in the scope and under all conditions.** Nothing else is asked of
types that are no object types than by `resolving`. -/
def applying : Route := fun scope type conditions fieldName =>
  if ctx.schema.kind? type = some .object then
    type ∈ ctx.schema.possibleTypes scope ∧
      ∀ condition ∈ conditions, type ∈ ctx.schema.possibleTypes condition
  else ctx.resolving scope type conditions fieldName

/-- What is selected of a field at its place, by those of its occurrences that concern the type. -/
def routedTo (route : Route) (scope : Name) (S : Set (List Query.Node)) (place : Place) :
    Set (List Query.Node) :=
  {selections | place.fieldName ≠ Name.typename ∧ ∃ nodes ∈ S, ∃ conditions names,
    ctx.Selects nodes conditions names ⟨place.key, place.fieldName, selections⟩ ∧
      route scope place.parent conditions place.fieldName}

end QueryContext

/-- **A struct field that a walk comes to**, with what is selected of it. -/
structure Visit where
  path : List Name
  parent : Name
  fieldName : Name
  fieldType : TypeRef
  selections : Set (List Query.Node)

namespace QueryContext

variable (ctx : QueryContext)

/-- **A walk by a route comes to a struct field**, through any number of fields of objects. -/
inductive Visits (route : Route) : List Name → Name → Set (List Query.Node) → Visit → Prop where
  | here {path : List Name} {scope : Name} {S : Set (List Query.Node)} {place : Place}
    {field : Field} :
    (ctx.routedTo route scope S place).Nonempty →
    ctx.schema.field? place.parent place.fieldName = some field →
    ctx.schema.isStructLike field.type.base = true →
    Visits route path scope S ⟨path ++ [place.key], place.parent, place.fieldName, field.type,
      ctx.routedTo route scope S place⟩
  | deeper {path : List Name} {scope : Name} {S : Set (List Query.Node)} {place : Place}
    {field : Field} {v : Visit} :
    (ctx.routedTo route scope S place).Nonempty →
    ctx.schema.field? place.parent place.fieldName = some field →
    ctx.isComposite field.type.base = true →
    Visits route (path ++ [place.key]) field.type.base (ctx.routedTo route scope S place) v →
    Visits route path scope S v

/-- **An entry is that of a visit**: the same field, and with the selection that is merged from what
is selected of it. -/
structure IsEntryOf (e : Entry) (v : Visit) : Prop where
  path : e.path = v.path
  parent : e.parent = v.parent
  fieldName : e.fieldName = v.fieldName
  fieldType : e.fieldType = v.fieldType
  collects : ctx.Collects ctx.nearest v.fieldType.base v.selections e.selection

/-- **The entries are those of a walk**: each of a visit, and each visit with one. -/
structure EntriesBy (route : Route) (scope : Name) (S : Set (List Query.Node))
    (entries : List Entry) : Prop where
  visit : ∀ e ∈ entries, ∃ v, ctx.Visits route [] scope S v ∧ ctx.IsEntryOf e v
  entry : ∀ v, ctx.Visits route [] scope S v → ∃ e ∈ entries, ctx.IsEntryOf e v

/-- Two visits have the same entries. -/
structure SameEntry (v w : Visit) : Prop where
  path : v.path = w.path
  parent : v.parent = w.parent
  fieldName : v.fieldName = w.fieldName
  fieldType : v.fieldType = w.fieldType
  agree : ctx.Agree ctx.nearest ctx.nearest v.fieldType.base v.selections w.selections

/-- **Two walks come to the same fields**, with the same selected of each. -/
structure SameVisits (route₁ route₂ : Route) (scope : Name) (S : Set (List Query.Node)) :
    Prop where
  left : ∀ v, ctx.Visits route₁ [] scope S v → ∃ w, ctx.Visits route₂ [] scope S w ∧
    ctx.SameEntry v w
  right : ∀ w, ctx.Visits route₂ [] scope S w → ∃ v, ctx.Visits route₁ [] scope S v ∧
    ctx.SameEntry v w

variable {ctx} {route route₁ route₂ : Route} {scope : Name} {S : Set (List Query.Node)}
  {entries : List Entry}

theorem IsEntryOf.same {e : Entry} {v w : Visit} (hv : ctx.IsEntryOf e v)
    (hw : ctx.IsEntryOf e w) : ctx.SameEntry v w := by
  have htype := hv.fieldType.symm.trans hw.fieldType
  refine ⟨hv.path.symm.trans hw.path, hv.parent.symm.trans hw.parent,
    hv.fieldName.symm.trans hw.fieldName, htype, hv.collects.agree ?_⟩
  rw [htype]
  exact hw.collects

theorem IsEntryOf.of_same {e : Entry} {v w : Visit} (hv : ctx.IsEntryOf e v)
    (h : ctx.SameEntry v w) : ctx.IsEntryOf e w := by
  refine ⟨hv.path.trans h.path, hv.parent.trans h.parent, hv.fieldName.trans h.fieldName,
    hv.fieldType.trans h.fieldType, ?_⟩
  rw [← h.fieldType]
  exact hv.collects.of_agree h.agree

/-- **Entries of one walk are those of another one just if the walks come to the same.** -/
theorem EntriesBy.iff_sameVisits (h : ctx.EntriesBy route₁ scope S entries) :
    ctx.EntriesBy route₂ scope S entries ↔ ctx.SameVisits route₁ route₂ scope S := by
  constructor
  · intro h₂
    refine ⟨fun v hv => ?_, fun w hw => ?_⟩
    · obtain ⟨e, he, hev⟩ := h.entry v hv
      obtain ⟨w, hw, hew⟩ := h₂.visit e he
      exact ⟨w, hw, hev.same hew⟩
    · obtain ⟨e, he, hew⟩ := h₂.entry w hw
      obtain ⟨v, hv, hev⟩ := h.visit e he
      exact ⟨v, hv, hev.same hew⟩
  · intro hsame
    refine ⟨fun e he => ?_, fun w hw => ?_⟩
    · obtain ⟨v, hv, hev⟩ := h.visit e he
      obtain ⟨w, hw, hvw⟩ := hsame.left v hv
      exact ⟨w, hw, hev.of_same hvw⟩
    · obtain ⟨v, hv, hvw⟩ := hsame.right w hw
      obtain ⟨e, he, hev⟩ := h.entry v hv
      exact ⟨e, he, hev.of_same hvw⟩

/-! ## The walk of the entries -/

open Checked

variable {sites : List Site} {place : Place} {group occurrences : List Occurrence}
  {path : List Name}

/-- The groups in which the occurrences of a scope are gathered, by their place. -/
def placeGroups (ctx : QueryContext) (scope : Name) (occurrences : List Occurrence) :
    List (Place × List Occurrence) :=
  Pairs.group (occurrences.flatMap (ctx.placed scope))

theorem mem_placed {o other : Occurrence} :
    (place, other) ∈ ctx.placed scope o ↔ other = o ∧ o.name ≠ Name.typename ∧
      place.parent ∈ ctx.resolvers scope o ∧ place.key = o.responseKey ∧
        place.fieldName = o.name := by
  unfold placed
  obtain ⟨parent, key, fieldName⟩ := place
  by_cases h : o.name = Name.typename
  · simp [h]
  · simp only [h, if_false, List.mem_map, Prod.mk.injEq, Place.mk.injEq, ne_eq, not_false_eq_true,
      true_and]
    constructor
    · rintro ⟨type, htype, ⟨rfl, rfl, rfl⟩, rfl⟩
      exact ⟨rfl, htype, rfl, rfl⟩
    · rintro ⟨rfl, htype, rfl, rfl⟩
      exact ⟨parent, htype, ⟨rfl, rfl, rfl⟩, rfl⟩

theorem mem_placeGroup (h : (place, group) ∈ ctx.placeGroups scope occurrences)
    {o : Occurrence} :
    o ∈ group ↔ o ∈ occurrences ∧ o.name ≠ Name.typename ∧
      place.parent ∈ ctx.resolvers scope o ∧ place.key = o.responseKey ∧
        place.fieldName = o.name := by
  rw [Pairs.mem_values h, List.mem_flatMap]
  constructor
  · rintro ⟨other, hother, hplaced⟩
    obtain ⟨rfl, hrest⟩ := mem_placed.1 hplaced
    exact ⟨hother, hrest⟩
  · rintro ⟨ho, hrest⟩
    exact ⟨o, ho, mem_placed.2 ⟨rfl, hrest⟩⟩

theorem exists_placeGroup {o : Occurrence} (ho : o ∈ occurrences)
    (hname : o.name ≠ Name.typename) {parent : Name} (hparent : parent ∈ ctx.resolvers scope o) :
    ∃ group, (⟨parent, o.responseKey, o.name⟩, group) ∈ ctx.placeGroups scope occurrences :=
  Pairs.exists_group (List.mem_flatMap.2 ⟨o, ho, mem_placed.2 ⟨rfl, hname, hparent, rfl, rfl⟩⟩)

/-- A field that exists stays on the type that it is selected on only if no type in scope resolves
it. -/
theorem mem_resolvers {o : Occurrence} {type : Name}
    (h : (ctx.schema.field? o.parent o.name).isSome = true) :
    type ∈ ctx.resolvers scope o ↔
      type ∈ ctx.schema.possibleTypes o.parent ∧ type ∈ ctx.schema.possibleTypes scope ∨
        (∀ other ∈ ctx.schema.possibleTypes o.parent,
          other ∉ ctx.schema.possibleTypes scope) ∧ type = o.parent := by
  unfold resolvers
  rw [if_pos h]
  dsimp only
  split
  · rename_i hempty
    have hnone : ∀ other ∈ ctx.schema.possibleTypes o.parent,
        other ∉ ctx.schema.possibleTypes scope := by
      simpa using hempty
    rw [List.mem_singleton]
    constructor
    · exact fun he => .inr ⟨hnone, he⟩
    · rintro (⟨hp, hs⟩ | ⟨-, he⟩)
      · exact absurd hs (hnone type hp)
      · exact he
  · rename_i hne
    rw [List.mem_filter, List.contains_iff_mem]
    constructor
    · exact .inl
    · rintro (hboth | ⟨hnone, -⟩)
      · exact hboth
      · exact absurd (by simpa using hnone) hne

theorem mem_resolvers_self {o : Occurrence}
    (h : ctx.schema.field? o.parent o.name = none) : o.parent ∈ ctx.resolvers scope o := by
  unfold resolvers
  simp [h]

section

variable {gather : Name → List Site → Checked (Option Selection)}
  {descend : List Name → Name → List Site → Checked (List Entry)}

theorem faults_placeGroup
    (h : (ctx.scopeEntries gather descend path scope occurrences).faults = [])
    (hgroup : (place, group) ∈ ctx.placeGroups scope occurrences) :
    (ctx.entriesAt gather descend path place group).faults = [] := by
  unfold scopeEntries at h
  exact faults_each_eq_nil.1 (faults_bind_eq_nil.1 h).1 (place, group) hgroup

theorem mem_scopeEntries {e : Entry} :
    e ∈ (ctx.scopeEntries gather descend path scope occurrences).value ↔
      ∃ place group, (place, group) ∈ ctx.placeGroups scope occurrences ∧
        e ∈ (ctx.entriesAt gather descend path place group).value := by
  unfold scopeEntries placeGroups
  simp only [value_bind, value_pure, value_each, List.mem_flatten, List.mem_map, Prod.exists]
  constructor
  · rintro ⟨_, ⟨place, group, hgroup, rfl⟩, he⟩
    exact ⟨place, group, hgroup, he⟩
  · rintro ⟨place, group, hgroup, he⟩
    exact ⟨_, ⟨place, group, hgroup, rfl⟩, he⟩

theorem exists_field_of_entriesAt
    (h : (ctx.entriesAt gather descend path place group).faults = []) :
    ∃ field, ctx.schema.field? place.parent place.fieldName = some field := by
  unfold entriesAt at h
  cases hf : ctx.schema.field? place.parent place.fieldName with
  | some field => exact ⟨field, rfl⟩
  | none =>
    rw [hf] at h
    cases h

variable {field : Field}

theorem entriesAt_of_struct (hf : ctx.schema.field? place.parent place.fieldName = some field)
    (hs : ctx.schema.isStructLike field.type.base = true) :
    ctx.entriesAt gather descend path place group = (do
      let selection ← gather field.type.base (group.map Occurrence.site)
      return (selection.map
        (Entry.mk (path ++ [place.key]) place.parent place.fieldName field.type)).toList) := by
  unfold entriesAt
  simp only [hf, hs, if_true]

theorem not_isStructLike_of_isComposite {name : Name} (h : ctx.isComposite name = true) :
    ¬ ctx.schema.isStructLike name = true := by
  unfold isComposite at h
  unfold Schema.isStructLike
  cases hk : ctx.schema.kind? name with
  | none => simp
  | some kind =>
    rw [hk] at h
    cases kind with
    | struct | structUnion => cases h
    | _ => simp [TypeKind.isStructLike]

theorem entriesAt_of_composite (hf : ctx.schema.field? place.parent place.fieldName = some field)
    (hc : ctx.isComposite field.type.base = true) :
    ctx.entriesAt gather descend path place group =
      descend (path ++ [place.key]) field.type.base (group.map Occurrence.site) := by
  unfold entriesAt
  simp only [hf, not_isStructLike_of_isComposite hc, hc, if_true, Bool.false_eq_true, if_false]

theorem entriesAt_of_leaf (hf : ctx.schema.field? place.parent place.fieldName = some field)
    (hs : ¬ ctx.schema.isStructLike field.type.base = true)
    (hc : ¬ ctx.isComposite field.type.base = true) :
    ctx.entriesAt gather descend path place group = pure [] := by
  unfold entriesAt
  simp only [hf, hs, hc, Bool.false_eq_true, if_false]

/-- Without faults every field exists on the type that it is selected on. -/
theorem isSome_field_of_faults
    (h : (ctx.scopeEntries gather descend path scope occurrences).faults = []) :
    ∀ o ∈ occurrences, o.name ≠ Name.typename →
      (ctx.schema.field? o.parent o.name).isSome = true := by
  intro o ho hname
  cases hf : ctx.schema.field? o.parent o.name with
  | some _ => rfl
  | none =>
    -- an unknown field stays on its own type, and the group there has a fault
    obtain ⟨group, hgroup⟩ := exists_placeGroup ho hname (mem_resolvers_self hf)
    obtain ⟨field, hfield⟩ := exists_field_of_entriesAt (faults_placeGroup h hgroup)
    rw [hf] at hfield
    cases hfield

end

/-- The resolving route is that of the occurrences that are gathered at a place. -/
theorem mem_routedTo_resolving (h : (ctx.allOccurrences scope sites).faults = [])
    (hfields : ∀ o ∈ (ctx.allOccurrences scope sites).value, o.name ≠ Name.typename →
      (ctx.schema.field? o.parent o.name).isSome = true) {selections : List Query.Node} :
    selections ∈ ctx.routedTo ctx.resolving scope (included sites) place ↔
      ∃ o ∈ (ctx.allOccurrences scope sites).value, o.name ≠ Name.typename ∧
        place.parent ∈ ctx.resolvers scope o ∧ place.key = o.responseKey ∧
        place.fieldName = o.name ∧ o.isIncluded = true ∧ o.site.selections = selections := by
  constructor
  · rintro ⟨hname, nodes, hnodes, conditions, names, hs, hroute⟩
    obtain ⟨o, ho, hinc, hof, hop⟩ :=
      (exists_occurrence_iff h).2 ⟨nodes, hnodes, conditions, names, hs, rfl⟩
    have hn : o.name = place.fieldName := congrArg SelectedField.name hof
    have hk : o.responseKey = place.key := congrArg SelectedField.key hof
    have hsel : o.site.selections = selections := congrArg SelectedField.selections hof
    have hne : o.name ≠ Name.typename := by rwa [hn]
    refine ⟨o, ho, hne, ?_, hk.symm, hn.symm, hinc, hsel⟩
    rw [mem_resolvers (hfields o ho hne), hop]
    exact hroute
  · rintro ⟨o, ho, hname, hparent, hk, hn, hinc, rfl⟩
    obtain ⟨nodes, hnodes, conditions, names, hs, hp⟩ :=
      (exists_occurrence_iff h).1 ⟨o, ho, hinc, rfl, rfl⟩
    rw [mem_resolvers (hfields o ho hname), ← hp] at hparent
    refine ⟨by rwa [hn], nodes, hnodes, conditions, names, ?_, hparent⟩
    rw [hk, hn]
    exact hs

/-- The sites of a group are what the resolving route leads to. -/
theorem included_placeGroup (h : (ctx.allOccurrences scope sites).faults = [])
    (hfields : ∀ o ∈ (ctx.allOccurrences scope sites).value, o.name ≠ Name.typename →
      (ctx.schema.field? o.parent o.name).isSome = true)
    (hgroup : (place, group) ∈ ctx.placeGroups scope (ctx.allOccurrences scope sites).value) :
    included (group.map Occurrence.site) =
      ctx.routedTo ctx.resolving scope (included sites) place := by
  ext selections
  rw [mem_routedTo_resolving h hfields]
  constructor
  · rintro ⟨site, hsite, hinc, rfl⟩
    obtain ⟨o, ho, rfl⟩ := List.mem_map.1 hsite
    obtain ⟨hmem, hname, hparent, hk, hn⟩ := (mem_placeGroup hgroup).1 ho
    exact ⟨o, hmem, hname, hparent, hk, hn, hinc, rfl⟩
  · rintro ⟨o, ho, hname, hparent, hk, hn, hinc, rfl⟩
    have hmem := (mem_placeGroup hgroup).2 ⟨ho, hname, hparent, hk, hn⟩
    exact ⟨o.site, List.mem_map_of_mem hmem, hinc, rfl⟩

theorem exists_placeGroup_of_routedTo (h : (ctx.allOccurrences scope sites).faults = [])
    (hfields : ∀ o ∈ (ctx.allOccurrences scope sites).value, o.name ≠ Name.typename →
      (ctx.schema.field? o.parent o.name).isSome = true)
    (hne : (ctx.routedTo ctx.resolving scope (included sites) place).Nonempty) :
    ∃ group, (place, group) ∈ ctx.placeGroups scope (ctx.allOccurrences scope sites).value := by
  obtain ⟨selections, hsel⟩ := hne
  obtain ⟨o, ho, hname, hparent, hk, hn, -, -⟩ := (mem_routedTo_resolving h hfields).1 hsel
  obtain ⟨group, hgroup⟩ := exists_placeGroup ho hname hparent
  obtain ⟨parent, key, fieldName⟩ := place
  dsimp only at hk hn hparent hgroup
  rw [hk, hn]
  exact ⟨group, hgroup⟩

theorem faults_entriesWithin {levels : Nat}
    (h : (ctx.entriesWithin (levels + 1) path scope sites).faults = []) :
    (ctx.allOccurrences scope sites).faults = [] ∧
      (ctx.scopeEntries (ctx.selectionWithin levels) (ctx.entriesWithin levels) path scope
        (ctx.allOccurrences scope sites).value).faults = [] := by
  rw [entriesWithin, faults_bind_eq_nil] at h
  exact h

theorem Visits.nonempty {v : Visit} (h : ctx.Visits route path scope S v) : S.Nonempty := by
  have hplace : ∀ place, (ctx.routedTo route scope S place).Nonempty → S.Nonempty := by
    rintro place ⟨selections, -, nodes, hnodes, -⟩
    exact ⟨nodes, hnodes⟩
  cases h with
  | here hne _ _ => exact hplace _ hne
  | deeper hne _ _ _ => exact hplace _ hne

theorem Within.routedTo {levels : Nat} (hc : NoNestedCycle ctx.fragments)
    (hw : ctx.Within (levels + 1) S) {field : Field}
    (hf : ctx.schema.field? place.parent place.fieldName = some field)
    (hne : (ctx.routedTo route scope S place).Nonempty) :
    ctx.Within levels (ctx.routedTo route scope S place) := by
  refine hw.below hc (Schema.size_pos_of_field? hf) hne ?_
  rintro selections ⟨-, nodes, hnodes, conditions, names, hs, -⟩
  exact ⟨nodes, hnodes, conditions, names, _, hs, rfl⟩

/-- What the group of a place selects is within one level less. -/
theorem within_placeGroup {levels : Nat} {field : Field} (hc : NoNestedCycle ctx.fragments)
    (hw : (included sites).Nonempty → ctx.Within (levels + 1) (included sites))
    (hrouted : included (group.map Occurrence.site) =
      ctx.routedTo ctx.resolving scope (included sites) place)
    (hf : ctx.schema.field? place.parent place.fieldName = some field)
    (hne : (included (group.map Occurrence.site)).Nonempty) :
    ctx.Within levels (included (group.map Occurrence.site)) := by
  rw [hrouted] at hne ⊢
  obtain ⟨selections, hsel⟩ := hne
  have hsites : (included sites).Nonempty := by
    obtain ⟨-, nodes, hnodes, -⟩ := hsel
    exact ⟨nodes, hnodes⟩
  exact (hw hsites).routedTo hc hf ⟨selections, hsel⟩

/-- The selection of an entry is gathered from all that is routed to its place. -/
theorem gathers_placeGroup {levels : Nat} {field : Field} (hc : NoNestedCycle ctx.fragments)
    (hw : (included sites).Nonempty → ctx.Within (levels + 1) (included sites))
    (hrouted : included (group.map Occurrence.site) =
      ctx.routedTo ctx.resolving scope (included sites) place)
    (hf : ctx.schema.field? place.parent place.fieldName = some field)
    (hs : ctx.schema.isStructLike field.type.base = true)
    (h : (ctx.entriesAt (ctx.selectionWithin levels) (ctx.entriesWithin levels) path place
      group).faults = []) :
    ctx.Gathers (ctx.selectionWithin levels) field.type.base (group.map Occurrence.site) := by
  rw [entriesAt_of_struct hf hs] at h
  exact selectionWithin_spec hc levels field.type.base _ hs (within_placeGroup hc hw hrouted hf)
    (faults_bind_eq_nil.1 h).1

/-- A walk goes on from its path. -/
theorem Visits.length_lt {v : Visit} (h : ctx.Visits route path scope S v) :
    path.length < v.path.length := by
  induction h with
  | here _ _ _ => simp
  | deeper _ _ _ _ ih =>
    rw [List.length_append, List.length_singleton] at ih
    omega

/-- **The applying walk comes to object types of the scope only.** -/
theorem mem_possibleTypes_of_routedTo
    (hkind : ctx.schema.kind? place.parent = some .object)
    (h : (ctx.routedTo ctx.applying scope S place).Nonempty) :
    place.parent ∈ ctx.schema.possibleTypes scope := by
  obtain ⟨_, -, _, _, _, _, _, hroute⟩ := h
  unfold applying at hroute
  rw [if_pos hkind] at hroute
  exact hroute.1

/-- Each entry is one that the resolving walk comes to, where there are enough levels. -/
theorem exists_visits_of_mem_entriesWithin (hc : NoNestedCycle ctx.fragments) :
    ∀ (levels : Nat) (path : List Name) (scope : Name) (sites : List Site),
      ((included sites).Nonempty → ctx.Within levels (included sites)) →
      (ctx.entriesWithin levels path scope sites).faults = [] →
      ∀ e ∈ (ctx.entriesWithin levels path scope sites).value,
        ∃ v, ctx.Visits ctx.resolving path scope (included sites) v ∧ ctx.IsEntryOf e v := by
  intro levels
  induction levels with
  | zero =>
    intro path scope sites _ _ e he
    cases he
  | succ levels ih =>
    intro path scope sites hw h e he
    obtain ⟨hocc, hscope⟩ := faults_entriesWithin h
    -- the entry is one of the group of some place, and the walk comes to this place
    obtain ⟨place, group, hgroup, he⟩ := mem_scopeEntries.1 he
    have hfaults := faults_placeGroup hscope hgroup
    have hrouted := included_placeGroup hocc (isSome_field_of_faults hscope) hgroup
    obtain ⟨field, hf⟩ := exists_field_of_entriesAt hfaults
    by_cases hs : ctx.schema.isStructLike field.type.base = true
    · have hgathers := gathers_placeGroup hc hw hrouted hf hs hfaults
      rw [entriesAt_of_struct hf hs] at he
      simp only [value_bind, value_pure, Option.mem_toList, Option.map_eq_some_iff] at he
      obtain ⟨s, hsel, rfl⟩ := he
      have hne := hgathers.isSome_iff.1 (by rw [hsel]; rfl)
      have hcollects := hgathers.collects s hsel
      rw [hrouted] at hne hcollects
      exact ⟨_, .here hne hf hs, rfl, rfl, rfl, rfl, hcollects⟩
    · by_cases hcomp : ctx.isComposite field.type.base = true
      · rw [entriesAt_of_composite hf hcomp] at he hfaults
        have hinner := within_placeGroup hc hw hrouted hf
        obtain ⟨v, hv, hev⟩ := ih _ _ _ hinner hfaults e he
        rw [hrouted] at hv
        exact ⟨v, .deeper hv.nonempty hf hcomp hv, hev⟩
      · rw [entriesAt_of_leaf hf hs hcomp] at he
        cases he

/-- Whatever the resolving walk comes to has an entry, where there are enough levels. -/
theorem exists_mem_entriesWithin_of_visits (hc : NoNestedCycle ctx.fragments) :
    ∀ (levels : Nat) (path : List Name) (scope : Name) (sites : List Site),
      ((included sites).Nonempty → ctx.Within levels (included sites)) →
      (ctx.entriesWithin levels path scope sites).faults = [] →
      ∀ v, ctx.Visits ctx.resolving path scope (included sites) v →
        ∃ e ∈ (ctx.entriesWithin levels path scope sites).value, ctx.IsEntryOf e v := by
  intro levels
  induction levels with
  | zero =>
    intro path scope sites hw _ v hv
    -- a walk that comes to something starts from an included site
    exact absurd (hw hv.nonempty).pos (Nat.lt_irrefl 0)
  | succ levels ih =>
    intro path scope sites hw h v hv
    obtain ⟨hocc, hscope⟩ := faults_entriesWithin h
    have hfields := isSome_field_of_faults hscope
    -- the first place that the walk comes to has a group, as something is routed to it
    cases hv with
    | @here _ _ _ place field hne hf hs =>
      obtain ⟨group, hgroup⟩ := exists_placeGroup_of_routedTo hocc hfields hne
      have hfaults := faults_placeGroup hscope hgroup
      have hrouted := included_placeGroup hocc hfields hgroup
      have hgathers := gathers_placeGroup hc hw hrouted hf hs hfaults
      obtain ⟨s, hsel⟩ := Option.isSome_iff_exists.1 (hgathers.isSome_iff.2 (hrouted ▸ hne))
      have hcollects := hgathers.collects s hsel
      rw [hrouted] at hcollects
      refine ⟨⟨path ++ [place.key], place.parent, place.fieldName, field.type, s⟩,
        mem_scopeEntries.2 ⟨place, group, hgroup, ?_⟩, rfl, rfl, rfl, rfl, hcollects⟩
      rw [entriesAt_of_struct hf hs]
      simp [hsel]
    | @deeper _ _ _ place field _ hne hf hcomp hv =>
      obtain ⟨group, hgroup⟩ := exists_placeGroup_of_routedTo hocc hfields hne
      have hfaults := faults_placeGroup hscope hgroup
      have hrouted := included_placeGroup hocc hfields hgroup
      have hinner := within_placeGroup hc hw hrouted hf
      rw [entriesAt_of_composite hf hcomp] at hfaults
      rw [← hrouted] at hv
      obtain ⟨e, he, hev⟩ := ih _ _ _ hinner hfaults v hv
      refine ⟨e, mem_scopeEntries.2 ⟨place, group, hgroup, ?_⟩, hev⟩
      rw [entriesAt_of_composite hf hcomp]
      exact he

/-- **The entries of sites are those of the resolving walk**, where there are enough levels. -/
theorem entriesWithin_spec (hc : NoNestedCycle ctx.fragments) (levels : Nat) (path : List Name)
    (scope : Name) (sites : List Site)
    (hw : (included sites).Nonempty → ctx.Within levels (included sites))
    (h : (ctx.entriesWithin levels path scope sites).faults = []) :
    (∀ e ∈ (ctx.entriesWithin levels path scope sites).value,
      ∃ v, ctx.Visits ctx.resolving path scope (included sites) v ∧ ctx.IsEntryOf e v) ∧
    ∀ v, ctx.Visits ctx.resolving path scope (included sites) v →
      ∃ e ∈ (ctx.entriesWithin levels path scope sites).value, ctx.IsEntryOf e v :=
  ⟨exists_visits_of_mem_entriesWithin hc levels path scope sites hw h,
    exists_mem_entriesWithin_of_visits hc levels path scope sites hw h⟩

end QueryContext

namespace Merger

open QueryContext Checked

variable {m : Merger} {operation : Query.Operation} {results : List MergedOperation}

/-- **A merged operation has the entries of a walk** from the type that the operation starts
from. -/
structure IsMergedBy (m : Merger) (route : QueryContext → Route) (operation : Query.Operation)
    (result : MergedOperation) : Prop where
  type : result.type = operation.type
  name : result.name = operation.name
  entries : ∃ root, m.schema.schema.roots.root? operation.type = some root ∧
    (m.context operation.booleanDefaults).EntriesBy (route (m.context operation.booleanDefaults))
      root {operation.selections} result.entries

theorem included_singleton (nodes : List Query.Node) : included [⟨nodes, true⟩] = {nodes} := by
  ext other
  constructor
  · rintro ⟨site, hsite, -, rfl⟩
    rw [List.mem_singleton.1 hsite]
    rfl
  · rintro rfl
    exact ⟨_, List.mem_singleton_self _, rfl, rfl⟩

theorem isMergedBy_of_mergeOperation (hc : NoNestedCycle m.document.fragmentTable)
    (h : (m.mergeOperation operation).faults = []) :
    ∃ result, (m.mergeOperation operation).value = some result ∧
      m.IsMergedBy QueryContext.resolving operation result := by
  unfold mergeOperation at h ⊢
  cases hroot : m.schema.schema.roots.root? operation.type with
  | none =>
    rw [hroot] at h
    cases h
  | some root =>
    rw [hroot] at h
    have hentries := (faults_bind_eq_nil.1 h).1
    refine ⟨_, rfl, rfl, rfl, root, hroot, ?_⟩
    have hspec := entriesWithin_spec hc _ [] root _ (fun _ => within_levels _) hentries
    rw [included_singleton] at hspec
    exact ⟨hspec.1, hspec.2⟩

/-- **The merged operations are those of the document**, one by one, with what holds of an operation
without faults. -/
theorem forall₂_of_mergeOperations {P : Query.Operation → MergedOperation → Prop}
    (hP : ∀ operation, (m.mergeOperation operation).faults = [] →
      ∃ result, (m.mergeOperation operation).value = some result ∧ P operation result)
    (h : m.mergeOperations = .ok results) : List.Forall₂ P m.document.operations results := by
  obtain ⟨hfaults, rfl⟩ := result_eq_ok h
  have heach := faults_each_eq_nil.1 (faults_bind_eq_nil.1 (faults_bind_eq_nil.1 hfaults).2).1
  -- without faults every operation has a result, so that none is dropped
  unfold checkedOperations
  simp only [value_bind, value_pure, value_each]
  generalize m.document.operations = operations at heach ⊢
  induction operations with
  | nil => exact .nil
  | cons operation rest ih =>
    obtain ⟨result, hresult, hmerged⟩ := hP operation (heach operation List.mem_cons_self)
    rw [List.map_cons, hresult]
    exact .cons hmerged (ih fun other hother => heach other (List.mem_cons_of_mem _ hother))

/-- **Merged operations have the entries of the resolving walk.** -/
theorem isMergedBy_of_mergeOperations (hc : NoNestedCycle m.document.fragmentTable)
    (h : m.mergeOperations = .ok results) :
    List.Forall₂ (m.IsMergedBy QueryContext.resolving) m.document.operations results :=
  forall₂_of_mergeOperations (fun _ hfaults => isMergedBy_of_mergeOperation hc hfaults) h

theorem IsMergedBy.iff_sameVisits {route₁ route₂ : QueryContext → Route}
    {result : MergedOperation} (h : m.IsMergedBy route₁ operation result) :
    m.IsMergedBy route₂ operation result ↔
      ∀ root, m.schema.schema.roots.root? operation.type = some root →
        (m.context operation.booleanDefaults).SameVisits
          (route₁ (m.context operation.booleanDefaults))
          (route₂ (m.context operation.booleanDefaults)) root {operation.selections} := by
  obtain ⟨root, hroot, hentries⟩ := h.entries
  constructor
  · rintro ⟨-, -, other, hother, hby⟩ root' hroot'
    obtain rfl := Option.some.inj (hroot.symm.trans hother)
    obtain rfl := Option.some.inj (hroot.symm.trans hroot')
    exact hentries.iff_sameVisits.1 hby
  · intro hsame
    exact ⟨h.type, h.name, root, hroot, hentries.iff_sameVisits.2 (hsame root hroot)⟩

/-- **They have the entries of the applying walk just if both walks come to the same fields.** -/
theorem mergeOperations_applying_iff (m : Merger) (hc : NoNestedCycle m.document.fragmentTable)
    (results : List MergedOperation) (h : m.mergeOperations = .ok results) :
    List.Forall₂ (m.IsMergedBy QueryContext.applying) m.document.operations results ↔
      ∀ operation ∈ m.document.operations, ∀ root,
        m.schema.schema.roots.root? operation.type = some root →
        (m.context operation.booleanDefaults).SameVisits
          (m.context operation.booleanDefaults).resolving
          (m.context operation.booleanDefaults).applying root {operation.selections} := by
  have hresolving := isMergedBy_of_mergeOperations hc h
  clear h
  generalize m.document.operations = operations at hresolving ⊢
  induction hresolving with
  | nil => simp
  | cons hmerged _ ih =>
    rw [List.forall₂_cons, List.forall_mem_cons, hmerged.iff_sameVisits]
    exact and_congr_right fun _ => ih

/-- The query `{ ... on N { ... on C { s { z } } } }`. -/
def throughInterface : Query.Operation where
  type := .query
  name := none
  variableDefinitions := []
  directives := []
  selections := [.inline (some ⟨"N", .refl true⟩) [] [.inline (some ⟨"C", .refl true⟩) []
    [.field none ⟨"s", .refl true⟩ [] [] [.field none ⟨"z", .refl true⟩ [] [] []]]]]

/-- The object types `Query` and `C`, which both implement `N` with a struct field `s`. -/
def sharedInterface : Merger where
  schema := {
    schema := {
      types := ⟨[.scalar Name.string,
        .interface ⟨⟨"N", .refl true⟩, [], ⟨[⟨⟨"s", .refl true⟩, .named ⟨"S", .refl true⟩ false, []⟩],
          by decide⟩⟩,
        .object ⟨RootTypes.standard.query, [⟨"N", .refl true⟩],
          ⟨[⟨⟨"s", .refl true⟩, .named ⟨"S", .refl true⟩ false, []⟩], by decide⟩⟩,
        .object ⟨⟨"C", .refl true⟩, [⟨"N", .refl true⟩],
          ⟨[⟨⟨"s", .refl true⟩, .named ⟨"S", .refl true⟩ false, []⟩], by decide⟩⟩,
        .struct ⟨⟨"S", .refl true⟩, ⟨[⟨⟨"z", .refl true⟩, .named Name.string false, []⟩],
          by decide⟩⟩], by decide⟩
      directives := .empty
      roots := .standard }
    shapeFaults_eq_nil := by decide +kernel }
  document := ⟨[throughInterface], []⟩

/-- An entry for the field `s` of `C`. -/
def entryOfC : Entry where
  path := [⟨"s", .refl true⟩]
  parent := ⟨"C", .refl true⟩
  fieldName := ⟨"s", .refl true⟩
  fieldType := .named ⟨"S", .refl true⟩ false
  selection := .struct ⟨⟨"S", .refl true⟩, [(⟨"z", .refl true⟩, .whole)]⟩

theorem noNestedCycle_sharedInterface : NoNestedCycle sharedInterface.document.fragmentTable := by
  rintro name other ⟨fragment, hfind, -⟩
  cases hfind

theorem mergeOperations_throughInterface :
    sharedInterface.mergeOperations = .ok [⟨.query, none, [entryOfC]⟩] := by
  cbv

/-- No value of `Query` is a `C`, so there is no entry for `C`. -/
theorem not_isMergedBy_throughInterface :
    ¬ List.Forall₂ (sharedInterface.IsMergedBy QueryContext.applying)
      sharedInterface.document.operations [⟨.query, none, [entryOfC]⟩] := by
  intro h
  cases h with
  | cons hmerged _ =>
    obtain ⟨root, hroot, hby⟩ := hmerged.entries
    cases hroot
    obtain ⟨v, hv, hentry⟩ := hby.visit entryOfC (List.mem_singleton_self _)
    cases hv with
    | here hne _ _ =>
      -- only `Query` is possible in the scope, and the entry is for `C`
      have hparent := hentry.parent
      dsimp only at hparent
      have hmem := mem_possibleTypes_of_routedTo (by rw [← hparent]; decide) hne
      rw [← hparent] at hmem
      revert hmem
      decide
    | deeper _ _ _ hv =>
      -- the path of the entry is too short for a visit below a field
      have hlt := hv.length_lt
      rw [← hentry.path] at hlt
      simp [entryOfC] at hlt

/-- The walks differ where a fragment on an interface leads to a type outside of the scope. -/
theorem not_sameVisits_throughInterface :
    ¬ ∀ operation ∈ sharedInterface.document.operations, ∀ root,
      sharedInterface.schema.schema.roots.root? operation.type = some root →
      (sharedInterface.context operation.booleanDefaults).SameVisits
        (sharedInterface.context operation.booleanDefaults).resolving
        (sharedInterface.context operation.booleanDefaults).applying root
        {operation.selections} := fun hsame =>
  not_isMergedBy_throughInterface ((mergeOperations_applying_iff sharedInterface
    noNestedCycle_sharedInterface _ mergeOperations_throughInterface).2 hsame)

/-- **An entry may be for an object type that is not possible in the scope.** -/
theorem mergeOperations_not_applying :
    NoNestedCycle sharedInterface.document.fragmentTable ∧
      sharedInterface.mergeOperations = .ok [⟨.query, none, [entryOfC]⟩] ∧
      ¬ List.Forall₂ (sharedInterface.IsMergedBy QueryContext.applying)
        sharedInterface.document.operations [⟨.query, none, [entryOfC]⟩] :=
  ⟨noNestedCycle_sharedInterface, mergeOperations_throughInterface,
    not_isMergedBy_throughInterface⟩

end Merger

end StructQL
