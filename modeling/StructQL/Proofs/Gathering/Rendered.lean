import StructQL.Proofs.Gathering.WellScoped
import StructQL.Proofs.Query.Selection

/-!
# A rendered selection selects itself

What a selection lists in a query is gathered back to the selection itself. A field of a struct has
one occurrence, which stands on the struct; members of a struct union that were left out are members
that no occurrence concerns.

* `occurrenceOf`: the occurrence of a selected field.
* `expand_fieldNodes`, `expand_memberNodes`: the occurrences of what a selection lists.
* `fieldSet_occurrences`: the occurrences of the fields of a struct select these fields.
* `scopeSelection_nodes`: and so do those of a struct or a struct union.
* `selectionWithin_nodes`: **what a selection lists selects just that**, on enough levels.
* `Merger.rendered_selects_itself`: **the text of a merged selection is a query that merges to it.**
-/

namespace StructQL

open Selection

/-! ## What a selection lists -/

namespace Selection

variable {s t : Selection} {type name member : Name} {fields : List (Name × Selection)}
  {members : List (Name × FieldSet Selection)} {set : FieldSet Selection}

theorem mem_fieldNodes (h : (name, s) ∈ fields) :
    .field none name [] [] s.nodes ∈ fieldNodes fields := by
  induction fields with
  | nil => cases h
  | cons first others ih =>
    rw [fieldNodes]
    rcases List.mem_cons.1 h with rfl | hmem
    · exact List.mem_cons_self
    · exact List.mem_cons_of_mem _ (ih hmem)

theorem mem_memberNodes (h : (member, set) ∈ members) (hne : set.fields ≠ []) :
    .inline (some member) [] (setNodes set) ∈ memberNodes members := by
  induction members with
  | nil => cases h
  | cons first others ih =>
    rw [memberNodes]
    rcases List.mem_cons.1 h with rfl | hmem
    · simp [hne]
    · exact List.mem_append_right _ (ih hmem)

/-- Fewer fields are listed below a field than with it. -/
theorem fieldCountOf_lt_of_mem (h : (name, s) ∈ fields) :
    Query.fieldCountOf s.nodes < Query.fieldCountOf (fieldNodes fields) := by
  have hle := Query.fieldCount_le_of_mem (mem_fieldNodes h)
  rw [Query.Node.fieldCount] at hle
  omega

theorem fieldCountOf_lt_of_fieldsOf? (hfields : s.fieldsOf? type = some fields)
    (h : (name, t) ∈ fields) : Query.fieldCountOf t.nodes < Query.fieldCountOf s.nodes := by
  cases s with
  | whole => cases hfields
  | struct set =>
    obtain ⟨_, selected⟩ := set
    obtain ⟨rfl, rfl⟩ := fieldsOf?_struct.1 hfields
    exact fieldCountOf_lt_of_mem h
  | union _ members =>
    obtain ⟨⟨_, selected⟩, hset, rfl⟩ := fieldsOf?_union.1 hfields
    have hlt := fieldCountOf_lt_of_mem h
    have hle := Query.fieldCount_le_of_mem
      (mem_memberNodes (Pairs.mem_of_lookup hset) (List.ne_nil_of_mem h))
    rw [Query.Node.fieldCount, setNodes] at hle
    rw [nodes]
    exact hlt.trans_le hle

theorem Filled.isEmpty_eq_false (h : s.Filled) : s.isEmpty = false := by
  cases h with
  | whole => rfl
  | struct hempty _ => exact hempty
  | union hempty _ => exact hempty

theorem Filled.of_fieldsOf? (h : s.Filled) (hfields : s.fieldsOf? type = some fields)
    (ht : (name, t) ∈ fields) : t.Filled := by
  cases h with
  | whole => cases hfields
  | struct _ hnested =>
    obtain ⟨rfl, rfl⟩ := fieldsOf?_struct.1 hfields
    exact hnested name t ht
  | union _ hnested =>
    obtain ⟨set, hset, rfl⟩ := fieldsOf?_union.1 hfields
    exact hnested type set name t (Pairs.mem_of_lookup hset) ht

end Selection

namespace QueryContext

open Checked

variable {ctx : QueryContext} {scope type name member : Name} {s t : Selection}
  {fields : List (Name × Selection)} {members : List (Name × FieldSet Selection)}
  {gather : Name → List Site → Checked (Option Selection)} {unopened : Table Query.Fragment}

/-! ## Occurrences -/

/-- **The occurrence of a selected field** on a type. -/
def occurrenceOf (type : Name) (p : Name × Selection) : Occurrence :=
  ⟨type, none, p.1, [], [], ⟨p.2.nodes, true⟩⟩

theorem expand_fieldNodes (fields : List (Name × Selection)) :
    ctx.expand type (fieldNodes fields) true unopened = pure (fields.map (occurrenceOf type)) := by
  induction fields with
  | nil =>
    rw [fieldNodes, expand]
    rfl
  | cons first others ih =>
    rw [fieldNodes, expand_cons, expand_field, ih, isIncluded_nil]
    rfl

theorem expand_memberNodes
    (h : ∀ member ∈ members.map Prod.fst, ctx.schema.canApply scope member = true) :
    ctx.expand scope (memberNodes members) true unopened =
      pure (members.flatMap fun p => p.2.fields.map (occurrenceOf p.1)) := by
  induction members with
  | nil =>
    rw [memberNodes, expand]
    rfl
  | cons first others ih =>
    obtain ⟨member, type, fields⟩ := first
    have hothers := ih fun other hother => h other (List.mem_cons_of_mem _ hother)
    rw [memberNodes, List.flatMap_cons]
    cases fields with
    | nil =>
      -- the member is not listed, and has no occurrences
      simpa using hothers
    | cons first rest =>
      have happly : ctx.schema.canApply scope member = true := h member List.mem_cons_self
      have hinline : ctx.expand scope
          [.inline (some member) [] (setNodes ⟨type, first :: rest⟩)] true unopened =
            pure ((first :: rest).map (occurrenceOf member)) := by
        rw [expand_inline, Option.getD_some, if_pos happly, isIncluded_nil, Bool.and_true, setNodes,
          expand_fieldNodes]
      simp only [List.isEmpty_cons, Bool.false_eq_true, if_false, List.singleton_append]
      rw [expand_cons, hinline, hothers]
      rfl

/-! ## The fields of a struct -/

/-- **Gathering what the fields of structs list gives what is selected of them.** -/
def GathersNested (ctx : QueryContext) (gather : Name → List Site → Checked (Option Selection))
    (s : Selection) : Prop :=
  ∀ type fields name t base, s.fieldsOf? type = some fields → (name, t) ∈ fields →
    ctx.structField? type name = some base → gather base [⟨t.nodes, true⟩] = pure (some t)

theorem formFaults_occurrenceOf (p : Name × Selection) :
    ctx.formFaults (occurrenceOf type p) = [] := by
  simp [formFaults, occurrenceOf]

/-- A field that a struct has is not missing. -/
theorem missingFault?_of_struct {struct : StructType} {o : Occurrence}
    (hstruct : ctx.schema.type? o.parent = some (.struct struct))
    (hfield : (ctx.schema.field? o.parent o.name).isSome = true) : ctx.missingFault? o = none := by
  have hcontains : struct.fields.contains o.name = true := by
    obtain ⟨field, hfield⟩ := Option.isSome_iff_exists.1 hfield
    unfold Schema.field? at hfield
    rw [hstruct] at hfield
    exact Table.contains_of_find? hfield
  unfold missingFault?
  rw [hstruct]
  exact if_pos hcontains

theorem leafSelection_occurrenceOf (leaf : Name) :
    leafSelection leaf [occurrenceOf type (name, .whole)] = pure (some .whole) := by
  simp [leafSelection, leafFaults, occurrenceOf, nodes, Site.isBare, Occurrence.isIncluded, pure]

/-- **The occurrence of a field selects what is selected of it.** -/
theorem fieldSelection_occurrenceOf {struct : StructType}
    (hstruct : ctx.schema.type? type = some (.struct struct)) (hhas : ctx.HasField type name)
    (hleaf : ctx.structField? type name = none → t = .whole)
    (hnested : ∀ base, ctx.structField? type name = some base →
      gather base [⟨t.nodes, true⟩] = pure (some t)) :
    ctx.fieldSelection gather type name [occurrenceOf type (name, t)] = pure (some t) := by
  unfold fieldSelection
  by_cases hname : name = Name.typename
  · -- no struct declares `__typename`, and it is a leaf
    have hbase : ctx.structField? type name = none := if_pos hname
    rw [if_pos hname, hleaf hbase]
    exact leafSelection_occurrenceOf Name.string
  · have hsome : (ctx.schema.field? type name).isSome = true := hhas.resolve_left hname
    have hmissing : ctx.missingFault? (occurrenceOf type (name, t)) = none :=
      missingFault?_of_struct hstruct hsome
    have hexisting : ctx.existing [occurrenceOf type (name, t)] =
        pure [occurrenceOf type (name, t)] := by
      simp [existing, hmissing, pure]
    obtain ⟨field, hfield⟩ := Option.isSome_iff_exists.1 hsome
    rw [if_neg hname, hexisting, bind_pure_left, hfield]
    dsimp only
    by_cases hlike : ctx.schema.isStructLike field.type.base = true
    · have hbase : ctx.structField? type name = some field.type.base :=
        structField?_eq_some_iff.2 ⟨hname, field, hfield, rfl, hlike⟩
      have hgather := hnested field.type.base hbase
      simpa [hlike, occurrenceOf] using hgather
    · have hbase : ctx.structField? type name = none := by
        simp [structField?, hname, hfield, hlike]
      have hselection : leafSelection field.type.base [occurrenceOf type (name, .whole)] =
          pure (some .whole) := leafSelection_occurrenceOf field.type.base
      rw [hleaf hbase]
      simpa [hlike] using hselection

theorem fieldSet_eq (occurrences : List Occurrence) :
    ctx.fieldSet gather type occurrences = (do
      faulty (occurrences.flatMap ctx.formFaults)
      let found ← each (fieldGroups occurrences) fun p => do
        let selection ← ctx.fieldSelection gather type p.1 p.2
        return selection.map fun s => (p.1, s)
      return ⟨type, found.filterMap id⟩) :=
  rfl

/-- Each of the fields of a struct is a group of its own. -/
theorem fieldGroups_occurrences (hnd : (fields.map Prod.fst).Nodup) :
    fieldGroups (fields.map (occurrenceOf type)) =
      fields.map fun p => (p.1, [occurrenceOf type p]) := by
  have hkeys : ((fields.map fun p => (p.1, occurrenceOf type p)).map Prod.fst).Nodup := by
    simpa [Function.comp_def] using hnd
  have hgroups := Pairs.group_of_nodup hkeys
  rw [List.map_map] at hgroups
  rw [fieldGroups, List.map_map]
  exact hgroups

/-- **The occurrences of the fields of a struct select these fields.** -/
theorem fieldSet_occurrences (hnd : (fields.map Prod.fst).Nodup)
    (h : ∀ name t, (name, t) ∈ fields →
      ctx.fieldSelection gather type name [occurrenceOf type (name, t)] = pure (some t)) :
    ctx.fieldSet gather type (fields.map (occurrenceOf type)) = pure ⟨type, fields⟩ := by
  have hform : (fields.map (occurrenceOf type)).flatMap ctx.formFaults = [] := by
    rw [List.flatMap_map, List.flatMap_eq_nil_iff]
    intro p _
    exact formFaults_occurrenceOf p
  have heach : each fields (fun p => do
        let selection ← ctx.fieldSelection gather type p.1 [occurrenceOf type p]
        return selection.map fun s => (p.1, s)) = pure (fields.map some) := by
    refine each_eq_pure ?_
    intro p hp
    rw [h p.1 p.2 hp]
    rfl
  rw [fieldSet_eq, hform, fieldGroups_occurrences hnd, each_map, heach]
  simp [faulty, bind, pure]

/-! ## The scope -/

/-- A field that is selected on a struct concerns this struct alone. -/
theorem concerns_occurrenceOf (hpossible : ctx.schema.possibleTypes type = [type])
    (p : Name × Selection) : ctx.concerns member (occurrenceOf type p) = decide (member = type) := by
  unfold concerns occurrenceOf
  rw [hpossible, List.contains_cons, List.contains_nil, Bool.or_false]
  exact beq_eq_decide member type

/-- **Of the occurrences of all members those of one member concern it.** -/
theorem filter_concerns (hnd : (members.map Prod.fst).Nodup)
    (hpossible : ∀ other ∈ members.map Prod.fst, ctx.schema.possibleTypes other = [other])
    {set : FieldSet Selection} (hset : (member, set) ∈ members) :
    (members.flatMap fun p => p.2.fields.map (occurrenceOf p.1)).filter (ctx.concerns member) =
      set.fields.map (occurrenceOf member) := by
  have hone : ∀ p ∈ members, (p.2.fields.map (occurrenceOf p.1)).filter (ctx.concerns member) =
      if p.1 = member then p.2.fields.map (occurrenceOf p.1) else [] := by
    intro p hp
    have hp := hpossible p.1 (List.mem_map_of_mem hp)
    by_cases he : p.1 = member
    · rw [if_pos he, List.filter_eq_self]
      intro o ho
      obtain ⟨field, -, rfl⟩ := List.mem_map.1 ho
      rw [concerns_occurrenceOf hp, he, decide_eq_true rfl]
    · rw [if_neg he, List.filter_eq_nil_iff]
      intro o ho
      obtain ⟨field, -, rfl⟩ := List.mem_map.1 ho
      rw [concerns_occurrenceOf hp]
      simpa using Ne.symm he
  rw [List.filter_flatMap, List.flatMap_congr hone]
  exact Pairs.flatMap_of_key hnd hset _

/-- A member of a struct union is a struct, and a fragment on it can apply. -/
theorem applies_to_member {union : UnionType} (hw : ctx.schema.WellShaped)
    (hunion : ctx.schema.structUnion? scope = some union)
    (hmember : member ∈ distinctNames union.members) :
    ctx.schema.possibleTypes member = [member] ∧ ctx.schema.canApply scope member = true := by
  obtain ⟨struct, hstruct⟩ :=
    hw.struct_of_member (Schema.structUnion?_eq_some_iff.1 hunion) (mem_distinctNames.1 hmember)
  have hpossible : ctx.schema.possibleTypes member = [member] := by
    simp [Schema.possibleTypes, hstruct]
  have hcommon : member ∈ ctx.schema.possibleTypes scope := by
    rwa [Schema.possibleTypes_of_structUnion hunion]
  refine ⟨hpossible, ?_⟩
  unfold Schema.canApply
  simp [hstruct, hpossible, hcommon]

/-- **The occurrences of the fields of all members select these members**, if those of the fields of
each do. -/
theorem scopeSelection_members {union : UnionType} (hunion : ctx.schema.structUnion? scope = some union)
    (hkeys : members.map Prod.fst = distinctNames union.members)
    (hpossible : ∀ member ∈ members.map Prod.fst, ctx.schema.possibleTypes member = [member])
    (h : ∀ member set, (member, set) ∈ members →
      ctx.fieldSet gather member (set.fields.map (occurrenceOf member)) = pure set) :
    ctx.scopeSelection gather scope (members.flatMap fun p => p.2.fields.map (occurrenceOf p.1)) =
      pure (.union scope members) := by
  have hnd : (members.map Prod.fst).Nodup := hkeys ▸ nodup_distinctNames _
  have hmember : ∀ p ∈ members, (do
      let set ← ctx.fieldSet gather p.1
        ((members.flatMap fun p => p.2.fields.map (occurrenceOf p.1)).filter (ctx.concerns p.1))
      return (p.1, set)) = (pure p : Checked (Name × FieldSet Selection)) := by
    intro p hp
    rw [filter_concerns hnd hpossible hp, h p.1 p.2 hp]
    rfl
  have heach := each_eq_pure (g := id) hmember
  unfold scopeSelection
  rw [hunion]
  dsimp only
  rw [← hkeys, each_map, heach, List.map_id]
  rfl

/-- What the fields of a struct list is gathered back to them, in a scope that is no struct union. -/
theorem scopeSelection_structNodes {fields : List (Name × Selection)}
    (hunion : ctx.schema.structUnion? scope = none)
    (h : ctx.fieldSet gather scope (fields.map (occurrenceOf scope)) = pure ⟨scope, fields⟩) :
    ∃ occurrences,
      ctx.allOccurrences scope [⟨(Selection.struct ⟨scope, fields⟩).nodes, true⟩] =
        pure occurrences ∧
      ctx.scopeSelection gather scope occurrences = pure (.struct ⟨scope, fields⟩) := by
  have hoccurrences : ctx.occurrences scope ⟨(Selection.struct ⟨scope, fields⟩).nodes, true⟩ =
      pure (fields.map (occurrenceOf scope)) := by
    rw [occurrences, nodes, setNodes]
    exact expand_fieldNodes fields
  refine ⟨_, allOccurrences_singleton hoccurrences, ?_⟩
  unfold scopeSelection
  rw [hunion]
  dsimp only
  rw [h]
  rfl

/-- What the members of a struct union list is gathered back to them. -/
theorem scopeSelection_unionNodes {union : UnionType} (hw : ctx.schema.WellShaped)
    (hunion : ctx.schema.structUnion? scope = some union)
    (hkeys : members.map Prod.fst = distinctNames union.members)
    (h : ∀ member set, (member, set) ∈ members →
      ctx.fieldSet gather member (set.fields.map (occurrenceOf member)) = pure set) :
    ∃ occurrences,
      ctx.allOccurrences scope [⟨(Selection.union scope members).nodes, true⟩] =
        pure occurrences ∧
      ctx.scopeSelection gather scope occurrences = pure (.union scope members) := by
  have hmembers : ∀ member ∈ members.map Prod.fst, ctx.schema.possibleTypes member = [member] ∧
      ctx.schema.canApply scope member = true := by
    intro member hmember
    rw [hkeys] at hmember
    exact applies_to_member hw hunion hmember
  have hoccurrences : ctx.occurrences scope ⟨(Selection.union scope members).nodes, true⟩ =
      pure (members.flatMap fun p => p.2.fields.map (occurrenceOf p.1)) := by
    rw [occurrences, nodes]
    exact expand_memberNodes fun member hmember => (hmembers member hmember).2
  exact ⟨_, allOccurrences_singleton hoccurrences,
    scopeSelection_members hunion hkeys (fun member hmember => (hmembers member hmember).1) h⟩

/-- **What a selection lists is gathered back to it**, if what the fields of its structs list is. -/
theorem scopeSelection_nodes (hw : ctx.schema.WellShaped)
    (hlike : ctx.schema.isStructLike scope = true) (hs : ctx.Scoped scope s) (hne : s ≠ .whole)
    (hnested : ctx.GathersNested gather s) :
    ∃ occurrences, ctx.allOccurrences scope [⟨s.nodes, true⟩] = pure occurrences ∧
      ctx.scopeSelection gather scope occurrences = pure s := by
  -- the fields of each struct of the scope are gathered back
  have hset : ∀ type fields, s.fieldsOf? type = some fields →
      ctx.fieldSet gather type (fields.map (occurrenceOf type)) = pure ⟨type, fields⟩ := by
    intro type fields hfields
    have hmem : type ∈ ctx.schema.possibleTypes scope :=
      (hs.hasForm hne).isSome_fieldsOf?.1 (Option.isSome_of_eq_some hfields)
    obtain ⟨struct, hstruct⟩ := hw.struct_of_possible hlike hmem
    refine fieldSet_occurrences (hs.nodup hfields) ?_
    intro name t ht
    refine fieldSelection_occurrenceOf hstruct (hs.hasField hfields ht) (hs.leaf hfields ht) ?_
    intro base hbase
    exact hnested type fields name t base hfields ht hbase
  cases hs.hasForm hne with
  | @struct fields _ hunion =>
    exact scopeSelection_structNodes hunion (hset scope fields (fieldsOf?_struct.2 ⟨rfl, rfl⟩))
  | @union union members hunion hkeys htypes =>
    refine scopeSelection_unionNodes hw hunion hkeys ?_
    rintro member ⟨type, fields⟩ hmem
    obtain rfl : type = member := htypes member _ hmem
    have hlookup := Pairs.lookup_of_mem (hkeys ▸ nodup_distinctNames _) hmem
    exact hset type fields (fieldsOf?_union.2 ⟨_, hlookup, rfl⟩)

/-! ## Levels -/

/-- Nothing is wrong where nothing is listed. -/
theorem faults_scopeSelection_nil : (ctx.scopeSelection gather scope []).faults = [] := by
  have hset : ∀ type, ctx.fieldSet gather type [] = pure ⟨type, []⟩ := by
    intro type
    rfl
  unfold scopeSelection
  cases ctx.schema.structUnion? scope with
  | none => simp [hset]
  | some union => simp [hset]

/-- **What a selection lists selects just that**, on enough levels. -/
theorem selectionWithin_nodes (hw : ctx.schema.WellShaped) :
    ∀ (levels : Nat) (scope : Name) (s : Selection), ctx.schema.isStructLike scope = true →
      ctx.Scoped scope s → s.Filled → Query.fieldCountOf s.nodes < levels →
      ctx.selectionWithin levels scope [⟨s.nodes, true⟩] = pure (some s) := by
  intro levels
  induction levels with
  | zero =>
    intro scope s _ _ _ hlevels
    omega
  | succ levels ih =>
    intro scope s hlike hs hfilled hlevels
    by_cases hwhole : s = .whole
    · -- nothing is listed of the whole value, so that its site is bare
      subst hwhole
      have hnone : ctx.occurrences scope ⟨nodes .whole, true⟩ = pure [] := by
        rw [occurrences, nodes, expand]
      rw [selectionWithin, allOccurrences_singleton hnone, bind_pure_left,
        bind_of_faults_eq_nil faults_scopeSelection_nil]
      simp [Site.isBare, nodes]
    · have hnested : ctx.GathersNested (ctx.selectionWithin levels) s := by
        intro type fields name t base hfields ht hbase
        obtain ⟨-, field, -, rfl, hbaseLike⟩ := structField?_eq_some_iff.1 hbase
        -- one level is spent on the field, and one field less is listed below it
        have hlt := fieldCountOf_lt_of_fieldsOf? hfields ht
        exact ih _ t hbaseLike (hs.nested hfields ht hbase) (hfilled.of_fieldsOf? hfields ht)
          (by omega)
      obtain ⟨found, hfound, hselection⟩ := scopeSelection_nodes hw hlike hs hwhole hnested
      have hlisted : s.nodes ≠ [] := nodes_ne_nil hfilled.isEmpty_eq_false hwhole
      rw [selectionWithin, hfound, bind_pure_left, hselection, bind_pure_left]
      simp [Site.isBare, hlisted]

end QueryContext

namespace Merger

open QueryContext Query

variable {m : Merger} {scope : Name} {s : Selection}

/-- **What a selection lists merges to it**, whatever else the document holds. -/
theorem mergeScope_nodes (hlike : m.schema.schema.isStructLike scope = true)
    (hs : (m.context []).Scoped scope s) (hfilled : s.Filled) :
    m.mergeScope scope [s.nodes] = .ok s := by
  have hweight : weight (m.context []).fragments s.nodes < (m.context []).levels [⟨s.nodes, true⟩] :=
    weight_lt_levels (size_pos_of_isStructLike hlike) (List.mem_singleton_self ⟨s.nodes, true⟩)
  have hlevels : fieldCountOf s.nodes < (m.context []).levels [⟨s.nodes, true⟩] := by
    unfold weight at hweight
    omega
  have hgathered : m.gathered scope [s.nodes] = pure (some s) :=
    selectionWithin_nodes m.schema.wellShaped _ scope s hlike hs hfilled hlevels
  exact mergeScope_of_value hlike (by rw [hgathered]; rfl) (by rw [hgathered]; rfl)

/-- **A rendered selection is a query for itself.** Of a narrowed selection that was merged for a type,
and in which nothing narrowed is empty but members of struct unions: both texts have the same tokens.
They are read as a selection set, and as a query if they do not nest too deep for any. Whatever this
set is merged with for the type, what comes out is the selection. -/
theorem rendered_selects_itself (m : Merger) (scope : Name) (selections : List (List Node))
    (s : Selection) (hs : m.mergeScope scope selections = .ok s) (hne : s ≠ .whole)
    (hfilled : s.Filled) :
    ∃ tokens nodes, Token.ofSource? s.text = some tokens ∧
      Token.ofSource? s.indented = some tokens ∧
      (∀ depth, s.nesting ≤ depth → Rule.readAll? (selectionSet depth) tokens = some nodes) ∧
      (s.nesting ≤ maxDepth →
        Document.ofSource? s.text = some ⟨[⟨.query, none, [], [], nodes⟩], []⟩) ∧
      ∀ document values config,
        mergeScope ⟨m.schema, document, values, config⟩ scope [nodes] = .ok s := by
  have hlike : m.schema.schema.isStructLike scope = true := (mergeScope_eq_ok_iff.1 hs).1
  refine ⟨s.tokens, s.nodes, hfilled.ofSource?_text hne, hfilled.ofSource?_indented hne, ?_,
    hfilled.ofSource?_document hne, ?_⟩
  · intro depth hdepth
    exact hfilled.readAll?_selectionSet hne hdepth
  · intro document values config
    -- which selections are of a scope is a matter of the schema alone
    have hschema : ((Merger.mk m.schema document values config).context []).schema =
      (m.context []).schema := rfl
    have hscoped := (scoped_of_mergeScope hs).of_schema hschema
    exact mergeScope_nodes hlike hscoped hfilled

theorem filled_onA : (membersOfU [(⟨"x", .refl true⟩, .whole)] []).Filled := by
  refine .union rfl ?_
  intro member set name s hset hs
  simp only [List.mem_cons, List.not_mem_nil, or_false] at hset
  obtain he | he := hset
  · obtain ⟨-, rfl⟩ := Prod.mk.inj he
    obtain ⟨-, rfl⟩ := Prod.mk.inj (List.mem_singleton.1 hs)
    exact .whole
  · obtain ⟨-, rfl⟩ := Prod.mk.inj he
    cases hs

/-- The text `{ ... on A { x } }` says nothing of `B`, and is read and merged to a selection with no
fields of `B`. -/
theorem rendered_selects_itself_onA :
    ∃ nodes, Document.ofSource? "\x7b ... on A \x7b x \x7d \x7d" =
        some ⟨[⟨.query, none, [], [], nodes⟩], []⟩ ∧
      sharedField.mergeScope ⟨"U", .refl true⟩ [nodes] =
        .ok (membersOfU [(⟨"x", .refl true⟩, .whole)] []) := by
  have hmerged : sharedField.mergeScope ⟨"U", .refl true⟩ [onA] =
      .ok (membersOfU [(⟨"x", .refl true⟩, .whole)] []) := by
    cbv
  have hne : membersOfU [(⟨"x", .refl true⟩, .whole)] [] ≠ .whole := by
    intro h
    cases h
  obtain ⟨tokens, nodes, -, -, -, hdocument, hmerges⟩ :=
    rendered_selects_itself sharedField _ _ _ hmerged hne filled_onA
  have htext : (membersOfU [(⟨"x", .refl true⟩, .whole)] []).text =
      "\x7b ... on A \x7b x \x7d \x7d" := by
    decide
  rw [htext] at hdocument
  exact ⟨nodes, hdocument (by decide), hmerges sharedField.document [] {}⟩

end Merger

end StructQL
