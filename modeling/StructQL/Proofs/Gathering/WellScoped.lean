import StructQL.Proofs.Gathering.Join
import StructQL.Proofs.Gathering.ObjectEntries
import StructQL.Proofs.Schema.Members

/-!
# Everything that is merged is of its scope

A selection of a scope is what gathering answers, wherever it is asked, and what merging makes of
such selections.

* `ScopedEntry`: an entry for a field of the schema, with a selection of the field's type.
* `scopedEntry_entriesWithin`: **the entries of sites are such entries**, without faults.
* `members_of_union`: a selection of a struct union lists the members as they are declared.
* `Merger.wellScoped`: **all that is merged is of its scope**, and merging keeps it so.
-/

namespace StructQL

namespace QueryContext

open Checked Selection

variable {ctx other : QueryContext} {scope : Name} {s : Selection} {e : Entry}

/-- **An entry for a field of the schema**, whose values are of a struct or a struct union. What is
selected of them is a selection of this type. -/
structure ScopedEntry (ctx : QueryContext) (e : Entry) : Prop where
  field : ∃ field, ctx.schema.field? e.parent e.fieldName = some field ∧ field.type = e.fieldType
  isStructLike : ctx.schema.isStructLike e.fieldType.base = true
  selection : ctx.Scoped e.fieldType.base e.selection

/-! ## One schema, one notion of scope -/

/-- Which selections are of a scope is a matter of the schema. -/
theorem Scoped.of_schema (hschema : other.schema = ctx.schema) (h : ctx.Scoped scope s) :
    other.Scoped scope s := by
  have hbase : ∀ type name, other.structField? type name = ctx.structField? type name := by
    intro type name
    unfold structField?
    rw [hschema]
  have hhas : ∀ type name, other.HasField type name ↔ ctx.HasField type name := by
    intro type name
    unfold HasField
    rw [hschema]
  induction h with
  | whole => exact .whole
  | narrowed hform hnd hfield _ ih =>
    refine .narrowed (hschema ▸ hform) hnd (fun type fields name selection hfs hmem => ?_) ?_
    · rw [hhas, hbase]
      exact hfield type fields name selection hfs hmem
    · intro type fields name selection base hfs hmem hfieldBase
      rw [hbase] at hfieldBase
      exact ih type fields name selection base hfs hmem hfieldBase

theorem ScopedEntry.of_schema (hschema : other.schema = ctx.schema) (h : ctx.ScopedEntry e) :
    other.ScopedEntry e :=
  ⟨hschema ▸ h.field, hschema ▸ h.isStructLike, h.selection.of_schema hschema⟩

/-! ## The entries of sites -/

section

variable {levels : Nat} {path : List Name} {place : Place} {group : List Occurrence}
  {field : Field}

/-- The entry of a struct field is of the field's type. -/
theorem scopedEntry_of_struct
    (hf : ctx.schema.field? place.parent place.fieldName = some field)
    (hs : ctx.schema.isStructLike field.type.base = true)
    (hfaults : (ctx.entriesAt (ctx.selectionWithin levels) (ctx.entriesWithin levels) path place
      group).faults = [])
    (he : e ∈ (ctx.entriesAt (ctx.selectionWithin levels) (ctx.entriesWithin levels) path place
      group).value) : ctx.ScopedEntry e := by
  rw [entriesAt_of_struct hf hs] at hfaults he
  simp only [value_bind, value_pure, Option.mem_toList, Option.map_eq_some_iff] at he
  obtain ⟨s, hvalue, rfl⟩ := he
  have hnone := (faults_bind_eq_nil.1 hfaults).1
  have hscoped := scoped_selectionWithin levels field.type.base _ s hs hnone hvalue
  exact ⟨⟨field, hf, rfl⟩, hs, hscoped⟩

end

/-- **The entries of sites are of the types of their fields**, unless there are faults. -/
theorem scopedEntry_entriesWithin :
    ∀ (levels : Nat) (path : List Name) (scope : Name) (sites : List Site),
      (ctx.entriesWithin levels path scope sites).faults = [] →
      ∀ e ∈ (ctx.entriesWithin levels path scope sites).value, ctx.ScopedEntry e := by
  intro levels
  induction levels with
  | zero =>
    intro path scope sites _ e he
    cases he
  | succ levels ih =>
    intro path scope sites h e he
    obtain ⟨-, hscope⟩ := faults_entriesWithin h
    -- the entry is one of the group of some place
    obtain ⟨place, group, hgroup, he⟩ := mem_scopeEntries.1 he
    have hfaults := faults_placeGroup hscope hgroup
    obtain ⟨field, hf⟩ := exists_field_of_entriesAt hfaults
    by_cases hs : ctx.schema.isStructLike field.type.base = true
    · exact scopedEntry_of_struct hf hs hfaults he
    · by_cases hcomp : ctx.isComposite field.type.base = true
      · rw [entriesAt_of_composite hf hcomp] at hfaults he
        exact ih _ _ _ hfaults e he
      · rw [entriesAt_of_leaf hf hs hcomp] at he
        cases he

/-! ## Selections of struct unions -/

/-- **A selection of a struct union lists the members as they are declared**, each once. -/
theorem members_of_union {union : UnionType} {members : List (Name × FieldSet Selection)}
    (hw : ctx.schema.WellShaped) (hunion : ctx.schema.structUnion? scope = some union)
    (h : ctx.Scoped scope (.union scope members)) :
    members.map Prod.fst = union.members ∧ union.members.Nodup := by
  have hnd : union.members.Nodup := hw.nodup_members (Schema.structUnion?_eq_some_iff.1 hunion)
  cases h.hasForm nofun with
  | @union other _ hother hkeys _ =>
    obtain rfl := Option.some.inj (hunion.symm.trans hother)
    rw [hkeys, distinctNames_of_nodup hnd]
    exact ⟨rfl, hnd⟩

end QueryContext

namespace Merger

open QueryContext Checked

variable {m : Merger} {operation : Query.Operation} {result : MergedOperation}
  {results : List MergedOperation}

theorem scopedEntry_of_mergeOperation (hfaults : (m.mergeOperation operation).faults = [])
    (hresult : (m.mergeOperation operation).value = some result) {e : Entry}
    (he : e ∈ result.entries) : (m.context []).ScopedEntry e := by
  unfold mergeOperation at hfaults hresult
  cases hroot : m.schema.schema.roots.root? operation.type with
  | none =>
    rw [hroot] at hfaults
    cases hfaults
  | some root =>
    rw [hroot] at hfaults hresult
    cases hresult
    have hentries := (faults_bind_eq_nil.1 hfaults).1
    have hentry := scopedEntry_entriesWithin _ [] root _ hentries e he
    -- the operation's own context has the same schema
    have hschema : (m.context []).schema = (m.context operation.booleanDefaults).schema := rfl
    exact hentry.of_schema hschema

/-- **The entries of merged operations are of the types of their fields.** -/
theorem scopedEntry_of_mergeOperations (h : m.mergeOperations = .ok results)
    (hresult : result ∈ results) {e : Entry} (he : e ∈ result.entries) :
    (m.context []).ScopedEntry e := by
  obtain ⟨hfaults, rfl⟩ := result_eq_ok h
  have heach := faults_each_eq_nil.1 (faults_bind_eq_nil.1 (faults_bind_eq_nil.1 hfaults).2).1
  unfold checkedOperations at hresult
  simp only [value_bind, value_pure, value_each, List.mem_filterMap, id_eq,
    exists_eq_right, List.mem_map] at hresult
  obtain ⟨operation, hoperation, hvalue⟩ := hresult
  exact scopedEntry_of_mergeOperation (heach operation hoperation) hvalue he

/-- **All that is merged is of its scope**: what selections of a scope merge to, and what the
entries of operations select of their fields. Two selections of one scope merge, to a selection of
that scope; and one of a struct union lists the members of the union as declared, each once. -/
theorem wellScoped (m : Merger) :
    (∀ scope selections s, m.mergeScope scope selections = .ok s →
      (m.context []).Scoped scope s) ∧
    (∀ results, m.mergeOperations = .ok results → ∀ result ∈ results, ∀ e ∈ result.entries,
      (m.context []).ScopedEntry e) ∧
    (∀ scope a b, (m.context []).Scoped scope a → (m.context []).Scoped scope b →
      ∃ s, a.merge b = .ok s ∧ (m.context []).Scoped scope s) ∧
    ∀ scope union members, m.schema.schema.structUnion? scope = some union →
      (m.context []).Scoped scope (.union scope members) →
      members.map Prod.fst = union.members ∧ union.members.Nodup := by
  refine ⟨fun scope selections s h => ?_, fun results h result hresult e he => ?_, ?_, ?_⟩
  · exact scoped_of_mergeScope h
  · exact scopedEntry_of_mergeOperations h hresult he
  · intro scope a b ha hb
    exact ha.exists_merge hb
  · intro scope union members hunion h
    exact members_of_union m.schema.wellShaped hunion h

/-- The entry that the innermost condition leads to is of the type of its field. -/
theorem scopedEntry_entryOfC : (sharedInterface.context []).ScopedEntry entryOfC :=
  (wellScoped sharedInterface).2.1 _ mergeOperations_throughInterface _
    (List.mem_singleton_self _) entryOfC (List.mem_singleton_self _)

end Merger

end StructQL
