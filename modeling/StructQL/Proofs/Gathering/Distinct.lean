import StructQL.Proofs.Gathering.StructSelection
import StructQL.Proofs.Selection.Covers

/-!
# Gathered selections list no name twice

* `GathersDistinct`: what is gathered of sites lists no name twice.
* `distinct_scopeSelection`: nor does what is made of it.
* `distinct_selectionWithin`: **what sites select lists no name twice.**
* `distinct_of_mergeScope`: nor does what selections of one struct select together.
-/

namespace StructQL

namespace QueryContext

open Checked Selection

variable {ctx : QueryContext} {gather : Name → List Site → Checked (Option Selection)}
  {type name : Name} {occurrences group : List Occurrence} {s : Selection}

/-- **What is gathered of sites lists no name twice.** -/
def GathersDistinct (gather : Name → List Site → Checked (Option Selection)) : Prop :=
  ∀ base sites s, (gather base sites).value = some s → s.Distinct

theorem distinct_leafSelection (h : (leafSelection type group).value = some s) : s.Distinct := by
  obtain ⟨-, rfl⟩ := leafSelection_value.1 h
  exact .whole

theorem distinct_fieldSelection (hg : GathersDistinct gather)
    (h : (ctx.fieldSelection gather type name group).value = some s) : s.Distinct := by
  unfold fieldSelection at h
  split at h
  · exact distinct_leafSelection h
  · rw [value_bind] at h
    split at h
    · cases h
    · cases h
    · split at h
      · exact hg _ _ s h
      · exact distinct_leafSelection h

theorem distinctSet_fieldSet (hg : GathersDistinct gather) :
    DistinctSet (ctx.fieldSet gather type occurrences).value := by
  refine ⟨nodup_fieldSet, ?_⟩
  intro name s hs
  obtain ⟨group, -, hvalue⟩ := mem_fieldSet.1 hs
  exact distinct_fieldSelection hg hvalue

theorem distinct_scopeSelection (hg : GathersDistinct gather) (scope : Name) :
    (ctx.scopeSelection gather scope occurrences).value.Distinct := by
  unfold scopeSelection
  cases hunion : ctx.schema.structUnion? scope with
  | none => exact distinct_struct_iff.2 (distinctSet_fieldSet hg)
  | some union =>
    simp only [value_bind, value_pure, value_each]
    refine distinct_union_iff.2 ⟨by simp [Function.comp_def, nodup_distinctNames], ?_⟩
    intro member set hset
    obtain ⟨other, -, he⟩ := List.mem_map.1 hset
    obtain ⟨-, rfl⟩ := Prod.mk.inj he
    exact distinctSet_fieldSet hg

/-- **What sites select lists no name twice.** -/
theorem distinct_selectionWithin (levels : Nat) :
    GathersDistinct (ctx.selectionWithin levels) := by
  induction levels with
  | zero =>
    intro scope sites s h
    cases h
  | succ levels ih =>
    intro scope sites s h
    rw [value_selectionWithin] at h
    split at h
    · cases h
    · split at h
      · cases h
        exact .whole
      · cases h
        exact distinct_scopeSelection ih scope

end QueryContext

theorem Merger.distinct_of_mergeScope {m : Merger} {scope : Name}
    {selections : List (List Query.Node)} {s : Selection}
    (h : m.mergeScope scope selections = .ok s) : s.Distinct := by
  unfold mergeScope at h
  split at h
  · split at h
    · cases h
    · rename_i selection hresult
      cases h
      obtain ⟨-, hvalue⟩ := Checked.result_eq_ok hresult
      exact QueryContext.distinct_selectionWithin _ _ _ _ hvalue
    · cases h
  · cases h

end StructQL
