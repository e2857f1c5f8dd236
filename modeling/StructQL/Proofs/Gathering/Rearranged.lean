import StructQL.Proofs.Expansion.Rearranged
import StructQL.Proofs.Fault.Report
import StructQL.Proofs.Gathering.Unfolds
import StructQL.Proofs.Selection.Merge

/-!
# Gathering in another order

Documents that differ in the order and in the repetition of selections have the same result. Each side
has what the other one has, in whatever order and number, and what is made of that is the same.

* `matches_occurrences`: sites with the same selections have the same occurrences and faults.
* `builds_same`: selections are the same if what they are made of is.
* `matches_entries`: **the same sites have the same entries.**
* `mergeOperations_rearranged`: **the result depends on what is selected only**, not on the order or
  the number of its selections.
-/

namespace StructQL

open List

/-- **Two entries are the same** but for the order of what is selected. -/
structure Entry.SameAs (e other : Entry) : Prop where
  path : e.path = other.path
  parent : e.parent = other.parent
  fieldName : e.fieldName = other.fieldName
  fieldType : e.fieldType = other.fieldType
  selection : e.selection.same other.selection = true

/-- **Two operations are the same** but for the order of their entries and of what is selected. -/
structure MergedOperation.SameAs (operation other : MergedOperation) : Prop where
  type : operation.type = other.type
  name : operation.name = other.name
  entries : Unordered Entry.SameAs operation.entries other.entries

theorem Site.Alike.symm {site other : Site} (h : site.Alike Query.Mutual other) :
    other.Alike Query.Mutual site :=
  ⟨h.selections.symm, h.included.symm⟩

theorem Occurrence.Alike.symm {o other : Occurrence} (h : o.Alike Query.Mutual other) :
    other.Alike Query.Mutual o := by
  obtain ⟨hsite⟩ := h
  exact .mk hsite.symm

namespace QueryContext

open Checked Selection Pairs Query

variable {ctx : QueryContext} {scope : Name} {fragments : Table Fragment}

/-! ## Occurrences -/

/-- **Sites with the same selections have the same occurrences and faults.** -/
theorem matches_occurrences (hf : SameFragments ctx.fragments fragments) (scope : Name)
    (site other : Site) (h : site.Alike Mutual other) :
    Matches (BothWays (Occurrence.Alike Mutual)) (ctx.occurrences scope site)
      ((ctx.withFragments fragments).occurrences scope other) := by
  have hback : SameFragments (ctx.withFragments fragments).fragments ctx.fragments := hf.symm
  have hright : AtMost (Among (Occurrence.Alike Mutual))
      ((ctx.withFragments fragments).occurrences scope other) (ctx.occurrences scope site) :=
    atMost_occurrences hback scope h.symm
  refine .of_atMost (atMost_occurrences hf scope h) hright fun hleft hright => ⟨hleft, ?_⟩
  exact hright.imp fun _ _ ho => ho.symm

/-! ## Selections -/

/-- Values that are the same, key by key, are found under each key. -/
theorem exists_lookup_of_unordered {α : Type} {R : α → α → Prop} {l m : List (Name × α)}
    (hnd : (m.map Prod.fst).Nodup) (h : Unordered (SameKey R) l m) :
    ∀ p ∈ l, ∃ t, m.lookup p.1 = some t ∧ R p.2 t := by
  intro p hp
  obtain ⟨⟨_, t⟩, ht, rfl, hR⟩ := h.exists_right hp
  exact ⟨t, lookup_of_mem hnd ht, hR⟩

theorem sameSet_of_sets {x y : FieldSet Selection}
    (h : Comparison.inAnyOrder.Sets (fun s t => s.same t = true) x y) : sameSet x y = true :=
  sameSet_iff.2 ⟨h.typeName, Unordered.length_eq h.fields,
    exists_lookup_of_unordered h.keys h.fields⟩

/-- **Selections and entries are the same** if what they are made of is, in whatever order. -/
theorem builds_same :
    Comparison.inAnyOrder.Builds (fun s t => s.same t = true) Entry.SameAs where
  whole := by rw [same]
  struct x y h := by rw [same, sameSet_of_sets h]
  union name l m hnd h := by
    have hsets : Unordered (SameKey fun x y => sameSet x y = true) l m :=
      Unordered.imp h fun _ _ _ _ hxy => ⟨hxy.1, sameSet_of_sets hxy.2⟩
    have hmembers : sameMembers l m = true :=
      sameMembers_iff.2 (exists_lookup_of_unordered hnd hsets)
    rw [same, hmembers, hsets.length_eq]
    simp
  settled a b s t hab hst := by
    obtain rfl : a = b := hab
    cases a with
    | true => simp [same]
    | false => exact hst
  entry _ _ _ _ _ _ hst := ⟨rfl, rfl, rfl, rfl, hst⟩

/-- **The same sites have the same entries to their full depth**, in whatever order. -/
theorem matches_entries (hf : SameFragments ctx.fragments fragments) (hc : Acyclic ctx.fragments)
    {sites others : List Site} (h : BothWays (Site.Alike Mutual) sites others) :
    Matches (Unordered Entry.SameAs) (ctx.entries scope sites)
      ((ctx.withFragments fragments).entries scope others) := by
  have hexpands : Comparison.inAnyOrder.Expands (Site.Alike Mutual) (Occurrence.Alike Mutual) ctx
      (ctx.withFragments fragments) :=
    Comparison.expands_withFragments keepsBare_mutual (matches_occurrences hf)
  exact hexpands.entries builds_same hc.noNestedCycle (hf.acyclic hc).noNestedCycle scope h

end QueryContext

/-! ## The result of a document -/

section

variable {α β : Type} {R : α → β → Prop}

/-- **Two answers match**: both give related values, or both fail with the same faults, of which
none is listed twice. -/
inductive SameOutcome (R : α → β → Prop) : Except Failure α → Except Failure β → Prop where
  | ok {a : α} {b : β} : R a b → SameOutcome R (.ok a) (.ok b)
  | error {failure other : Failure} : failure.faults.Nodup → failure.faults.Perm other.faults →
    SameOutcome R (.error failure) (.error other)

/-- **Matching checks have matching answers.** -/
theorem Checked.Matches.result {c : Checked α} {d : Checked β} (h : Matches R c d) :
    SameOutcome R c.result d.result := by
  unfold Checked.result
  cases hc : c.faults with
  | nil =>
    cases hd : d.faults with
    | nil => exact .ok h.value
    | cons f rest =>
      have hf := (h.faults f).2 (by rw [hd]; exact mem_cons_self)
      rw [hc] at hf
      cases hf
  | cons f rest =>
    cases hd : d.faults with
    | nil =>
      have hf := (h.faults f).1 (by rw [hc]; exact mem_cons_self)
      rw [hd] at hf
      cases hf
    | cons g others =>
      refine .error (Failure.nodup_ofFaults _) ((perm_ext_iff_of_nodup (Failure.nodup_ofFaults _)
        (Failure.nodup_ofFaults _)).2 fun fault => ?_)
      rw [Failure.mem_faults_ofFaults, Failure.mem_faults_ofFaults, ← hc, ← hd]
      exact h.faults fault

end

namespace Merger

open Checked QueryContext Query

variable {m : Merger} {rearranged : Document} {operation other : Operation}

/-- **An operation has the same entries** when its document is rearranged. -/
theorem matches_mergeOperation (hc : Acyclic m.document.fragmentTable)
    (hd : m.document.Rearranged rearranged) (h : operation.Alike Query.Rearranged other) :
    Matches (Option.Rel MergedOperation.SameAs) (m.mergeOperation operation)
      (({ m with document := rearranged } : Merger).mergeOperation other) := by
  cases h with
  | @mk selections hs =>
    have hsite : Site.Alike Mutual ⟨operation.selections, true⟩ ⟨selections, true⟩ :=
      ⟨hs.mutual, rfl⟩
    have hsites : BothWays (Site.Alike Mutual) [⟨operation.selections, true⟩] [⟨selections, true⟩] :=
      ⟨among_singleton hsite, among_singleton hsite⟩
    unfold mergeOperation
    dsimp only
    cases m.schema.schema.roots.root? operation.type with
    | none => exact .fault .none _
    | some root =>
      have hentries := @matches_entries (m.context operation.booleanDefaults) root _
        hd.fragmentTable hc _ _ hsites
      exact .bind hentries fun _ _ hsame => .pure (.some ⟨rfl, rfl, hsame⟩)

/-- **The result depends on what is selected only.** Where no fragment leads back to itself,
reordering and repeating selections changes neither success nor failure, nor the entries but for
their order, nor the faults. -/
theorem mergeOperations_rearranged (m : Merger) (hc : Acyclic m.document.fragmentTable)
    (rearranged : Document) (h : m.document.Rearranged rearranged) :
    SameOutcome (Forall₂ MergedOperation.SameAs) m.mergeOperations
      ({ m with document := rearranged } : Merger).mergeOperations := by
  apply Matches.result
  have hc' : Acyclic rearranged.fragmentTable := h.fragmentTable.acyclic hc
  unfold checkedOperations
  rw [fragmentCycleFaults_eq_nil_iff.2 hc, fragmentCycleFaults_eq_nil_iff.2 hc']
  refine .bind (R := fun _ _ => True) ⟨trivial, fun _ => Iff.rfl⟩ fun _ _ _ =>
    .bind (.each_inOrder h.operations fun operation other ho => matches_mergeOperation hc h ho) ?_
  intro results others hresults
  exact .pure (rel_filterMap (fun _ _ hr => hr) hresults)

/-- The selections `s { z } ...F`. -/
def structThenFragment : List Node :=
  [.field none ⟨"s", .refl true⟩ [] [] [.field none ⟨"z", .refl true⟩ [] [] []],
    .spread ⟨"F", .refl true⟩ []]

/-- The selections `...F s { z z } s { z z }`. -/
def fragmentThenStructs : List Node :=
  [.spread ⟨"F", .refl true⟩ [],
    .field none ⟨"s", .refl true⟩ [] []
      [.field none ⟨"z", .refl true⟩ [] [] [], .field none ⟨"z", .refl true⟩ [] [] []],
    .field none ⟨"s", .refl true⟩ [] []
      [.field none ⟨"z", .refl true⟩ [] [] [], .field none ⟨"z", .refl true⟩ [] [] []]]

/-- The fragment `fragment F on Query { s { z } }`. -/
def structFragment : Fragment where
  name := ⟨"F", .refl true⟩
  condition := RootTypes.standard.query
  directives := []
  selections := [.field none ⟨"s", .refl true⟩ [] [] [.field none ⟨"z", .refl true⟩ [] [] []]]

/-- The document `{ s { z } ...F } fragment F on Query { s { z } }`. -/
def structAndFragment : Merger where
  schema := sharedInterface.schema
  document := ⟨[{ spreadingTwice with selections := structThenFragment }], [structFragment]⟩

/-- The same document with the query `{ ...F s { z z } s { z z } }`. -/
def rearrangedDocument : Document :=
  ⟨[{ spreadingTwice with selections := fragmentThenStructs }], [structFragment]⟩

theorem acyclic_structAndFragment : Acyclic structAndFragment.document.fragmentTable :=
  fragmentCycleFaults_eq_nil_iff.1 (by cbv)

theorem rearranged_structAndFragment : structAndFragment.document.Rearranged rearrangedDocument := by
  have hselections : Query.Rearranged structThenFragment fragmentThenStructs :=
    .trans (.field .again) (.trans .again (.perm (@perm_append_comm _ [_, _] [_])))
  exact ⟨.cons (.mk hselections) .nil, .cons (.mk (.perm (.refl _))) .nil⟩

/-- Reordering and repeating what is selected in the document changes nothing. -/
theorem mergeOperations_structAndFragment :
    Acyclic structAndFragment.document.fragmentTable ∧
      structAndFragment.document.Rearranged rearrangedDocument ∧
      SameOutcome (Forall₂ MergedOperation.SameAs) structAndFragment.mergeOperations
        ({ structAndFragment with document := rearrangedDocument } : Merger).mergeOperations :=
  ⟨acyclic_structAndFragment, rearranged_structAndFragment,
    mergeOperations_rearranged structAndFragment acyclic_structAndFragment rearrangedDocument
      rearranged_structAndFragment⟩

end Merger

end StructQL
