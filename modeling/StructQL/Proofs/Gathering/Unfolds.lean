import StructQL.Proofs.Expansion.Unfolds
import StructQL.Proofs.Gathering.Compared

/-!
# Gathering what is written out

A document with all fragments written out has the same result.

* `builds_eq`: what is made of the same in the same order is equal.
* `entries_alike`: sites with related selections have the same entries, if they have the same
  occurrences with related selections.
* `mergeOperations_unfolded`: **the result of a document is that of the document with all fragments
  written out**, and there is just one such document.
-/

namespace StructQL

namespace QueryContext

open Checked List Pairs

variable {ctx : QueryContext} {R : List Query.Node → List Query.Node → Prop} {scope : Name}
  {fragments : Table Query.Fragment}

/-- Sites of two contexts have the same occurrences, with related selections. -/
def ExpandsAlike (R : List Query.Node → List Query.Node → Prop) (ctx : QueryContext)
    (fragments : Table Query.Fragment) : Prop :=
  ∀ scope site other, site.Alike R other → Rel (Forall₂ (Occurrence.Alike R))
    (ctx.occurrences scope site) ((ctx.withFragments fragments).occurrences scope other)

/-- Pairs that agree in their keys and in their values are equal. -/
theorem eq_of_forall₂_sameKey {α : Type} {l m : List (Name × α)}
    (h : Forall₂ (SameKey (· = ·)) l m) : l = m := by
  rw [← forall₂_eq_eq_eq]
  exact h.imp fun _ _ hpq => Prod.ext hpq.1 hpq.2

theorem eq_of_sets {x y : FieldSet Selection} (h : Comparison.inOrder.Sets (· = ·) x y) :
    x = y := by
  obtain ⟨type, fields⟩ := x
  obtain ⟨type', fields'⟩ := y
  obtain ⟨htype, -, hfields⟩ := h
  obtain rfl : type = type' := htype
  obtain rfl : fields = fields' := eq_of_forall₂_sameKey hfields
  rfl

/-- **Selections and entries are equal** if what they are made of is, in the same order. -/
theorem builds_eq : Comparison.inOrder.Builds (· = ·) (· = ·) where
  whole := rfl
  struct x y h := by rw [eq_of_sets h]
  union name l m _ h := by
    have hsets : Forall₂ (SameKey (· = ·)) l m :=
      Forall₂.imp (fun _ _ hxy => ⟨hxy.1, eq_of_sets hxy.2⟩) h
    rw [eq_of_forall₂_sameKey hsets]
  settled a b s t hab hst := by
    obtain rfl : a = b := hab
    rw [hst]
  entry path parent name type s t hst := by rw [hst]

/-- **Sites with related selections have the same entries**, if they have the same occurrences. -/
theorem entries_alike (hR : KeepsBare R) (hexpand : ExpandsAlike R ctx fragments)
    (hc : NoNestedCycle ctx.fragments) (hc' : NoNestedCycle fragments) {sites others : List Site}
    (h : Forall₂ (Site.Alike R) sites others) :
    ctx.entries scope sites = (ctx.withFragments fragments).entries scope others := by
  have hexpands : Comparison.inOrder.Expands (Site.Alike R) (Occurrence.Alike R) ctx
      (ctx.withFragments fragments) := Comparison.expands_withFragments hR hexpand
  have hrel : Rel (Forall₂ (· = ·)) (ctx.entries scope sites)
      ((ctx.withFragments fragments).entries scope others) :=
    hexpands.entries builds_eq hc hc' scope h
  exact (hrel.imp fun hentries => by rwa [forall₂_eq_eq_eq] at hentries).eq

end QueryContext

namespace Merger

open QueryContext Checked

variable {m : Merger} {written : Query.Document} {operation other : Query.Operation}

/-- **An operation has the same entries** when all fragments are written out. -/
theorem mergeOperation_unfolded (hc : Acyclic m.document.fragmentTable)
    (hw : m.document.Unfolds written)
    (h : operation.Alike (Query.Unfolds m.document.fragmentTable) other) :
    m.mergeOperation operation = ({ m with document := written } : Merger).mergeOperation other := by
  have hunknown : ∀ name, m.document.fragmentTable.find? name = none →
      written.fragmentTable.find? name = none :=
    fun name => hw.fragmentTable.find?_eq_none_iff.1
  have hexpand : ExpandsAlike (Query.Unfolds m.document.fragmentTable)
      (m.context operation.booleanDefaults) written.fragmentTable :=
    fun scope site other hsite =>
      @rel_occurrences_unfolded (m.context operation.booleanDefaults) _ hc hunknown scope site other
        hsite
  cases h with
  | @mk selections hs =>
    have hsite : Site.Alike (Query.Unfolds m.document.fragmentTable) ⟨operation.selections, true⟩
        ⟨selections, true⟩ := ⟨hs, rfl⟩
    unfold mergeOperation
    cases m.schema.schema.roots.root? operation.type with
    | none => rfl
    | some root =>
      dsimp only
      rw [entries_alike Query.keepsBare_unfolds hexpand hc.noNestedCycle hw.acyclic.noNestedCycle
        (.cons hsite .nil)]
      rfl

/-- **Fragments are abbreviations.** The document with all fragments written out exists, is the only
one, and has the same result. -/
theorem mergeOperations_unfolded (m : Merger) (hc : Acyclic m.document.fragmentTable) :
    (∃! written, m.document.Unfolds written) ∧
      ∀ written, m.document.Unfolds written →
        ({ m with document := written } : Merger).mergeOperations = m.mergeOperations := by
  refine ⟨Query.existsUnique_unfolds hc, fun written hw => ?_⟩
  have heach : each m.document.operations m.mergeOperation =
      each written.operations ({ m with document := written } : Merger).mergeOperation := by
    refine Rel.eq ((Rel.each (S := (· = ·)) hw.operations ?_).imp fun h => ?_)
    · intro operation other h
      exact .of_eq (mergeOperation_unfolded hc hw h)
    · rwa [List.forall₂_eq_eq_eq] at h
  unfold mergeOperations checkedOperations
  rw [heach, fragmentCycleFaults_eq_nil_iff.2 hc, fragmentCycleFaults_eq_nil_iff.2 hw.acyclic]

/-- The query `{ ...F }`. -/
def spreadingTwice : Query.Operation where
  type := .query
  name := none
  variableDefinitions := []
  directives := []
  selections := [.spread ⟨"F", .refl true⟩ []]

/-- The fragment `fragment F on N { s { ...G } }`. -/
def outerFragment : Query.Fragment where
  name := ⟨"F", .refl true⟩
  condition := ⟨"N", .refl true⟩
  directives := []
  selections := [.field none ⟨"s", .refl true⟩ [] [] [.spread ⟨"G", .refl true⟩ []]]

/-- The fragment `fragment G on S { z }`. -/
def innerFragment : Query.Fragment where
  name := ⟨"G", .refl true⟩
  condition := ⟨"S", .refl true⟩
  directives := []
  selections := [.field none ⟨"z", .refl true⟩ [] [] []]

/-- The query with both fragments, of which one spreads the other. -/
def spreadTwice : Merger where
  schema := sharedInterface.schema
  document := ⟨[spreadingTwice], [outerFragment, innerFragment]⟩

/-- The selections `s { ... on S { z } }`. -/
def writtenOnce : List Query.Node :=
  [.field none ⟨"s", .refl true⟩ [] [] [.inline (some ⟨"S", .refl true⟩) []
    [.field none ⟨"z", .refl true⟩ [] [] []]]]

/-- The same document with `{ ... on N { s { ... on S { z } } } }` as its query. -/
def writtenTwice : Query.Document where
  operations := [{ spreadingTwice with
    selections := [.inline (some ⟨"N", .refl true⟩) [] writtenOnce] }]
  fragments := [{ outerFragment with selections := writtenOnce }, innerFragment]

theorem acyclic_spreadTwice : Acyclic spreadTwice.document.fragmentTable :=
  fragmentCycleFaults_eq_nil_iff.1 (by cbv)

theorem unfolds_spreadTwice : spreadTwice.document.Unfolds writtenTwice := by
  have hF : spreadTwice.document.fragmentTable.find? ⟨"F", .refl true⟩ = some outerFragment := rfl
  have hG : spreadTwice.document.fragmentTable.find? ⟨"G", .refl true⟩ = some innerFragment := rfl
  have hinner : Query.Unfolds spreadTwice.document.fragmentTable innerFragment.selections
      innerFragment.selections := .field .nil .nil
  have houter : Query.Unfolds spreadTwice.document.fragmentTable outerFragment.selections
      writtenOnce := .field (.spread hG hinner .nil) .nil
  exact ⟨.cons (.mk (.spread hF houter .nil)) .nil, .cons (.mk houter) (.cons (.mk hinner) .nil)⟩

/-- The fragments `F` and `G` may be written out. -/
theorem mergeOperations_spreadTwice :
    Acyclic spreadTwice.document.fragmentTable ∧ spreadTwice.document.Unfolds writtenTwice ∧
      ({ spreadTwice with document := writtenTwice } : Merger).mergeOperations =
        spreadTwice.mergeOperations :=
  ⟨acyclic_spreadTwice, unfolds_spreadTwice,
    (mergeOperations_unfolded spreadTwice acyclic_spreadTwice).2 writtenTwice unfolds_spreadTwice⟩

example : (spreadTwice.mergeOperations.toOption.map List.length) = some 1 := by cbv

end Merger

end StructQL
