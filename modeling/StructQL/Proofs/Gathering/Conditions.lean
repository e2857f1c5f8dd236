import Mathlib.Computability.Primrec.List
import StructQL.Proofs.Gathering.Join
import StructQL.Proofs.Gathering.Stricter

/-!
# What conditions decide

Conditions decide what is selected, but not what is wrong with a document: all that they leave out
is checked like the rest. And a condition that cannot be decided leaves out nothing, so that what is
merged then covers what is merged once it can be.

* `Merger.withConditions`: the same document, with other values and another policy.
* `Merger.Stricter`: two mergers of which one leaves out all that the other one does.
* `Merger.alike_of_conditions`: **both fail alike, or both succeed with the same operations**,
  whatever the values and the policies are.
* `Merger.covered_of_undecided`: **an undecided condition is covered.**
-/

namespace StructQL

/-- **A merged operation is covered by another one**: its entries are, one by one, by entries of the
other one, in the same order. -/
structure MergedOperation.CoveredBy (operation other : MergedOperation) : Prop where
  type : operation.type = other.type
  name : operation.name = other.name
  entries : List.SublistForall₂ Entry.CoveredBy operation.entries other.entries

/-- What an operation is called. -/
def MergedOperation.heading (operation : MergedOperation) : Query.OperationType × Option Name :=
  (operation.type, operation.name)

namespace Merger

open QueryContext Checked List

/-- **The same document**, with other values for the variables and another policy. -/
def withConditions (m : Merger) (values : List (String × Json)) (policy : ConditionPolicy) :
    Merger :=
  { m with values := values, config := { m.config with conditionPolicy := policy } }

/-- **A merger is stricter than another one** of the same document: it leaves out all that the other
one does. -/
structure Stricter (strict loose : Merger) : Prop where
  schema : strict.schema = loose.schema
  document : strict.document = loose.document
  scope : (strict.context []).Stricter (loose.context [])
  operations : ∀ operation ∈ loose.document.operations,
    (strict.context operation.booleanDefaults).Stricter (loose.context operation.booleanDefaults)

variable {m strict loose : Merger} {values values' : List (String × Json)}

/-! ## Stricter mergers -/

theorem rel_mergeOperation {operation : Query.Operation} (hschema : strict.schema = loose.schema)
    (h : (strict.context operation.booleanDefaults).Stricter
      (loose.context operation.booleanDefaults)) :
    Checked.Rel (Option.Rel MergedOperation.CoveredBy) (strict.mergeOperation operation)
      (loose.mergeOperation operation) := by
  unfold mergeOperation
  rw [hschema]
  cases loose.schema.schema.roots.root? operation.type with
  | none => exact .fault .none _
  | some root =>
    have hsite : Site.Under ⟨operation.selections, true⟩ ⟨operation.selections, true⟩ :=
      ⟨rfl, fun _ => rfl⟩
    refine .bind (h.rel_entries root (.cons hsite .nil)) ?_
    intro entries entries' hentries
    exact .pure (.some ⟨rfl, rfl, hentries⟩)

/-- **The operations of a stricter merger are covered**, and have the same faults. -/
theorem Stricter.rel_checkedOperations (h : strict.Stricter loose) :
    Checked.Rel (Forall₂ MergedOperation.CoveredBy) strict.checkedOperations
      loose.checkedOperations := by
  unfold checkedOperations
  rw [h.document]
  have hcycles : Checked.Rel (fun _ _ => True)
      (faulty (fragmentCycleFaults loose.document.fragmentTable))
      (faulty (fragmentCycleFaults loose.document.fragmentTable)) := ⟨trivial, rfl⟩
  have hoperations : Forall₂ (fun operation other => operation = other ∧
      (strict.context operation.booleanDefaults).Stricter
        (loose.context operation.booleanDefaults))
      loose.document.operations loose.document.operations :=
    forall₂_same.2 fun operation hmem => ⟨rfl, h.operations operation hmem⟩
  refine .bind hcycles fun _ _ _ => .bind (R := Forall₂ (Option.Rel MergedOperation.CoveredBy))
    (.each hoperations ?_) ?_
  · rintro operation _ ⟨rfl, hcontext⟩
    exact rel_mergeOperation h.schema hcontext
  · intro results results' hresults
    refine .pure (rel_filterMap ?_ hresults)
    intro result result' hresult
    exact hresult

theorem Stricter.map_mergeOperations (h : strict.Stricter loose) :
    strict.mergeOperations.map (List.map MergedOperation.heading) =
      loose.mergeOperations.map (List.map MergedOperation.heading) := by
  refine h.rel_checkedOperations.map_result ?_
  intro results results' hresults
  rw [← forall₂_eq_eq_eq]
  refine rel_map ?_ hresults
  intro result result' hresult
  exact Prod.ext hresult.type hresult.name

theorem Stricter.exists_mergeOperations (h : strict.Stricter loose)
    {results' : List MergedOperation} (hresults : strict.mergeOperations = .ok results') :
    ∃ results, loose.mergeOperations = .ok results ∧
      Forall₂ MergedOperation.CoveredBy results' results :=
  h.rel_checkedOperations.exists_result hresults

/-- Whether selections of a scope merge, and how they fail, is the same. -/
theorem Stricter.map_mergeScope (h : strict.Stricter loose) (scope : Name)
    (selections : List (List Query.Node)) :
    (strict.mergeScope scope selections).map (fun _ => ()) =
      (loose.mergeScope scope selections).map fun _ => () := by
  have hsites : Forall₂ Site.Under (selections.map (Site.mk · true))
      (selections.map (Site.mk · true)) := forall₂_same.2 fun site _ => ⟨rfl, id⟩
  have hrel := h.scope.rel_selection scope _ _ hsites
  -- as the sites are included under both, there is a selection under both or under none
  have hsome : Checked.Rel (fun s t : Option Selection => s.isSome = t.isSome)
      ((strict.context []).selection scope (selections.map (Site.mk · true)))
      ((loose.context []).selection scope (selections.map (Site.mk · true))) :=
    hrel.imp fun _ => by rw [isSome_selection, isSome_selection]
  have hresult := hsome.map_result fun s t hst => hst
  unfold mergeScope
  rw [h.schema]
  generalize ((strict.context []).selection scope _).result = x at hresult ⊢
  generalize ((loose.context []).selection scope _).result = y at hresult ⊢
  split
  · cases x with
    | error f =>
      cases y with
      | error g =>
        cases hresult
        rfl
      | ok t => cases hresult
    | ok s =>
      cases y with
      | error g => cases hresult
      | ok t =>
        have hst : s.isSome = t.isSome := Except.ok.inj hresult
        cases s with
        | none =>
          obtain rfl : t = none := by simpa using hst
          rfl
        | some s =>
          obtain ⟨t, rfl⟩ := Option.isSome_iff_exists.1 hst.symm
          rfl
  · rfl

/-! ## Conditions that are decided by more values -/

/-- **Nothing leaves out less than a merger by which conditions are ignored.** -/
theorem stricter_mergeAll (m : Merger) (values others : List (String × Json))
    (policy : ConditionPolicy) :
    (m.withConditions values policy).Stricter (m.withConditions others .mergeAll) := by
  have hcontext : ∀ defaults, ((m.withConditions values policy).context defaults).Stricter
      ((m.withConditions others .mergeAll).context defaults) := fun defaults =>
    ⟨rfl, rfl, rfl, fun directives _ => isIncluded_of_mergeAll rfl directives⟩
  exact ⟨rfl, rfl, hcontext [], fun operation _ => hcontext operation.booleanDefaults⟩

/-- **Values extend others**, by variables for which no operation has a Boolean default. -/
structure Extends (m : Merger) (values values' : List (String × Json)) : Prop where
  lookup : ∀ name value, values.lookup name = some value → values'.lookup name = some value
  defaults : ∀ operation ∈ m.document.operations, ∀ v ∈ operation.variableDefinitions,
    ∀ b, v.default? = some (.boolean b) → values.lookup v.name.text = none →
      values'.lookup v.name.text = none

/-- A Boolean default is that of some variable definition. -/
theorem exists_of_lookup_booleanDefaults {operation : Query.Operation} {name : Name} {b : Bool}
    (h : operation.booleanDefaults.lookup name = some b) :
    ∃ v ∈ operation.variableDefinitions, v.name = name ∧ v.default? = some (.boolean b) := by
  have hmem := Pairs.mem_of_lookup h
  unfold Query.Operation.booleanDefaults at hmem
  obtain ⟨v, hv, hdefault⟩ := List.mem_filterMap.1 (List.mem_reverse.1 hmem)
  refine ⟨v, hv, ?_⟩
  split at hdefault
  · rename_i b' hb'
    cases hdefault
    exact ⟨rfl, hb'⟩
  · cases hdefault

/-- **A condition that is decided stays decided** with more values. -/
theorem condition?_of_extends {defaults : List (Name × Bool)}
    (hlookup : ∀ name value, values.lookup name = some value → values'.lookup name = some value)
    (hdefaults : ∀ name b, defaults.lookup name = some b → values.lookup name.text = none →
      values'.lookup name.text = none) {value : Query.Value} {b : Bool}
    (h : ((m.withConditions values .evaluateThenMerge).context defaults).condition? value =
      some b) :
    ((m.withConditions values' .evaluateThenMerge).context defaults).condition? value =
      some b := by
  unfold condition? at h ⊢
  split at h
  · exact h
  · rename_i name
    dsimp only [context, withConditions] at h ⊢
    cases hvalue : values.lookup name.text with
    | some value =>
      rw [hlookup name.text value hvalue]
      rwa [hvalue] at h
    | none =>
      rw [hvalue] at h
      rw [hdefaults name b h hvalue]
      exact h
  · cases h

/-- **More values leave out more**, but for Boolean defaults that they take the place of. -/
theorem Extends.stricter (h : m.Extends values values') :
    (m.withConditions values' .evaluateThenMerge).Stricter
      (m.withConditions values .evaluateThenMerge) := by
  have hcontext : ∀ defaults : List (Name × Bool),
      (∀ name b, defaults.lookup name = some b → values.lookup name.text = none →
        values'.lookup name.text = none) →
      ((m.withConditions values' .evaluateThenMerge).context defaults).Stricter
        ((m.withConditions values .evaluateThenMerge).context defaults) := by
    intro defaults hdefaults
    refine ⟨rfl, rfl, rfl, isIncluded_of_condition? rfl ?_⟩
    intro value b hvalue
    exact condition?_of_extends h.lookup hdefaults hvalue
  refine ⟨rfl, rfl, hcontext [] nofun, fun operation hmem => ?_⟩
  refine hcontext operation.booleanDefaults fun name b hb hnone => ?_
  obtain ⟨v, hv, rfl, hdefault⟩ := exists_of_lookup_booleanDefaults hb
  exact h.defaults operation hmem v hv b hdefault hnone

/-! ## The results -/

/-- **What is wrong with a document does not depend on its conditions.** Under any values and
policies both ways to merge fail with the same faults, or succeed for the same operations. -/
theorem alike_of_conditions (m : Merger) (values₁ values₂ : List (String × Json))
    (policy₁ policy₂ : ConditionPolicy) :
    (m.withConditions values₁ policy₁).mergeOperations.map (List.map MergedOperation.heading) =
        (m.withConditions values₂ policy₂).mergeOperations.map
          (List.map MergedOperation.heading) ∧
      ∀ scope selections,
        ((m.withConditions values₁ policy₁).mergeScope scope selections).map (fun _ => ()) =
          ((m.withConditions values₂ policy₂).mergeScope scope selections).map fun _ => () := by
  -- both leave out what the merger leaves out that ignores conditions
  have h₁ := stricter_mergeAll m values₁ [] policy₁
  have h₂ := stricter_mergeAll m values₂ [] policy₂
  refine ⟨h₁.map_mergeOperations.trans h₂.map_mergeOperations.symm, fun scope selections => ?_⟩
  exact (h₁.map_mergeScope scope selections).trans (h₂.map_mergeScope scope selections).symm

/-- **An undecided condition is covered.** What is merged with fewer values covers what is merged
with more, and what is merged without regard to conditions covers both. -/
theorem covered_of_undecided (m : Merger) (values' : List (String × Json))
    (results' : List MergedOperation)
    (h : (m.withConditions values' .evaluateThenMerge).mergeOperations = .ok results') :
    (∀ values, m.Extends values values' → ∃ results,
      (m.withConditions values .evaluateThenMerge).mergeOperations = .ok results ∧
        Forall₂ MergedOperation.CoveredBy results' results) ∧
    ∀ others, ∃ results, (m.withConditions others .mergeAll).mergeOperations = .ok results ∧
      Forall₂ MergedOperation.CoveredBy results' results := by
  refine ⟨fun values hextends => ?_, fun others => ?_⟩
  · exact hextends.stricter.exists_mergeOperations h
  · exact (stricter_mergeAll m values' others .evaluateThenMerge).exists_mergeOperations h

/-- The directive `@include(if: $x)`. -/
def includedIfX : Query.Directive where
  name := ⟨"include", .refl true⟩
  arguments := [⟨⟨"if", .refl true⟩, .variable ⟨"x", .refl true⟩⟩]

/-- The query `query ($x: Boolean) { s { z @include(if: $x) } t: s @include(if: $x) }`. -/
def conditionally : Query.Operation where
  type := .query
  name := none
  variableDefinitions := [⟨⟨"x", .refl true⟩, .named ⟨"Boolean", .refl true⟩ false, none, []⟩]
  directives := []
  selections := [
    .field none ⟨"s", .refl true⟩ [] [] [.field none ⟨"z", .refl true⟩ [] [includedIfX] []],
    .field (some ⟨"t", .refl true⟩) ⟨"s", .refl true⟩ [] [includedIfX] []]

/-- A document with one condition, for two fields. -/
def undecided : Merger := { sharedInterface with document := ⟨[conditionally], []⟩ }

/-- What is left of the query where the condition does not hold: the field `s`, of which nothing is
selected. -/
def withoutX : MergedOperation where
  type := .query
  name := none
  entries := [⟨[⟨"s", .refl true⟩], RootTypes.standard.query, ⟨"s", .refl true⟩,
    .named ⟨"S", .refl true⟩ false, .struct ⟨⟨"S", .refl true⟩, []⟩⟩]

/-- Without a value for `x` both fields are merged, and cover what is left without them. -/
theorem covered_withoutX :
    ∃ results, (undecided.withConditions [] .evaluateThenMerge).mergeOperations = .ok results ∧
      Forall₂ MergedOperation.CoveredBy [withoutX] results := by
  refine (covered_of_undecided undecided [("x", .bool false)] [withoutX] (by cbv)).1 [] ⟨?_, ?_⟩
  · intro name value h
    cases h
  · intro operation hoperation v hv b hb
    obtain rfl := List.mem_singleton.1 hoperation
    obtain rfl := List.mem_singleton.1 hv
    cases hb

end Merger

end StructQL
