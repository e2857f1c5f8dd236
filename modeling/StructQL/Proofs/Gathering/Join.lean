import StructQL.Proofs.Fault.Report
import StructQL.Proofs.Gathering.Levels
import StructQL.Proofs.Gathering.Scoped

/-!
# Selections of sites together

What sites select together is what they select apart, merged, and they have the faults that they
have apart.

* `Collects.absorb`: what two sets of selections collect, merged, is what their union collects.
* `Collects.same`: selections collect one selection only, but for the order of fields.
* `mergeScope_append`: **merging a document's selections is merging their selections.**
-/

namespace StructQL

namespace QueryContext

open Selection

variable {ctx : QueryContext} {route : Route} {scope : Name} {S T : Set (List Query.Node)}
  {a b : Selection}

theorem routed_union (type name : Name) :
    ctx.routed route scope (S ∪ T) type name =
      ctx.routed route scope S type name ∪ ctx.routed route scope T type name := by
  ext selections
  simp only [routed, Set.mem_union, Set.mem_ofPred_eq, or_and_right, exists_or]

/-- **What two sets of selections collect, merged, is what their union collects.** -/
theorem Collects.absorb (ha : ctx.Collects route scope S a) :
    ∀ {b T}, ctx.Scoped scope a → ctx.Scoped scope b → ctx.Collects route scope T b →
      ctx.Collects route scope (S ∪ T) (a.absorb b).1 := by
  induction ha with
  | whole hbare =>
    intro b T _ _ _
    rw [whole_absorb]
    exact .whole (.inl hbare)
  | @narrowed scope S a hbare htype htypes hnames hleaf hnested ih =>
    intro b T hsa hsb hb
    cases hb with
    | whole hbare' =>
      rw [absorb_whole]
      exact .whole (.inr hbare')
    | narrowed hbare' htype' _ hnames' _ hnested' =>
      have hform : HasForm ctx.schema scope a := hsa.hasForm (by rintro rfl; cases htype)
      have hform' : HasForm ctx.schema scope b := hsb.hasForm (by rintro rfl; cases htype')
      have hmerge : ∀ type x y, a.fieldsOf? type = some x → b.fieldsOf? type = some y →
          (absorbPairs Selection.absorb x y).2 = none := fun type x y hx hy =>
        hsa.faults_absorbPairs hsb hx hy fun name s t base hs ht hbase =>
          ((hsa.nested hx hs hbase).absorb (hsb.nested hy ht hbase)).1
      obtain ⟨-, hmerged, hfields⟩ := hform.absorb hform' hmerge
      -- where one of them does not have a field, its selections lead to none
      have hnone : ∀ type x y name, a.fieldsOf? type = some x → b.fieldsOf? type = some y →
          (name ∉ x.map Prod.fst → ctx.routed route scope S type name = ∅) ∧
            (name ∉ y.map Prod.fst → ctx.routed route scope T type name = ∅) := by
        intro type x y name hx hy
        rw [(hnames type x hx).2, (hnames' type y hy).2, Set.not_nonempty_iff_eq_empty,
          Set.not_nonempty_iff_eq_empty]
        exact ⟨id, id⟩
      have hscoped := (hsa.absorb hsb).2
      refine .narrowed (by simp [hbare, hbare']) hmerged.typeName? (fun type => ?_) ?_ ?_ ?_
      · exact hmerged.isSome_fieldsOf?
      · intro type fields hfs
        obtain ⟨x, y, hx, hy, rfl⟩ := (hfields type fields).1 hfs
        refine ⟨hscoped.nodup hfs, fun name => ?_⟩
        rw [mem_keys_absorbPairs (hsb.nodup hy) (hmerge type x y hx hy), (hnames type x hx).2,
          (hnames' type y hy).2, routed_union, Set.union_nonempty]
      · intro type fields name s hfs hs hbase
        exact hscoped.leaf hfs hs hbase
      · intro type fields name s base hfs hs hbase
        obtain ⟨x, y, hx, hy, rfl⟩ := (hfields type fields).1 hfs
        rw [routed_union]
        rcases mem_absorbPairs (hsa.nodup hx) (hsb.nodup hy) (hmerge type x y hx hy) hs with
          ⟨s₁, s₂, h₁, h₂, rfl⟩ | ⟨h₁, hout⟩ | ⟨h₂, hout⟩
        · exact ih type x name s₁ base hx h₁ hbase (hsa.nested hx h₁ hbase)
            (hsb.nested hy h₂ hbase) (hnested' type y name s₂ base hy h₂ hbase)
        · rw [(hnone type x y name hx hy).2 hout, Set.union_empty]
          exact hnested type x name s base hx h₁ hbase
        · rw [(hnone type x y name hx hy).1 hout, Set.empty_union]
          exact hnested' type y name s base hy h₂ hbase

/-- **Selections collect one selection only**, but for the order of fields. -/
theorem Collects.same (ha : ctx.Collects route scope S a) :
    ∀ {b}, ctx.Scoped scope a → ctx.Scoped scope b → ctx.Collects route scope S b →
      a.same b = true := by
  induction ha with
  | whole hbare =>
    intro b _ _ hb
    rw [hb.whole_iff.2 hbare, Selection.same]
  | @narrowed scope S a hbare htype _ hnames hleaf _ ih =>
    intro b hsa hsb hb
    have hwhole : b ≠ .whole := fun h => hbare (hb.whole_iff.1 h)
    have hform : HasForm ctx.schema scope a := hsa.hasForm (by rintro rfl; cases htype)
    cases hb with
    | whole _ => exact absurd rfl hwhole
    | narrowed _ _ _ hnames' hleaf' hnested' =>
      refine hform.same (hsb.hasForm hwhole) fun type x y hx hy => ?_
      -- both have the fields that the selections lead to
      have hkeys : ∀ name, name ∈ x.map Prod.fst ↔ name ∈ y.map Prod.fst := fun name => by
        rw [(hnames type x hx).2, (hnames' type y hy).2]
      have hperm := (List.perm_ext_iff_of_nodup (hsa.nodup hx) (hsb.nodup hy)).2 hkeys
      refine ⟨by simpa using hperm.length_eq, ?_⟩
      rintro ⟨name, s⟩ hs
      obtain ⟨⟨_, t⟩, ht, rfl⟩ := List.mem_map.1 ((hkeys name).1 (List.mem_map.2 ⟨_, hs, rfl⟩))
      refine ⟨t, Pairs.lookup_of_mem (hsb.nodup hy) ht, ?_⟩
      cases hbase : ctx.structField? type _ with
      | none =>
        rw [hsa.leaf hx hs hbase, hsb.leaf hy ht hbase, Selection.same]
      | some base =>
        exact ih type x _ s base hx hs hbase (hsa.nested hx hs hbase) (hsb.nested hy ht hbase)
          (hnested' type y _ t base hy ht hbase)

end QueryContext

namespace Merger

open QueryContext Selection

variable {m : Merger} {scope : Name} {selections : List (List Query.Node)} {s : Selection}

/-- What selections of a scope are gathered to, with all that is wrong with them. -/
def gathered (m : Merger) (scope : Name) (selections : List (List Query.Node)) :
    Checked (Option Selection) :=
  (m.context []).selection scope (selections.map (Site.mk · true))

theorem isSome_gathered (m : Merger) (scope : Name) (hne : selections ≠ []) :
    (m.gathered scope selections).value.isSome = true := by
  obtain ⟨first, rest, rfl⟩ := List.exists_cons_of_ne_nil hne
  unfold gathered
  rw [isSome_selection, List.map_cons, List.any_cons, Bool.true_or]

theorem mergeScope_of_fault (hs : m.schema.schema.isStructLike scope = true)
    (h : (m.gathered scope selections).faults ≠ []) :
    m.mergeScope scope selections =
      .error (Failure.ofFaults (m.gathered scope selections).faults) := by
  have hresult : (m.gathered scope selections).result =
      .error (Failure.ofFaults (m.gathered scope selections).faults) := by
    unfold Checked.result
    split
    · contradiction
    · rfl
  unfold mergeScope
  rw [if_pos hs]
  unfold gathered at hresult ⊢
  rw [hresult]

theorem mergeScope_of_value (hs : m.schema.schema.isStructLike scope = true)
    (h : (m.gathered scope selections).faults = [])
    (hvalue : (m.gathered scope selections).value = some s) :
    m.mergeScope scope selections = .ok s := by
  have hresult : (m.gathered scope selections).result = .ok (some s) := by
    unfold Checked.result
    rw [h, hvalue]
  unfold mergeScope
  rw [if_pos hs]
  unfold gathered at hresult
  rw [hresult]

/-- **Merging succeeds if nothing is wrong with the selections.** -/
theorem mergeScope_eq_ok_iff :
    m.mergeScope scope selections = .ok s ↔ m.schema.schema.isStructLike scope = true ∧
      (m.gathered scope selections).faults = [] ∧
      (m.gathered scope selections).value = some s := by
  refine ⟨fun h => ?_, fun ⟨hs, hfaults, hvalue⟩ => mergeScope_of_value hs hfaults hvalue⟩
  unfold mergeScope at h
  split at h
  · rename_i hs
    split at h
    · cases h
    · rename_i selection hresult
      cases h
      obtain ⟨hfaults, hvalue⟩ := Checked.result_eq_ok hresult
      exact ⟨hs, hfaults, hvalue⟩
    · cases h
  · cases h

/-- **Merging fails with all that is wrong with the selections.** -/
theorem mem_faultsOf_mergeScope (hs : m.schema.schema.isStructLike scope = true)
    (hne : selections ≠ []) {f : Fault} :
    f ∈ faultsOf (m.mergeScope scope selections) ↔ f ∈ (m.gathered scope selections).faults := by
  by_cases h : (m.gathered scope selections).faults = []
  · obtain ⟨t, ht⟩ := Option.isSome_iff_exists.1 (isSome_gathered m scope hne)
    rw [mergeScope_of_value hs h ht, h]
    rfl
  · rw [mergeScope_of_fault hs h]
    exact Failure.mem_faults_ofFaults

/-- Some selections merge if nothing is wrong with them, as they are all included. -/
theorem exists_mergeScope_iff (hs : m.schema.schema.isStructLike scope = true)
    (hne : selections ≠ []) :
    (∃ s, m.mergeScope scope selections = .ok s) ↔ (m.gathered scope selections).faults = [] := by
  obtain ⟨s, hvalue⟩ := Option.isSome_iff_exists.1 (isSome_gathered m scope hne)
  constructor
  · rintro ⟨s, h⟩
    exact (mergeScope_eq_ok_iff.1 h).2.1
  · intro hfaults
    exact ⟨s, mergeScope_of_value hs hfaults hvalue⟩

/-- **What merging answers is a selection of the scope.** -/
theorem scoped_of_mergeScope (h : m.mergeScope scope selections = .ok s) :
    (m.context []).Scoped scope s := by
  obtain ⟨hs, hfaults, hvalue⟩ := mergeScope_eq_ok_iff.1 h
  exact scoped_selectionWithin _ scope _ s hs hfaults hvalue

/-- **The faults of selections together** are those that they have apart. -/
theorem mem_faults_gathered_append (hc : NoNestedCycle m.document.fragmentTable)
    (hs : m.schema.schema.isStructLike scope = true) {A B : List (List Query.Node)} {f : Fault} :
    f ∈ (m.gathered scope (A ++ B)).faults ↔
      f ∈ (m.gathered scope A).faults ∨ f ∈ (m.gathered scope B).faults := by
  obtain ⟨hleA, hleB⟩ : _ ∧ _ := (m.context []).levels_le_append (A.map (Site.mk · true))
    (B.map (Site.mk · true))
  unfold gathered
  -- with the levels of all sites, each part is gathered to its full depth
  rw [List.map_append, ← selectionWithin_eq_selection hc hs hleA,
    ← selectionWithin_eq_selection hc hs hleB]
  exact mem_faults_append hs _

/-- **What selections select together is what they select apart, merged.** Both ways collect what
the selections lead to, and they collect one selection only. -/
theorem exists_merge_of_mergeScope (hc : NoNestedCycle m.document.fragmentTable)
    {A B : List (List Query.Node)} {a b joint : Selection} (ha : m.mergeScope scope A = .ok a)
    (hb : m.mergeScope scope B = .ok b) (hjoint : m.mergeScope scope (A ++ B) = .ok joint) :
    ∃ merged, a.merge b = .ok merged ∧ merged.same joint = true := by
  have hsa := scoped_of_mergeScope ha
  have hsb := scoped_of_mergeScope hb
  obtain ⟨merged, hmerge, hmerged⟩ := hsa.exists_merge hsb
  have hcollects := (collects_nearest_of_mergeScope hc ha).absorb hsa hsb
    (collects_nearest_of_mergeScope hc hb)
  have hunion : {nodes | nodes ∈ A} ∪ {nodes | nodes ∈ B} = {nodes | nodes ∈ A ++ B} := by
    ext nodes
    simp
  rw [hunion, merge_eq_ok_iff.1 hmerge] at hcollects
  exact ⟨merged, hmerge, hcollects.same hmerged (scoped_of_mergeScope hjoint)
    (collects_nearest_of_mergeScope hc hjoint)⟩

/-- **Merging the selections of a document is merging what they select.** Two lists of selections
merge together just if each does, and then to their selections merged; and they have the faults
that they have apart. -/
theorem mergeScope_append (m : Merger) (hc : NoNestedCycle m.document.fragmentTable) (scope : Name)
    (A B : List (List Query.Node)) (hA : A ≠ []) (hB : B ≠ []) :
    ((∃ s, m.mergeScope scope (A ++ B) = .ok s) ↔
        (∃ a, m.mergeScope scope A = .ok a) ∧ ∃ b, m.mergeScope scope B = .ok b) ∧
      (∀ a b, m.mergeScope scope A = .ok a → m.mergeScope scope B = .ok b →
        ∃ merged joint, a.merge b = .ok merged ∧ m.mergeScope scope (A ++ B) = .ok joint ∧
          merged.same joint = true) ∧
      ∀ f, f ∈ faultsOf (m.mergeScope scope (A ++ B)) ↔
        f ∈ faultsOf (m.mergeScope scope A) ∨ f ∈ faultsOf (m.mergeScope scope B) := by
  by_cases hs : m.schema.schema.isStructLike scope = true
  · have hAB : A ++ B ≠ [] := by simp [hA]
    have hfaults : ∀ f, f ∈ (m.gathered scope (A ++ B)).faults ↔ _ :=
      fun f => mem_faults_gathered_append hc hs
    have hok : (∃ s, m.mergeScope scope (A ++ B) = .ok s) ↔
        (∃ a, m.mergeScope scope A = .ok a) ∧ ∃ b, m.mergeScope scope B = .ok b := by
      rw [exists_mergeScope_iff hs hAB, exists_mergeScope_iff hs hA, exists_mergeScope_iff hs hB]
      simp only [List.eq_nil_iff_forall_not_mem, hfaults, not_or, forall_and]
    refine ⟨hok, fun a b ha hb => ?_, fun f => ?_⟩
    · obtain ⟨joint, hjoint⟩ := hok.2 ⟨⟨a, ha⟩, ⟨b, hb⟩⟩
      obtain ⟨merged, hmerge, hsame⟩ := exists_merge_of_mergeScope hc ha hb hjoint
      exact ⟨merged, joint, hmerge, hjoint, hsame⟩
    · rw [mem_faultsOf_mergeScope hs hAB, mem_faultsOf_mergeScope hs hA,
        mem_faultsOf_mergeScope hs hB, hfaults]
  · -- in no other scope anything merges
    have herror : ∀ selections, m.mergeScope scope selections =
        .error (.single (.invalidGraphQL s!"\"{scope}\" is not a struct or struct union")) :=
      fun selections => by rw [mergeScope, if_neg hs]
    simp only [herror]
    simp [faultsOf]

/-- The selection `... on A { x }`. -/
def onA : List Query.Node :=
  [.inline (some ⟨"A", .refl true⟩) [] [.field none ⟨"x", .refl true⟩ [] [] []]]

/-- The selection `... on B { y }`. -/
def onB : List Query.Node :=
  [.inline (some ⟨"B", .refl true⟩) [] [.field none ⟨"y", .refl true⟩ [] [] []]]

/-- A selection of the struct union of `A` and `B`. -/
def membersOfU (fieldsOfA fieldsOfB : List (Name × Selection)) : Selection :=
  .union ⟨"U", .refl true⟩ [(⟨"A", .refl true⟩, ⟨⟨"A", .refl true⟩, fieldsOfA⟩),
    (⟨"B", .refl true⟩, ⟨⟨"B", .refl true⟩, fieldsOfB⟩)]

theorem mergeScope_onA_onB :
    ∃ merged joint, (membersOfU [(⟨"x", by decide⟩, .whole)] []).merge
        (membersOfU [] [(⟨"y", by decide⟩, .whole)]) = .ok merged ∧
      sharedField.mergeScope ⟨"U", by decide⟩ ([onA] ++ [onB]) = .ok joint ∧
      merged.same joint = true :=
  (mergeScope_append sharedField noNestedCycle_sharedField ⟨"U", by decide⟩ [onA] [onB] (by simp)
    (by simp)).2.1 _ _ (by cbv) (by cbv)

end Merger

end StructQL
