import StructQL.Proofs.Expansion.Steps
import StructQL.Proofs.Gathering.SingleField

/-!
# Merging ends

* `Merger.merging_terminates`: **expansion is balanced, and merging ends** where no fragment reaches itself
  through a field.
-/

namespace StructQL.Merger

/-- **Expansion is balanced, and merging ends** where no fragment reaches itself through a field. On one
level fragments may spread each other as they like. -/
theorem merging_terminates :
    (∀ ctx : QueryContext, ctx.IsBalanced) ∧
      ∀ m : Merger, NoNestedCycle m.document.fragmentTable →
        ∀ operation ∈ m.document.operations, ∀ root,
          m.schema.schema.roots.root? operation.type = some root →
          Terminates (m.context operation.booleanDefaults).walk
            (.entries [] root [⟨operation.selections, true⟩])
            ((m.context operation.booleanDefaults).entries root [⟨operation.selections, true⟩]) := by
  refine ⟨QueryContext.isBalanced, fun m hc operation _ root _ => ?_⟩
  have hcontext : NoNestedCycle (m.context operation.booleanDefaults).fragments := hc
  exact QueryContext.walk_terminates hcontext root _

/-- Merging `{ f { ...F } }` ends with `fragment F on S { x ...F }`, though this spreads itself. -/
theorem merging_terminates_spreadingItself :
    fragmentCycleFaults (withFragment spreadingItself).document.fragmentTable =
        [.fragmentCycle ⟨"F", .refl true⟩ "F -> F"] ∧
      NoNestedCycle (withFragment spreadingItself).document.fragmentTable ∧
      spreadingF ∈ (withFragment spreadingItself).document.operations ∧
      Terminates ((withFragment spreadingItself).context spreadingF.booleanDefaults).walk
        (.entries [] RootTypes.standard.query [⟨spreadingF.selections, true⟩])
        ⟨[⟨[⟨"f", .refl true⟩], RootTypes.standard.query, ⟨"f", .refl true⟩, fieldF.type,
          .struct ⟨⟨"S", .refl true⟩, [(⟨"x", .refl true⟩, .whole)]⟩⟩], []⟩ := by
  have hcycle : NoNestedCycle (withFragment spreadingItself).document.fragmentTable :=
    noNestedCycle_withFragment (not_spreads_below (by simp [spreadingItself]))
  have hmem : spreadingF ∈ (withFragment spreadingItself).document.operations := List.mem_singleton_self _
  refine ⟨by cbv, hcycle, hmem, ?_⟩
  have hend := merging_terminates.2 (withFragment spreadingItself) hcycle spreadingF hmem
    RootTypes.standard.query rfl
  have hentries : ((withFragment spreadingItself).context spreadingF.booleanDefaults).entries
      RootTypes.standard.query [⟨spreadingF.selections, true⟩] =
      ⟨[⟨[⟨"f", .refl true⟩], RootTypes.standard.query, ⟨"f", .refl true⟩, fieldF.type,
          .struct ⟨⟨"S", .refl true⟩, [(⟨"x", .refl true⟩, .whole)]⟩⟩], []⟩ := by
    cbv
  rwa [hentries] at hend

end StructQL.Merger
