import StructQL.Proofs.SDL.Assembly
import StructQL.Proofs.Schema.Rearranged
import StructQL.SDL.Document

/-!
# Definitions in another order

The same definitions in another order make a schema with the same types in another order, if none has
a namesake. So nothing else is wrong with them, or with the schema.

* `Collected.rearranged`: the same definitions make the same types.
* `verdict`: whether the schema of some definitions is valid, and else what is wrong with it.
* `verdict_perm`: **the verdict does not depend on the order of the definitions.**
-/

namespace StructQL.SDL

open List

variable {defs defs' : List Definition} {a a' : Assembly}

/-! ## The same schema -/

theorem NoNamesakes.of_perm (h : NoNamesakes defs) (hperm : defs.Perm defs') : NoNamesakes defs' where
  types := (hperm.filterMap _).nodup_iff.1 h.types
  directives := ((hperm.filterMap _).map _).nodup_iff.1 h.directives

/-- The same types make the same registry: each built-in scalar is replaced by the same type. -/
theorem registry_perm {types types' : List TypeDefinition} (h : types.Perm types')
    (hnd : (types.map TypeDefinition.name).Nodup) : (registry types).Perm (registry types') := by
  have hnd' : (types'.map TypeDefinition.name).Nodup := (h.map _).nodup_iff.1 hnd
  have hbuiltIn : builtIn types = builtIn types' := by
    funext name
    have hfind := @Table.find?_eq_of_perm _ _ ⟨types, hnd⟩ ⟨types', hnd'⟩ h name
    exact congrArg (·.getD (.scalar name)) hfind
  rw [registry_eq, registry_eq, hbuiltIn]
  exact (h.filter _).append_left _

/-- **The same definitions make the same types**, in another order. -/
theorem Collected.rearranged (h : Collected defs a) (h' : Collected defs' a')
    (hperm : defs.Perm defs') (hnew : NoNamesakes defs) : a.schema.Rearranged a'.schema := by
  have hnd : ((defs.filterMap Definition.type?).map TypeDefinition.name).Nodup := by
    rw [map_name_types]
    exact hnew.types
  rw [Schema.Rearranged, h.types, h'.types]
  exact registry_perm (hperm.filterMap _) hnd

/-- The same is wrong with the definitions. -/
theorem Collected.faults_perm (h : Collected defs a) (h' : Collected defs' a')
    (hperm : defs.Perm defs') : (a.faults ++ a.fieldFaults).Perm (a'.faults ++ a'.fieldFaults) := by
  rw [h.faults, h.fieldFaults, h'.faults, h'.fieldFaults]
  exact (hperm.flatMap_right _).append (hperm.flatMap_right _)

/-! ## The verdict -/

/-- **The verdict on a list of definitions**: the valid schema that they make, or else what is wrong
with the definitions, or with their schema. -/
def verdict (definitions : List Definition) : Except Failure ValidSchema :=
  (assemble definitions).bind Schema.validate

/-- What is wrong with the definitions, or else with the schema that they make. -/
def Assembly.verdictFaults (a : Assembly) : List Fault :=
  if a.faults ++ a.fieldFaults = [] then a.schema.shapeFaults else a.faults ++ a.fieldFaults

/-- The verdict reports what is wrong, and there is a valid schema just if nothing is. -/
theorem verdict_eq (h : defs.foldl Assembly.add {} = a) :
    faultsOf (verdict defs) = (Report.ofList a.verdictFaults).faults ∧
      ((∃ valid, verdict defs = .ok valid) ↔ a.verdictFaults = []) := by
  subst h
  unfold verdict assemble Assembly.verdictFaults
  dsimp only
  generalize defs.foldl Assembly.add {} = a
  by_cases hnil : a.faults ++ a.fieldFaults = []
  · rw [if_pos hnil, hnil]
    exact ⟨Schema.faultsOf_validate a.schema, Schema.exists_validate_iff⟩
  · rw [if_neg hnil, Checked.result_of_ne_nil hnil]
    exact ⟨Failure.faults_ofReport _, iff_of_false nofun hnil⟩

/-- The verdict on a source is that on its definitions. -/
theorem validate_schemaOf {source : String} (h : definitions source.toList = .ok defs) :
    (schemaOf source).bind Schema.validate = verdict defs := by
  unfold schemaOf
  rw [h]
  rfl

theorem eq_nil_iff_of_perm {l m : List Fault} (h : l.Perm m) : l = [] ↔ m = [] := by
  rw [← List.length_eq_zero_iff, h.length_eq, List.length_eq_zero_iff]

theorem Collected.verdictFaults_perm (h : Collected defs a) (h' : Collected defs' a')
    (hperm : defs.Perm defs') (hnew : NoNamesakes defs) :
    a.verdictFaults.Perm a'.verdictFaults := by
  have hfaults := h.faults_perm h' hperm
  unfold Assembly.verdictFaults
  by_cases hnil : a.faults ++ a.fieldFaults = []
  · have hnil' := (eq_nil_iff_of_perm hfaults).1 hnil
    rw [if_pos hnil, if_pos hnil']
    exact (h.rearranged h' hperm hnew).shapeFaults_perm
  · have hnil' := mt (eq_nil_iff_of_perm hfaults).2 hnil
    rw [if_neg hnil, if_neg hnil']
    exact hfaults

theorem schema_of_assemble {schema : Schema} (h : assemble defs = .ok schema) :
    (defs.foldl Assembly.add {}).schema = schema := (Checked.result_eq_ok h).2

/-- **The verdict does not depend on the order of the definitions**, if no type and no directive is
defined twice. The schema of the one order is valid just if that of the other is, and else the same
faults are reported. Among them are the cycles of the structs that have no value, written out: the
same cycle is found for each of them. -/
theorem verdict_perm (h : defs.Perm defs') (hnew : NoNamesakes defs) :
    ((∃ valid, verdict defs = .ok valid) ↔ ∃ valid, verdict defs' = .ok valid) ∧
      (faultsOf (verdict defs)).Perm (faultsOf (verdict defs')) ∧
      ∀ s s', assemble defs = .ok s → assemble defs' = .ok s' → ∀ name,
        s.unbreakableCycle? s.instantiable name = s'.unbreakableCycle? s'.instantiable name := by
  have hcollected := hnew.collected
  have hcollected' := (hnew.of_perm h).collected
  have hfaults := hcollected.verdictFaults_perm hcollected' h hnew
  obtain ⟨hreported, hvalid⟩ := @verdict_eq defs _ rfl
  obtain ⟨hreported', hvalid'⟩ := @verdict_eq defs' _ rfl
  refine ⟨?_, ?_, fun s s' hs hs' name => ?_⟩
  · rw [hvalid, hvalid']
    exact eq_nil_iff_of_perm hfaults
  · rw [hreported, hreported']
    exact Report.perm_ofList hfaults
  · have hrearranged := hcollected.rearranged hcollected' h hnew
    rw [schema_of_assemble hs, schema_of_assemble hs'] at hrearranged
    exact hrearranged.unbreakableCycle?_eq name

/-- A struct that needs one of two that need each other, through a struct union. -/
def sitePages : List Definition :=
  [.struct ⟨⟨"Site", .refl true⟩, [], [⟨⟨"home", .refl true⟩, .named ⟨"Page", .refl true⟩ true, []⟩]⟩,
    .struct ⟨⟨"Page", .refl true⟩, [], [⟨⟨"part", .refl true⟩, .named ⟨"Part", .refl true⟩ true, []⟩]⟩,
    .struct ⟨⟨"Header", .refl true⟩, [], [⟨⟨"page", .refl true⟩, .named ⟨"Page", .refl true⟩ true, []⟩]⟩,
    .structUnion ⟨⟨"Part", .refl true⟩, [⟨"Header", .refl true⟩, ⟨"Page", .refl true⟩]⟩]

/-- Read backwards, the definitions have the same cycles. -/
theorem verdict_sitePages :
    sitePages.Perm sitePages.reverse ∧ NoNamesakes sitePages ∧
      Fault.cycle ⟨"Site", .refl true⟩ "Page.part -> Part -> Header.page -> Page" ∈
        faultsOf (verdict sitePages) ∧
      Fault.cycle ⟨"Site", .refl true⟩ "Page.part -> Part -> Header.page -> Page" ∈
        faultsOf (verdict sitePages.reverse) := by
  have hperm : sitePages.Perm sitePages.reverse := (List.reverse_perm _).symm
  have hnew : NoNamesakes sitePages := ⟨by decide, by decide⟩
  have hcycle : Fault.cycle ⟨"Site", .refl true⟩ "Page.part -> Part -> Header.page -> Page" ∈
      faultsOf (verdict sitePages) := by decide +kernel
  obtain ⟨-, hfaults, -⟩ := verdict_perm hperm hnew
  exact ⟨hperm, hnew, hcycle, hfaults.mem_iff.1 hcycle⟩

end StructQL.SDL
