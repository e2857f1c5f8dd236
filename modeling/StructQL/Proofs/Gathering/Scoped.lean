import StructQL.Proofs.Gathering.StructSelection

/-!
# Selections of a scope

A selection that was gathered in a scope has the form that the schema gives it, at every depth, and
two selections of one scope merge.

* `QueryContext.Scoped`: a selection of a struct or struct union, with fields that exist.
* `Scoped.absorb`: **selections of one scope merge, and stay of that scope.**
* `scoped_selectionWithin`: what sites select is a selection of their scope.
-/

namespace StructQL

namespace QueryContext

open Checked Selection

variable {ctx : QueryContext} {scope : Name} {sites : List Site} {a b s : Selection}

/-- **A selection of a scope**: the whole value, or the fields of its structs, which exist. Leaves
are selected as a whole, and of other values there is a selection of their type. -/
inductive Scoped (ctx : QueryContext) : Name → Selection → Prop where
  | whole {scope : Name} : Scoped ctx scope .whole
  | narrowed {scope : Name} {s : Selection} :
    HasForm ctx.schema scope s →
    (∀ type fields, s.fieldsOf? type = some fields → (fields.map Prod.fst).Nodup) →
    (∀ type fields name selection, s.fieldsOf? type = some fields → (name, selection) ∈ fields →
      ctx.HasField type name ∧ (ctx.structField? type name = none → selection = .whole)) →
    (∀ type fields name selection base, s.fieldsOf? type = some fields →
      (name, selection) ∈ fields → ctx.structField? type name = some base →
      Scoped ctx base selection) →
    Scoped ctx scope s

section

variable {type name base : Name} {fields : List (Name × Selection)} {selection : Selection}

theorem Scoped.hasForm (h : ctx.Scoped scope s) (hne : s ≠ .whole) :
    HasForm ctx.schema scope s := by
  cases h with
  | whole => exact absurd rfl hne
  | narrowed hform _ _ _ => exact hform

theorem Scoped.nodup (h : ctx.Scoped scope s) (hfields : s.fieldsOf? type = some fields) :
    (fields.map Prod.fst).Nodup := by
  cases h with
  | whole => cases hfields
  | narrowed _ hnd _ _ => exact hnd type fields hfields

theorem Scoped.hasField (h : ctx.Scoped scope s) (hfields : s.fieldsOf? type = some fields)
    (hmem : (name, selection) ∈ fields) : ctx.HasField type name := by
  cases h with
  | whole => cases hfields
  | narrowed _ _ hfield _ => exact (hfield type fields name selection hfields hmem).1

theorem Scoped.leaf (h : ctx.Scoped scope s) (hfields : s.fieldsOf? type = some fields)
    (hmem : (name, selection) ∈ fields) (hbase : ctx.structField? type name = none) :
    selection = .whole := by
  cases h with
  | whole => cases hfields
  | narrowed _ _ hfield _ => exact (hfield type fields name selection hfields hmem).2 hbase

theorem Scoped.nested (h : ctx.Scoped scope s) (hfields : s.fieldsOf? type = some fields)
    (hmem : (name, selection) ∈ fields) (hbase : ctx.structField? type name = some base) :
    ctx.Scoped base selection := by
  cases h with
  | whole => cases hfields
  | narrowed _ _ _ hnested => exact hnested type fields name selection base hfields hmem hbase

theorem Scoped.of_fields (hform : HasForm ctx.schema scope s)
    (hnd : ∀ type fields, s.fieldsOf? type = some fields → (fields.map Prod.fst).Nodup)
    (h : ∀ type fields name selection, s.fieldsOf? type = some fields → (name, selection) ∈ fields →
      ctx.HasField type name ∧ (ctx.structField? type name = none → selection = .whole) ∧
        ∀ base, ctx.structField? type name = some base → ctx.Scoped base selection) :
    ctx.Scoped scope s := by
  refine .narrowed hform hnd (fun type fields name selection hfields hmem => ?_) ?_
  · obtain ⟨hhas, hleaf, -⟩ := h type fields name selection hfields hmem
    exact ⟨hhas, hleaf⟩
  · intro type fields name selection base hfields hmem hbase
    exact (h type fields name selection hfields hmem).2.2 base hbase

/-- The fields of a struct merge if those do that are not leaves. -/
theorem Scoped.faults_absorbPairs (ha : ctx.Scoped scope a) (hb : ctx.Scoped scope b)
    {x y : List (Name × Selection)} (hx : a.fieldsOf? type = some x)
    (hy : b.fieldsOf? type = some y)
    (h : ∀ name s t base, (name, s) ∈ x → (name, t) ∈ y → ctx.structField? type name = some base →
      (s.absorb t).2 = none) : (absorbPairs absorb x y).2 = none := by
  refine (faults_absorbPairs_iff (hb.nodup hy)).2 fun name s t hs ht => ?_
  have hs := Pairs.mem_of_lookup hs
  have ht := Pairs.mem_of_lookup ht
  cases hbase : ctx.structField? type name with
  | none => rw [ha.leaf hx hs hbase, whole_absorb]
  | some base => exact h name s t base hs ht hbase

end

/-- **Selections of one scope merge, and stay of that scope.** -/
theorem Scoped.absorb (ha : ctx.Scoped scope a) :
    ∀ {b}, ctx.Scoped scope b → (a.absorb b).2 = none ∧ ctx.Scoped scope (a.absorb b).1 := by
  induction ha with
  | whole =>
    intro b _
    rw [whole_absorb]
    exact ⟨rfl, .whole⟩
  | @narrowed scope a hform hnd hfield hnested ih =>
    intro b hb
    have ha : ctx.Scoped scope a := .narrowed hform hnd hfield hnested
    by_cases hwhole : b = .whole
    · rw [hwhole, absorb_whole]
      exact ⟨rfl, .whole⟩
    have hmerge : ∀ type x y, a.fieldsOf? type = some x → b.fieldsOf? type = some y →
        (absorbPairs Selection.absorb x y).2 = none := fun type x y hx hy =>
      ha.faults_absorbPairs hb hx hy fun name s t base hs ht hbase =>
        (ih type x name s base hx hs hbase (hb.nested hy ht hbase)).1
    obtain ⟨hnone, hmerged, hfields⟩ := hform.absorb (hb.hasForm hwhole) hmerge
    refine ⟨hnone, .of_fields hmerged (fun type fields hfs => ?_) ?_⟩
    · obtain ⟨x, y, hx, hy, rfl⟩ := (hfields type fields).1 hfs
      exact nodup_absorbPairs (ha.nodup hx) y
    · intro type fields name s hfs hs
      obtain ⟨x, y, hx, hy, rfl⟩ := (hfields type fields).1 hfs
      -- a field of the result is merged from both, or is a field of one of them
      rcases mem_absorbPairs (ha.nodup hx) (hb.nodup hy) (hmerge type x y hx hy) hs with
        ⟨s₁, s₂, h₁, h₂, rfl⟩ | ⟨h₁, -⟩ | ⟨h₂, -⟩
      · refine ⟨ha.hasField hx h₁, fun hbase => ?_, fun base hbase => ?_⟩
        · rw [ha.leaf hx h₁ hbase, whole_absorb]
        · exact (ih type x name s₁ base hx h₁ hbase (hb.nested hy h₂ hbase)).2
      · exact ⟨ha.hasField hx h₁, ha.leaf hx h₁, fun base => ha.nested hx h₁⟩
      · exact ⟨hb.hasField hy h₂, hb.leaf hy h₂, fun base => hb.nested hy h₂⟩

/-- Selections of one scope merge to one of that scope. -/
theorem Scoped.exists_merge (ha : ctx.Scoped scope a) (hb : ctx.Scoped scope b) :
    ∃ s, a.merge b = .ok s ∧ ctx.Scoped scope s := by
  obtain ⟨hnone, hscoped⟩ := ha.absorb hb
  refine ⟨(a.absorb b).1, merge_eq_ok_iff.2 ?_, hscoped⟩
  rw [← hnone]

/-! ## What sites select -/

/-- **What sites select is a selection of their scope**, unless there are faults. -/
theorem scoped_selectionWithin :
    ∀ (levels : Nat) (scope : Name) (sites : List Site) (s : Selection),
      ctx.schema.isStructLike scope = true →
      (ctx.selectionWithin levels scope sites).faults = [] →
      (ctx.selectionWithin levels scope sites).value = some s → ctx.Scoped scope s := by
  intro levels
  induction levels with
  | zero => intro scope sites s _ _ hs; cases hs
  | succ levels ih =>
    intro scope sites s hlike hfaults hs
    obtain ⟨-, hscope⟩ := faults_selectionWithin hfaults
    rw [value_selectionWithin] at hs
    split at hs
    · cases hs
    split at hs
    · cases hs
      exact .whole
    cases hs
    refine .of_fields (hasForm_scopeSelection hlike) (fun type fields hfields => ?_) ?_
    · obtain ⟨-, rfl⟩ := fieldSet_of_fieldsOf? hscope hfields
      exact nodup_fieldSet
    · intro type fields name s hfields hs
      -- a field of the selection comes from the group of its name
      obtain ⟨hnone, rfl⟩ := fieldSet_of_fieldsOf? hscope hfields
      obtain ⟨group, hgroup, hvalue⟩ := mem_fieldSet.1 hs
      have hne := ne_nil_of_mem_fieldGroups hgroup
      have hnone := faults_fieldGroup hnone hgroup
      cases hbase : ctx.structField? type name with
      | none =>
        obtain ⟨hhas, -, hwhole⟩ := (fieldSelection_of_leaf hne hnone hbase).1 hvalue
        exact ⟨hhas, fun _ => hwhole, nofun⟩
      | some base =>
        refine ⟨hasField_of_structField? hbase, nofun, fun other hother => ?_⟩
        cases hother
        obtain ⟨hnone, hsame⟩ := fieldSelection_of_structField? hne hnone hbase
        obtain ⟨-, field, -, -, hlike⟩ := structField?_eq_some_iff.1 hbase
        exact ih base _ s hlike hnone (hsame ▸ hvalue)

end QueryContext

end StructQL
