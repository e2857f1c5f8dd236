import Mathlib.Data.List.Forall2
import StructQL.Fault.Report

/-!
# Checks side by side

Two checks that find the same faults, whatever their values are. Values are compared by a relation,
which each way to build a check carries along.

* `Checked.Rel`: two checks find the same faults, and their values are related.
* `Rel.bind`, `Rel.each`: checks that are built alike of related ones are related.
* `Rel.map_result`, `Rel.exists_result`: **both answer, or both fail alike.**
* `Retained`: what the first of two may have, the second has too.
* `sublistForall₂_flatten`, `sublistForall₂_filterMap`: what parts retain, the whole does.
-/

namespace StructQL

open List

section

variable {α β γ : Type} {R : α → β → Prop} {l : List α} {m : List β}

/-! ## Related lists -/

/-- What is made of related lists is equal if it is for related items. -/
theorem flatMap_eq_of_forall₂ {f : α → List γ} {g : β → List γ} (h : Forall₂ R l m)
    (hfg : ∀ a b, R a b → f a = g b) : l.flatMap f = m.flatMap g := by
  induction h with
  | nil => rfl
  | cons hab _ ih => rw [flatMap_cons, flatMap_cons, hfg _ _ hab, ih]

theorem forall₂_filter {p : α → Bool} {q : β → Bool} (h : Forall₂ R l m)
    (hpq : ∀ a b, R a b → p a = q b) : Forall₂ R (l.filter p) (m.filter q) := by
  refine rel_filter ?_ h
  intro a b hab
  exact Bool.eq_iff_iff.1 (hpq a b hab)

theorem forall₂_nil_iff (h : Forall₂ R l m) : l = [] ↔ m = [] := by
  cases h <;> simp

/-- What holds of an item of one list holds of one of the other. -/
theorem any_of_forall₂ {p : α → Bool} {q : β → Bool} (h : Forall₂ R l m)
    (hpq : ∀ a b, R a b → p a = true → q b = true) (hany : l.any p = true) : m.any q = true := by
  induction h with
  | nil => exact hany
  | cons hab _ ih =>
    rw [any_cons, Bool.or_eq_true] at hany ⊢
    rcases hany with ha | hrest
    · exact .inl (hpq _ _ hab ha)
    · exact .inr (ih hrest)

/-- It holds of both, if it holds of related items alike. -/
theorem any_eq_of_forall₂ {p : α → Bool} {q : β → Bool} (h : Forall₂ R l m)
    (hpq : ∀ a b, R a b → p a = q b) : l.any p = m.any q := by
  refine Bool.eq_iff_iff.2 ⟨any_of_forall₂ h fun a b hab hp => ?_,
    any_of_forall₂ h.flip fun b a hab hq => ?_⟩
  · rwa [← hpq a b hab]
  · rwa [hpq a b hab]

/-- **What the first may have, the second has too**, and what they have is related. -/
def Retained (R : α → β → Prop) (first : Option α) (second : Option β) : Prop :=
  ∀ a, first = some a → ∃ b, second = some b ∧ R a b

theorem retained_none {second : Option β} : Retained R none second := nofun

theorem retained_some {a : α} {b : β} (h : R a b) : Retained R (some a) (some b) := by
  rintro _ ⟨⟩
  exact ⟨b, rfl, h⟩

theorem Retained.map {α' β' : Type} {S : α' → β' → Prop} {f : α → α'} {g : β → β'}
    {first : Option α} {second : Option β} (h : Retained R first second)
    (hfg : ∀ a b, R a b → S (f a) (g b)) : Retained S (first.map f) (second.map g) := by
  rintro _ hfirst
  obtain ⟨a, ha, rfl⟩ := Option.map_eq_some_iff.1 hfirst
  obtain ⟨b, hb, hab⟩ := h a ha
  exact ⟨g b, by rw [hb, Option.map_some], hfg a b hab⟩

theorem Retained.toList {first : Option α} {second : Option β} (h : Retained R first second) :
    SublistForall₂ R first.toList second.toList := by
  cases first with
  | none => exact .nil
  | some a =>
    obtain ⟨b, rfl, hab⟩ := h a rfl
    exact .cons hab .nil

/-- What is kept on one side is kept on the other. -/
theorem Retained.kept {a : α} {b : β} {p q : Bool} (hpq : p = true → q = true) (h : R a b) :
    Retained R (if p then some a else none) (if q then some b else none) := by
  cases p with
  | false => exact retained_none
  | true =>
    rw [hpq rfl]
    exact retained_some h

theorem optionRel_kept {a : α} {b : β} {p q : Bool} (hpq : p = q) (h : R a b) :
    Option.Rel R (if p then some a else none) (if q then some b else none) := by
  subst hpq
  cases p with
  | false => exact .none
  | true => exact .some h

theorem optionRel_map {α' β' : Type} {S : α' → β' → Prop} {f : α → α'} {g : β → β'}
    {first : Option α} {second : Option β} (h : Option.Rel R first second)
    (hfg : ∀ a b, R a b → S (f a) (g b)) : Option.Rel S (first.map f) (second.map g) := by
  cases h with
  | none => exact .none
  | some hab => exact .some (hfg _ _ hab)

theorem forall₂_toList {first : Option α} {second : Option β} (h : Option.Rel R first second) :
    Forall₂ R first.toList second.toList := by
  cases h with
  | none => exact .nil
  | some hab => exact .cons hab .nil

theorem sublistForall₂_of_forall₂ (h : Forall₂ R l m) : SublistForall₂ R l m :=
  sublistForall₂_iff.2 ⟨m, h, .refl m⟩

theorem sublistForall₂_append {l' : List α} {m' : List β} (h : SublistForall₂ R l m)
    (h' : SublistForall₂ R l' m') : SublistForall₂ R (l ++ l') (m ++ m') := by
  obtain ⟨k, hk, hsub⟩ := sublistForall₂_iff.1 h
  obtain ⟨k', hk', hsub'⟩ := sublistForall₂_iff.1 h'
  exact sublistForall₂_iff.2 ⟨k ++ k', rel_append hk hk', hsub.append hsub'⟩

theorem sublistForall₂_flatten {ls : List (List α)} {ms : List (List β)}
    (h : Forall₂ (SublistForall₂ R) ls ms) : SublistForall₂ R ls.flatten ms.flatten := by
  induction h with
  | nil => exact .nil
  | cons hlm _ ih =>
    rw [flatten_cons, flatten_cons]
    exact sublistForall₂_append hlm ih

/-- **The items that one list may have are retained among those of the other**, in order. -/
theorem sublistForall₂_filterMap {l : List (Option α)} {m : List (Option β)}
    (h : Forall₂ (Retained R) l m) : SublistForall₂ R (l.filterMap id) (m.filterMap id) := by
  rw [filterMap_eq_flatMap_toList, filterMap_eq_flatMap_toList]
  refine sublistForall₂_flatten (rel_map ?_ h)
  intro first second hretained
  exact hretained.toList

end

namespace Checked

/-! ## Related checks -/

variable {α β γ α' β' : Type} {R : α → β → Prop} {S : α' → β' → Prop} {c : Checked α}
  {d : Checked β}

/-- **Two checks find the same faults**, and their values are related. -/
structure Rel (R : α → β → Prop) (c : Checked α) (d : Checked β) : Prop where
  value : R c.value d.value
  faults : c.faults = d.faults

theorem Rel.pure {a : α} {b : β} (h : R a b) : Rel R (Pure.pure a) (Pure.pure b) := ⟨h, rfl⟩

theorem Rel.fault {a : α} {b : β} (h : R a b) (f : Fault) :
    Rel R (Checked.fault a f) (Checked.fault b f) := ⟨h, rfl⟩

theorem Rel.imp {R' : α → β → Prop} (h : Rel R c d) (himp : R c.value d.value → R' c.value d.value) :
    Rel R' c d := ⟨himp h.value, h.faults⟩

theorem Rel.of_eq {c d : Checked α} (h : c = d) : Rel (· = ·) c d := by
  rw [h]
  exact ⟨rfl, rfl⟩

/-- Checks with equal values and the same faults are equal. -/
theorem Rel.eq {c d : Checked α} (h : Rel (· = ·) c d) : c = d := by
  obtain ⟨value, faults⟩ := c
  obtain ⟨value', faults'⟩ := d
  obtain ⟨hvalue, hfaults⟩ := h
  dsimp only at hvalue hfaults
  rw [hvalue, hfaults]

/-- **Checks that go on alike after related ones are related.** -/
theorem Rel.bind {f : α → Checked α'} {g : β → Checked β'} (h : Rel R c d)
    (hnext : ∀ a b, R a b → Rel S (f a) (g b)) : Rel S (c >>= f) (d >>= g) := by
  have hrest := hnext c.value d.value h.value
  refine ⟨hrest.value, ?_⟩
  rw [faults_bind, faults_bind, h.faults, hrest.faults]

/-- **Checks of related items are related**, item by item. -/
theorem Rel.each {l : List α} {m : List β} {f : α → Checked α'} {g : β → Checked β'}
    (h : Forall₂ R l m) (hstep : ∀ a b, R a b → Rel S (f a) (g b)) :
    Rel (Forall₂ S) (each l f) (each m g) := by
  constructor
  · rw [value_each, value_each]
    refine rel_map ?_ h
    intro a b hab
    exact (hstep a b hab).value
  · rw [faults_each, faults_each]
    refine flatMap_eq_of_forall₂ h ?_
    intro a b hab
    exact (hstep a b hab).faults

/-- **Related checks answer alike**, in what does not differ between related values. -/
theorem Rel.map_result {f : α → γ} {g : β → γ} (h : Rel R c d)
    (hfg : ∀ a b, R a b → f a = g b) : c.result.map f = d.result.map g := by
  unfold result
  rw [h.faults]
  cases d.faults with
  | nil => exact congrArg Except.ok (hfg _ _ h.value)
  | cons first rest => rfl

/-- If one of two related checks answers, the other one does. -/
theorem Rel.exists_result {a : α} (h : Rel R c d) (ha : c.result = .ok a) :
    ∃ b, d.result = .ok b ∧ R a b := by
  obtain ⟨hfaults, rfl⟩ := result_eq_ok ha
  refine ⟨d.value, ?_, h.value⟩
  unfold result
  rw [← h.faults, hfaults]

end Checked

end StructQL
