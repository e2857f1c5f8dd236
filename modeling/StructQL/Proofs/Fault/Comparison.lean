import StructQL.Proofs.Fault.Among

/-!
# Ways to compare checks

Two sides that are built alike may be compared in several ways: with the same in the same order, with
what one side has retained on the other, or with the same in whatever order and number. What is shown
from the laws that all ways have in common holds for each of them.

* `Comparison`: a way to compare two sides, with its laws.
* `Comparison.inOrder`: both sides have the same, in the same order.
* `Comparison.retaining`: the second side has what the first one has, in the same order.
* `Comparison.inAnyOrder`: both sides have the same, in whatever order and number.
-/

namespace StructQL

open List

/-- **A way to compare two sides**: what becomes of a relation between items for all that is made of
them, in such a manner that each step by which something is gathered keeps it. -/
structure Comparison where
  /-- Flags, such as whether something is included. -/
  flags : Bool → Bool → Prop
  /-- Checks with related values. -/
  checks {α β : Type} : (α → β → Prop) → Checked α → Checked β → Prop
  /-- Lists of what is found. -/
  lists {α β : Type} : (α → β → Prop) → List α → List β → Prop
  /-- Lists in which nothing is repeated, such as those of groups. -/
  groups {α β : Type} : (α → β → Prop) → List α → List β → Prop
  /-- Lists that are put together of what there is in each group. -/
  parts {α β : Type} : (α → β → Prop) → List α → List β → Prop
  /-- What there may be of a group. -/
  options {α β : Type} : (α → β → Prop) → Option α → Option β → Prop
  -- checks
  imp {α β : Type} {R S : α → β → Prop} {c : Checked α} {d : Checked β} :
    checks R c d → (R c.value d.value → S c.value d.value) → checks S c d
  same {α β : Type} {R : α → β → Prop} {a : α} {b : β} (faults : List Fault) :
    R a b → checks R ⟨a, faults⟩ ⟨b, faults⟩
  found {α β γ δ : Type} {R : α → β → Prop} {S : γ → δ → Prop} {l : List α} {m : List β}
    {f : α → List Fault} {g : β → List Fault} {c : γ} {d : δ} :
    lists R l m → (∀ a b, R a b → f a = g b) → S c d → checks S ⟨c, l.flatMap f⟩ ⟨d, m.flatMap g⟩
  bind {α β γ δ : Type} {R : α → β → Prop} {S : γ → δ → Prop} {c : Checked α} {d : Checked β}
    {f : α → Checked γ} {g : β → Checked δ} :
    checks R c d → (∀ a b, R a b → checks S (f a) (g b)) → checks S (c >>= f) (d >>= g)
  each {α β γ δ : Type} {R : α → β → Prop} {S : γ → δ → Prop} {l : List α} {m : List β}
    {f : α → Checked γ} {g : β → Checked δ} :
    lists R l m → (∀ a b, R a b → checks S (f a) (g b)) →
      checks (lists S) (.each l f) (.each m g)
  each_group {α β γ δ : Type} {R : α → β → Prop} {S : γ → δ → Prop} {l : List α} {m : List β}
    {f : α → Checked γ} {g : β → Checked δ} :
    groups R l m → (∀ a b, R a b → checks S (f a) (g b)) →
      checks (groups S) (.each l f) (.each m g)
  -- lists
  refl {α : Type} (l : List α) : lists (· = ·) l l
  nil_iff {α β : Type} {R : α → β → Prop} {l : List α} {m : List β} :
    lists R l m → (l = [] ↔ m = [])
  map {α β γ δ : Type} {R : α → β → Prop} {S : γ → δ → Prop} {l : List α} {m : List β} {f : α → γ}
    {g : β → δ} : lists R l m → (∀ a b, R a b → S (f a) (g b)) → lists S (l.map f) (m.map g)
  flatMap {α β γ δ : Type} {R : α → β → Prop} {S : γ → δ → Prop} {l : List α} {m : List β}
    {f : α → List γ} {g : β → List δ} :
    lists R l m → (∀ a b, R a b → lists S (f a) (g b)) → lists S (l.flatMap f) (m.flatMap g)
  filter {α β : Type} {R : α → β → Prop} {l : List α} {m : List β} {p : α → Bool} {q : β → Bool} :
    lists R l m → (∀ a b, R a b → p a = q b) → lists R (l.filter p) (m.filter q)
  any {α β : Type} {R : α → β → Prop} {l : List α} {m : List β} {p : α → Bool} {q : β → Bool} :
    lists R l m → (∀ a b, R a b → flags (p a) (q b)) → flags (l.any p) (m.any q)
  -- groups, and what there is of them
  group {κ α β : Type} [DecidableEq κ] {R : α → β → Prop} {l : List (κ × α)} {m : List (κ × β)} :
    lists (Pairs.SameKey R) l m →
      groups (Pairs.SameKey (lists R)) (Pairs.group l) (Pairs.group m)
  refl_groups {α : Type} (l : List α) : groups (· = ·) l l
  filterMap {α β : Type} {R : α → β → Prop} {l : List (Option α)} {m : List (Option β)} :
    groups (options R) l m → parts R (l.filterMap id) (m.filterMap id)
  flatten {α β : Type} {R : α → β → Prop} {ls : List (List α)} {ms : List (List β)} :
    groups (parts R) ls ms → parts R ls.flatten ms.flatten
  none {α β : Type} {R : α → β → Prop} : options R none none
  kept {α β : Type} {R : α → β → Prop} {a : α} {b : β} {p q : Bool} :
    flags p q → R a b → options R (if p then some a else .none) (if q then some b else .none)
  map_option {α β γ δ : Type} {R : α → β → Prop} {S : γ → δ → Prop} {first : Option α}
    {second : Option β} {f : α → γ} {g : β → δ} :
    options R first second → (∀ a b, R a b → S (f a) (g b)) →
      options S (first.map f) (second.map g)
  toList {α β : Type} {R : α → β → Prop} {first : Option α} {second : Option β} :
    options R first second → parts R first.toList second.toList
  -- flags
  refl_flags (p : Bool) : flags p p
  and {p q : Bool} (r : Bool) : flags p q → flags (r && p) (r && q)

namespace Comparison

section

variable {α β : Type} {R : α → β → Prop} {a : α} {b : β} (cmp : Comparison)

theorem pure (h : R a b) : cmp.checks R (Pure.pure a) (Pure.pure b) := cmp.same [] h

theorem fault (f : Fault) (h : R a b) : cmp.checks R (Checked.fault a f) (Checked.fault b f) :=
  cmp.same [f] h

theorem nil : cmp.parts R [] [] := cmp.toList cmp.none

theorem each_flatten {γ δ : Type} {S : γ → δ → Prop} {l : List α} {m : List β}
    {f : α → Checked (List γ)} {g : β → Checked (List δ)} (h : cmp.lists R l m)
    (hstep : ∀ a b, R a b → cmp.checks (cmp.lists S) (f a) (g b)) :
    cmp.checks (cmp.lists S) (do return (← Checked.each l f).flatten)
      (do return (← Checked.each m g).flatten) := by
  refine cmp.bind (cmp.each h hstep) fun found found' hfound => cmp.pure ?_
  rw [← flatMap_id, ← flatMap_id]
  exact cmp.flatMap hfound fun _ _ => id

end

/-- **Both sides have the same, in the same order.** -/
def inOrder : Comparison where
  flags p q := p = q
  checks := Checked.Rel
  lists := Forall₂
  groups := Forall₂
  parts := Forall₂
  options := Option.Rel
  imp := .imp
  same _ h := ⟨h, rfl⟩
  found h hfg hS := ⟨hS, flatMap_eq_of_forall₂ h hfg⟩
  bind := .bind
  each := .each
  each_group := .each
  refl l := forall₂_same.2 fun _ _ => rfl
  nil_iff := forall₂_nil_iff
  map h hfg := rel_map (fun a b => hfg a b) h
  flatMap h hfg := rel_flatMap h hfg
  filter := forall₂_filter
  any := any_eq_of_forall₂
  group := Pairs.rel_group
  refl_groups l := forall₂_same.2 fun _ _ => rfl
  filterMap h := rel_filterMap (fun _ _ hr => hr) h
  flatten h := rel_flatten h
  none := .none
  kept := optionRel_kept
  map_option := optionRel_map
  toList := forall₂_toList
  refl_flags _ := rfl
  and _ h := by rw [h]

/-- **The second side has what the first one has**, in the same order. -/
def retaining : Comparison :=
  { inOrder with
    flags := fun p q => p = true → q = true
    parts := SublistForall₂
    options := Retained
    any := fun h hpq => any_of_forall₂ h hpq
    filterMap := sublistForall₂_filterMap
    flatten := sublistForall₂_flatten
    none := retained_none
    kept := Retained.kept
    map_option := Retained.map
    toList := Retained.toList
    refl_flags := fun _ => id
    and := fun _ h hp => by
      rw [Bool.and_eq_true] at hp ⊢
      exact ⟨hp.1, h hp.2⟩ }

/-- **Both sides have the same, in whatever order and number**, and as many parts in some order. -/
def inAnyOrder : Comparison where
  flags p q := p = q
  checks := Checked.Matches
  lists := BothWays
  groups := Unordered
  parts := Unordered
  options := Option.Rel
  imp := .imp
  same _ h := ⟨h, fun _ => Iff.rfl⟩
  found h hfg hS := ⟨hS, h.mem_flatMap fun a b hab c => by rw [hfg a b hab]⟩
  bind := .bind
  each := .each_bothWays
  each_group := .each
  refl := .refl
  nil_iff := BothWays.nil_iff
  map := .map
  flatMap := .flatMap
  filter := .filter
  any := BothWays.any
  group := Pairs.unordered_group
  refl_groups l := unordered_of_forall₂ (forall₂_same.2 fun _ _ => rfl)
  filterMap := .filterMap
  flatten := .flatten
  none := .none
  kept := optionRel_kept
  map_option := optionRel_map
  toList h := unordered_of_forall₂ (forall₂_toList h)
  refl_flags _ := rfl
  and _ h := by rw [h]

end Comparison

end StructQL
