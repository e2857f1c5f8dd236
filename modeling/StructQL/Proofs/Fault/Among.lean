import Mathlib.Data.Multiset.Bind
import Mathlib.Data.List.Nodup
import StructQL.Proofs.Fault.Related
import StructQL.Proofs.Pairs

/-!
# Checks side by side, whatever the order

What two checks find may differ in its order and in how often it is found.

* `Among`: each item of a list is related to one of another list.
* `Pairs.among_group`: **groups have all that related values are gathered in.**
* `BothWays`: each item of either list is related to one of the other.
* `Unordered`: the items of two lists are related one by one, in some order.
* `Checked.AtMost`: a check finds no faults but those of another one.
* `Checked.Matches`: two checks find the same faults.
-/

namespace StructQL

open List

variable {α β γ δ κ : Type} {R : α → β → Prop} {S : γ → δ → Prop} {l : List α} {m : List β}

/-! ## Lists -/

/-- **Each item of the first list is related to one of the second.** -/
def Among (R : α → β → Prop) (l : List α) (m : List β) : Prop := ∀ a ∈ l, ∃ b ∈ m, R a b

theorem among_nil : Among R [] m := fun _ h => absurd h not_mem_nil

theorem among_singleton {a : α} {b : β} (h : R a b) : Among R [a] [b] := by
  rintro _ hc
  rw [mem_singleton.1 hc]
  exact ⟨b, mem_singleton_self b, h⟩

theorem Among.imp {T : α → β → Prop} (h : Among R l m) (himp : ∀ a b, R a b → T a b) :
    Among T l m := by
  intro a ha
  obtain ⟨b, hb, hab⟩ := h a ha
  exact ⟨b, hb, himp a b hab⟩

theorem Among.map {f : α → γ} {g : β → δ} (h : Among R l m) (hfg : ∀ a b, R a b → S (f a) (g b)) :
    Among S (l.map f) (m.map g) := by
  rintro _ hc
  obtain ⟨a, ha, rfl⟩ := mem_map.1 hc
  obtain ⟨b, hb, hab⟩ := h a ha
  exact ⟨g b, mem_map_of_mem hb, hfg a b hab⟩

theorem Among.flatten {ls : List (List α)} {ms : List (List β)} (h : Among (Among R) ls ms) :
    Among R ls.flatten ms.flatten := by
  intro a ha
  obtain ⟨l, hl, ha⟩ := mem_flatten.1 ha
  obtain ⟨m, hm, hlm⟩ := h l hl
  obtain ⟨b, hb, hab⟩ := hlm a ha
  exact ⟨b, mem_flatten.2 ⟨m, hm, hb⟩, hab⟩

theorem Among.flatMap {f : α → List γ} {g : β → List δ} (h : Among R l m)
    (hfg : ∀ a b, R a b → Among S (f a) (g b)) : Among S (l.flatMap f) (m.flatMap g) := by
  rw [flatMap_def, flatMap_def]
  exact (h.map hfg).flatten

theorem Among.filter {p : α → Bool} {q : β → Bool} (h : Among R l m)
    (hpq : ∀ a b, R a b → p a = true → q b = true) : Among R (l.filter p) (m.filter q) := by
  intro a ha
  obtain ⟨ha, hp⟩ := mem_filter.1 ha
  obtain ⟨b, hb, hab⟩ := h a ha
  exact ⟨b, mem_filter.2 ⟨hb, hpq a b hab hp⟩, hab⟩

theorem Among.any {p : α → Bool} {q : β → Bool} (h : Among R l m)
    (hpq : ∀ a b, R a b → p a = true → q b = true) (hany : l.any p = true) : m.any q = true := by
  obtain ⟨a, ha, hp⟩ := any_eq_true.1 hany
  obtain ⟨b, hb, hab⟩ := h a ha
  exact any_eq_true.2 ⟨b, hb, hpq a b hab hp⟩

theorem Among.ne_nil (h : Among R l m) (hne : l ≠ []) : m ≠ [] := by
  obtain ⟨a, ha⟩ := exists_mem_of_ne_nil l hne
  obtain ⟨b, hb, -⟩ := h a ha
  exact ne_nil_of_mem hb

/-- **Each item of either list is related to one of the other.** -/
structure BothWays (R : α → β → Prop) (l : List α) (m : List β) : Prop where
  left : Among R l m
  right : Among (flip R) m l

namespace BothWays

theorem refl (l : List α) : BothWays (· = ·) l l :=
  ⟨fun a ha => ⟨a, ha, rfl⟩, fun a ha => ⟨a, ha, rfl⟩⟩

theorem nil_iff (h : BothWays R l m) : l = [] ↔ m = [] :=
  not_iff_not.1 ⟨h.left.ne_nil, h.right.ne_nil⟩

theorem map {f : α → γ} {g : β → δ} (h : BothWays R l m) (hfg : ∀ a b, R a b → S (f a) (g b)) :
    BothWays S (l.map f) (m.map g) :=
  ⟨h.left.map hfg, h.right.map fun b a hab => hfg a b hab⟩

theorem flatMap {f : α → List γ} {g : β → List δ} (h : BothWays R l m)
    (hfg : ∀ a b, R a b → BothWays S (f a) (g b)) : BothWays S (l.flatMap f) (m.flatMap g) :=
  ⟨h.left.flatMap fun a b hab => (hfg a b hab).left,
    h.right.flatMap fun b a hab => (hfg a b hab).right⟩

theorem filter {p : α → Bool} {q : β → Bool} (h : BothWays R l m)
    (hpq : ∀ a b, R a b → p a = q b) : BothWays R (l.filter p) (m.filter q) :=
  ⟨h.left.filter fun a b hab hp => by rwa [← hpq a b hab],
    h.right.filter fun b a hab hq => by rwa [hpq a b hab]⟩

theorem any {p : α → Bool} {q : β → Bool} (h : BothWays R l m)
    (hpq : ∀ a b, R a b → p a = q b) : l.any p = m.any q := by
  refine Bool.eq_iff_iff.2 ⟨h.left.any fun a b hab hp => ?_, h.right.any fun b a hab hq => ?_⟩
  · rwa [← hpq a b hab]
  · rwa [hpq a b hab]

/-- What is found for related items is found for both lists. -/
theorem mem_flatMap {f : α → List γ} {g : β → List γ} (h : BothWays R l m)
    (hfg : ∀ a b, R a b → ∀ c, c ∈ f a ↔ c ∈ g b) (c : γ) :
    c ∈ l.flatMap f ↔ c ∈ m.flatMap g := by
  rw [List.mem_flatMap, List.mem_flatMap]
  constructor
  · rintro ⟨a, ha, hc⟩
    obtain ⟨b, hb, hab⟩ := h.left a ha
    exact ⟨b, hb, (hfg a b hab c).1 hc⟩
  · rintro ⟨b, hb, hc⟩
    obtain ⟨a, ha, hab⟩ := h.right b hb
    exact ⟨a, ha, (hfg a b hab c).2 hc⟩

end BothWays

/-- **The items of two lists are related one by one**, in some order. -/
def Unordered (R : α → β → Prop) (l : List α) (m : List β) : Prop :=
  Multiset.Rel R (l : Multiset α) (m : Multiset β)

theorem Unordered.imp {T : α → β → Prop} (h : Unordered R l m)
    (himp : ∀ a ∈ l, ∀ b ∈ m, R a b → T a b) : Unordered T l m :=
  Multiset.Rel.mono h himp

theorem Unordered.exists_right (h : Unordered R l m) {a : α} (ha : a ∈ l) : ∃ b ∈ m, R a b :=
  Multiset.exists_mem_of_rel_of_mem h ha

theorem Unordered.exists_left (h : Unordered R l m) {b : β} (hb : b ∈ m) : ∃ a ∈ l, R a b :=
  Multiset.exists_mem_of_rel_of_mem (Multiset.rel_flip.2 h) hb

theorem Unordered.length_eq (h : Unordered R l m) : l.length = m.length :=
  Multiset.card_eq_card_of_rel h

theorem Unordered.bothWays (h : Unordered R l m) : BothWays R l m :=
  ⟨fun _ ha => h.exists_right ha, fun _ hb => h.exists_left hb⟩

theorem Unordered.map {f : α → γ} {g : β → δ} (h : Unordered R l m)
    (hfg : ∀ a b, R a b → S (f a) (g b)) : Unordered S (l.map f) (m.map g) := by
  unfold Unordered
  rw [← Multiset.map_coe, ← Multiset.map_coe, Multiset.rel_map]
  exact h.imp fun a _ b _ => hfg a b

theorem Unordered.flatten {ls : List (List α)} {ms : List (List β)}
    (h : Unordered (Unordered R) ls ms) : Unordered R ls.flatten ms.flatten := by
  unfold Unordered
  rw [← flatMap_id, ← flatMap_id, ← Multiset.coe_bind, ← Multiset.coe_bind]
  exact Multiset.rel_bind (fun _ _ hlm => hlm) h

theorem unordered_of_forall₂ (h : Forall₂ R l m) : Unordered R l m := by
  induction h with
  | nil => exact .zero
  | cons hab _ ih => exact .cons hab ih

/-- The items that the lists may have are related one by one, if the lists are. -/
theorem Unordered.filterMap {l : List (Option α)} {m : List (Option β)}
    (h : Unordered (Option.Rel R) l m) : Unordered R (l.filterMap id) (m.filterMap id) := by
  rw [filterMap_eq_flatMap_toList, filterMap_eq_flatMap_toList]
  refine (h.map fun first second hab => ?_).flatten
  exact unordered_of_forall₂ (forall₂_toList hab)

/-- **Items with distinct keys are related one by one** to others with the same keys. -/
theorem unordered_of_keys {f : α → κ} {g : β → κ} (hl : (l.map f).Nodup) (hm : (m.map g).Nodup)
    (hlm : l.map f ⊆ m.map g) (hml : m.map g ⊆ l.map f) : Unordered (fun a b => f a = g b) l m := by
  have hperm : (l.map f).Perm (m.map g) := by
    refine (perm_ext_iff_of_nodup hl hm).2 ?_
    intro key
    exact ⟨fun h => hlm h, fun h => hml h⟩
  refine Multiset.rel_map.1 ?_
  rw [Multiset.rel_eq, Multiset.map_coe, Multiset.map_coe, Multiset.coe_eq_coe]
  exact hperm

/-- **Related values are gathered in related groups**, in whatever order and number they come. -/
theorem Pairs.among_group [DecidableEq κ] {l : List (κ × α)} {m : List (κ × β)}
    (h : Among (SameKey R) l m) : Among (SameKey (Among R)) (group l) (group m) := by
  rintro ⟨key, values⟩ hvalues
  have hvalue : ∀ a ∈ values, ∃ b, (key, b) ∈ m ∧ R a b := by
    intro a ha
    obtain ⟨⟨_, b⟩, hb, rfl, hab⟩ := h _ ((mem_values hvalues).1 ha)
    exact ⟨b, hb, hab⟩
  obtain ⟨a, ha⟩ := exists_mem_of_ne_nil values (mem_group.1 hvalues).1
  obtain ⟨b, hb, -⟩ := hvalue a ha
  obtain ⟨others, hothers⟩ := exists_group hb
  refine ⟨(key, others), hothers, rfl, ?_⟩
  intro a ha
  obtain ⟨b, hb, hab⟩ := hvalue a ha
  exact ⟨b, (mem_values hothers).2 hb, hab⟩

theorem Pairs.among_keys {l : List (κ × α)} {m : List (κ × β)} (h : Among (SameKey R) l m) :
    l.map Prod.fst ⊆ m.map Prod.fst := by
  intro key hkey
  obtain ⟨p, hp, rfl⟩ := mem_map.1 hkey
  obtain ⟨q, hq, hkey, -⟩ := h p hp
  exact mem_map.2 ⟨q, hq, hkey.symm⟩

/-- **Values that are related both ways are gathered in groups that are**, one group to one. -/
theorem Pairs.unordered_group [DecidableEq κ] {l : List (κ × α)} {m : List (κ × β)}
    (h : BothWays (SameKey R) l m) :
    Unordered (SameKey (BothWays R)) (group l) (group m) := by
  have hleft := among_group h.left
  have hright : Among (SameKey (Among (flip R))) (group m) (group l) :=
    among_group (h.right.imp fun _ _ hqp => ⟨hqp.1.symm, hqp.2⟩)
  refine (unordered_of_keys (nodup_group l) (nodup_group m) (among_keys hleft)
    (among_keys hright)).imp ?_
  rintro ⟨key, values⟩ hvalues ⟨_, others⟩ hothers rfl
  refine ⟨rfl, ?_, ?_⟩
  · obtain ⟨⟨_, found⟩, hfound, rfl, hamong⟩ := hleft _ hvalues
    rwa [eq_of_mem (nodup_group m) hothers hfound]
  · obtain ⟨⟨_, found⟩, hfound, rfl, hamong⟩ := hright _ hothers
    rwa [eq_of_mem (nodup_group l) hvalues hfound]

namespace Checked

variable {c : Checked α} {d : Checked β}

/-! ## Faults of one check among those of another -/

/-- **A check finds no faults but those of another one**, and their values are related. -/
structure AtMost (R : α → β → Prop) (c : Checked α) (d : Checked β) : Prop where
  value : R c.value d.value
  faults : c.faults ⊆ d.faults

theorem AtMost.pure {a : α} {b : β} (h : R a b) : AtMost R (Pure.pure a) (Pure.pure b) :=
  ⟨h, Subset.refl _⟩

theorem AtMost.fault {a : α} {b : β} (h : R a b) (f : Fault) :
    AtMost R (Checked.fault a f) (Checked.fault b f) :=
  ⟨h, Subset.refl _⟩

/-! ## The same faults -/

/-- **Two checks find the same faults**, but for their order and for how often they are found, and
their values are related. -/
structure Matches (R : α → β → Prop) (c : Checked α) (d : Checked β) : Prop where
  value : R c.value d.value
  faults : ∀ f, f ∈ c.faults ↔ f ∈ d.faults

theorem Matches.of_atMost {T : β → α → Prop} {U : α → β → Prop} (h : AtMost R c d)
    (h' : AtMost T d c) (hvalue : R c.value d.value → T d.value c.value → U c.value d.value) :
    Matches U c d :=
  ⟨hvalue h.value h'.value, fun _ => ⟨fun hf => h.faults hf, fun hf => h'.faults hf⟩⟩

theorem Matches.pure {a : α} {b : β} (h : R a b) : Matches R (Pure.pure a) (Pure.pure b) :=
  ⟨h, fun _ => Iff.rfl⟩

theorem Matches.fault {a : α} {b : β} (h : R a b) (f : Fault) :
    Matches R (Checked.fault a f) (Checked.fault b f) :=
  ⟨h, fun _ => Iff.rfl⟩

theorem Matches.imp {T : α → β → Prop} (h : Matches R c d)
    (himp : R c.value d.value → T c.value d.value) : Matches T c d :=
  ⟨himp h.value, h.faults⟩

theorem Matches.bind {f : α → Checked γ} {g : β → Checked δ} (h : Matches R c d)
    (hnext : ∀ a b, R a b → Matches S (f a) (g b)) : Matches S (c >>= f) (d >>= g) := by
  have hrest := hnext c.value d.value h.value
  refine ⟨hrest.value, ?_⟩
  intro fault
  rw [faults_bind, faults_bind, mem_append, mem_append, h.faults, hrest.faults]

/-- **Checks of items that are related one by one, in whatever order, find the same faults.** -/
theorem Matches.each {f : α → Checked γ} {g : β → Checked δ} (h : Unordered R l m)
    (hstep : ∀ a b, R a b → Matches S (f a) (g b)) :
    Matches (Unordered S) (each l f) (each m g) := by
  constructor
  · rw [value_each, value_each]
    exact h.map fun a b hab => (hstep a b hab).value
  · rw [faults_each, faults_each]
    exact h.bothWays.mem_flatMap fun a b hab => (hstep a b hab).faults

/-- Checks of items that are related both ways find the same faults, and have values that are. -/
theorem Matches.each_bothWays {f : α → Checked γ} {g : β → Checked δ} (h : BothWays R l m)
    (hstep : ∀ a b, R a b → Matches S (f a) (g b)) :
    Matches (BothWays S) (Checked.each l f) (Checked.each m g) := by
  constructor
  · rw [value_each, value_each]
    exact h.map fun a b hab => (hstep a b hab).value
  · rw [faults_each, faults_each]
    exact h.mem_flatMap fun a b hab => (hstep a b hab).faults

/-- Checks of items that are related in order have values that are. -/
theorem Matches.each_inOrder {f : α → Checked γ} {g : β → Checked δ} (h : Forall₂ R l m)
    (hstep : ∀ a b, R a b → Matches S (f a) (g b)) :
    Matches (Forall₂ S) (Checked.each l f) (Checked.each m g) := by
  refine ⟨?_, (Matches.each (unordered_of_forall₂ h) hstep).faults⟩
  rw [value_each, value_each]
  refine rel_map ?_ h
  intro a b hab
  exact (hstep a b hab).value

end Checked

end StructQL
