import Mathlib.Data.List.Forall2
import Mathlib.Data.List.Induction
import Mathlib.Data.List.Nodup
import StructQL.Pairs

/-!
# Grouping by key

* `Pairs.mem_group`: a group holds all values of its key, in order.
* `Pairs.nodup_group`: no key has two groups.
* `Pairs.group_of_key`, `Pairs.group_of_nodup`: the groups where there is one key, or no key twice.
* `Pairs.rel_group`: related values are gathered in related groups.
-/

namespace StructQL.Pairs

variable {κ α : Type} [DecidableEq κ]

theorem lookup_of_mem {l : List (κ × α)} (hnd : (l.map Prod.fst).Nodup) {key : κ} {value : α}
    (h : (key, value) ∈ l) : l.lookup key = some value := by
  induction l with
  | nil => cases h
  | cons p rest ih =>
    rw [List.map_cons, List.nodup_cons] at hnd
    rcases List.mem_cons.1 h with rfl | h
    · exact List.lookup_cons_self
    · have hne : key ≠ p.1 := fun he => hnd.1 (he ▸ List.mem_map.2 ⟨_, h, rfl⟩)
      rw [List.lookup_cons, beq_eq_false_iff_ne.2 hne]
      exact ih hnd.2 h

/-- What is made of the pairs of one key is made of its only pair. -/
theorem flatMap_of_key {β : Type} {l : List (κ × α)} (hnd : (l.map Prod.fst).Nodup) {key : κ} {value : α}
    (h : (key, value) ∈ l) (f : κ × α → List β) :
    (l.flatMap fun p => if p.1 = key then f p else []) = f (key, value) := by
  induction l with
  | nil => cases h
  | cons p rest ih =>
    rw [List.map_cons, List.nodup_cons] at hnd
    rw [List.flatMap_cons]
    rcases List.mem_cons.1 h with rfl | h
    · have hrest : (rest.flatMap fun p => if p.1 = key then f p else []) = [] := by
        rw [List.flatMap_eq_nil_iff]
        intro p hp
        refine if_neg ?_
        rintro rfl
        exact hnd.1 (List.mem_map.2 ⟨_, hp, rfl⟩)
      rw [if_pos rfl, hrest, List.append_nil]
    · have hne : p.1 ≠ key := fun he => hnd.1 (he ▸ List.mem_map.2 ⟨_, h, rfl⟩)
      rw [if_neg hne, List.nil_append]
      exact ih hnd.2 h

theorem map_fst_addTo (key : κ) (value : α) (groups : List (κ × List α)) :
    (addTo key value groups).map Prod.fst =
      if key ∈ groups.map Prod.fst then groups.map Prod.fst
      else groups.map Prod.fst ++ [key] := by
  induction groups with
  | nil => rfl
  | cons p rest ih =>
    obtain ⟨k, group⟩ := p
    rw [addTo]
    by_cases h : k = key
    · simp [h]
    · rw [if_neg h, List.map_cons, ih]
      by_cases hm : key ∈ rest.map Prod.fst <;> simp [hm, Ne.symm h]

theorem mem_addTo {key other : κ} {value : α} {group : List α} {groups : List (κ × List α)}
    (hnd : (groups.map Prod.fst).Nodup) :
    (other, group) ∈ addTo key value groups ↔
      other ≠ key ∧ (other, group) ∈ groups ∨
        other = key ∧ group = (groups.lookup key).getD [] ++ [value] := by
  induction groups with
  | nil => simp [addTo]
  | cons p rest ih =>
    obtain ⟨k, first⟩ := p
    rw [List.map_cons, List.nodup_cons] at hnd
    rw [addTo]
    by_cases h : k = key
    · subst h
      have hout : ∀ g, (k, g) ∉ rest := fun g hg => hnd.1 (List.mem_map.2 ⟨_, hg, rfl⟩)
      rw [if_pos rfl, List.lookup_cons_self, List.mem_cons, List.mem_cons]
      by_cases ho : other = k
      · subst ho
        simp [hout]
      · simp [ho]
    · rw [if_neg h, List.mem_cons, List.mem_cons, ih hnd.2, List.lookup_cons,
        beq_eq_false_iff_ne.2 (Ne.symm h)]
      by_cases ho : other = key
      · subst ho
        simp [Ne.symm h]
      · simp [ho]

theorem group_concat (l : List (κ × α)) (p : κ × α) :
    group (l ++ [p]) = addTo p.1 p.2 (group l) := by
  simp [group]

/-- Values of one key are one group. -/
theorem group_of_key (key : κ) {l : List α} (hne : l ≠ []) :
    group (l.map fun value => (key, value)) = [(key, l)] := by
  induction l using List.reverseRecOn with
  | nil => exact absurd rfl hne
  | append_singleton l value ih =>
    rw [List.map_append, List.map_singleton, group_concat]
    by_cases h : l = []
    · subst h
      rfl
    · rw [ih h, addTo, if_pos rfl]

theorem addTo_of_not_mem {key : κ} {groups : List (κ × List α)} (h : key ∉ groups.map Prod.fst)
    (value : α) : addTo key value groups = groups ++ [(key, [value])] := by
  induction groups with
  | nil => rfl
  | cons p rest ih =>
    obtain ⟨k, group⟩ := p
    rw [List.map_cons, List.mem_cons, not_or] at h
    rw [addTo, if_neg (Ne.symm h.1), ih h.2, List.cons_append]

/-- Values of different keys are groups of their own. -/
theorem group_of_nodup {l : List (κ × α)} (hnd : (l.map Prod.fst).Nodup) :
    group l = l.map fun p => (p.1, [p.2]) := by
  induction l using List.reverseRecOn with
  | nil => rfl
  | append_singleton l p ih =>
    rw [List.map_append, List.map_singleton] at hnd
    have hl := ih hnd.of_append_left
    have hnew : p.1 ∉ (group l).map Prod.fst := by
      rw [hl, List.map_map]
      intro hmem
      exact List.disjoint_of_nodup_append hnd hmem (List.mem_singleton_self _)
    rw [group_concat, addTo_of_not_mem hnew, hl, List.map_append, List.map_singleton]

/-- **No key has two groups.** -/
theorem nodup_group (l : List (κ × α)) : ((group l).map Prod.fst).Nodup := by
  induction l using List.reverseRecOn with
  | nil => exact List.nodup_nil
  | append_singleton l p ih =>
    rw [group_concat, map_fst_addTo]
    split
    · exact ih
    · -- a new group is added only for a key without one
      rename_i hnew
      rw [← List.concat_eq_append]
      exact ih.concat hnew

/-- **A group holds all values of its key**, in order. -/
theorem mem_group {l : List (κ × α)} {key : κ} {values : List α} :
    (key, values) ∈ group l ↔
      values ≠ [] ∧ values = (l.filter fun p => p.1 = key).map Prod.snd := by
  induction l using List.reverseRecOn generalizing key values with
  | nil => simp [group]
  | append_singleton l p ih =>
    obtain ⟨k, value⟩ := p
    rw [group_concat, mem_addTo (nodup_group l)]
    by_cases h : key = k
    · subst h
      -- the group so far, which is empty if the key is new
      have hlookup : ((group l).lookup key).getD [] =
          (l.filter fun p => p.1 = key).map Prod.snd := by
        cases hl : (group l).lookup key with
        | some values => exact (ih.1 (mem_of_lookup hl)).2
        | none =>
          by_contra hne
          have hmem : (key, (l.filter fun p => p.1 = key).map Prod.snd) ∈ group l :=
            ih.2 ⟨fun he => hne he.symm, rfl⟩
          rw [lookup_of_mem (nodup_group l) hmem] at hl
          cases hl
      rw [hlookup, List.filter_append, List.map_append]
      simp only [ne_eq, not_true_eq_false, false_and, true_and, false_or]
      constructor
      · rintro rfl
        simp
      · rintro ⟨-, rfl⟩
        simp
    · rw [List.filter_append, List.map_append, ih]
      simp [h, Ne.symm h]

theorem mem_values {l : List (κ × α)} {key : κ} {values : List α}
    (h : (key, values) ∈ group l) {value : α} : value ∈ values ↔ (key, value) ∈ l := by
  rw [(mem_group.1 h).2]
  simp

theorem exists_group {l : List (κ × α)} {key : κ} {value : α} (h : (key, value) ∈ l) :
    ∃ values, (key, values) ∈ group l := by
  refine ⟨_, mem_group.2 ⟨List.ne_nil_of_mem (a := value) ?_, rfl⟩⟩
  exact List.mem_map.2 ⟨(key, value), List.mem_filter.2 ⟨h, by simp⟩, rfl⟩

/-! ## Related values -/

variable {β : Type} {R : α → β → Prop}

/-- Pairs with the same key, and with related values. -/
def SameKey (R : α → β → Prop) (p : κ × α) (q : κ × β) : Prop := p.1 = q.1 ∧ R p.2 q.2

theorem rel_addTo {key : κ} {a : α} {b : β} (hab : R a b) {groups : List (κ × List α)}
    {others : List (κ × List β)}
    (h : List.Forall₂ (SameKey (List.Forall₂ R)) groups others) :
    List.Forall₂ (SameKey (List.Forall₂ R)) (addTo key a groups) (addTo key b others) := by
  induction h with
  | nil => exact .cons ⟨rfl, .cons hab .nil⟩ .nil
  | @cons p q groups others hpq hrest ih =>
    obtain ⟨k, values⟩ := p
    obtain ⟨_, values'⟩ := q
    obtain ⟨rfl, hvalues⟩ := hpq
    rw [addTo, addTo]
    by_cases hk : k = key
    · rw [if_pos hk, if_pos hk]
      exact .cons ⟨rfl, List.rel_append hvalues (.cons hab .nil)⟩ hrest
    · rw [if_neg hk, if_neg hk]
      exact .cons ⟨rfl, hvalues⟩ ih

/-- **Related values are gathered in related groups**, by the same keys in the same order. -/
theorem rel_group {l : List (κ × α)} {m : List (κ × β)} (h : List.Forall₂ (SameKey R) l m) :
    List.Forall₂ (SameKey (List.Forall₂ R)) (group l) (group m) := by
  refine List.rel_foldl ?_ .nil h
  rintro groups others hgroups ⟨key, a⟩ ⟨_, b⟩ ⟨rfl, hab⟩
  exact rel_addTo hab hgroups

end StructQL.Pairs
