import Mathlib.Data.List.Forall2
import StructQL.Table

/-!
# Looking up by name

* `Table.find?_erase`: what is left in a table after a name is erased.
* `Table.flatMap_of_name`: what is made of the things of one name.
* `Table.find?_eq_of_perm`: in another order the same things are found.
* `Table.toList_ofFirsts`: things without namesakes make a table as they are.
* `Table.Related`: the things of two tables are related, in order and with the same names.
* `Table.Related.find?`: **related tables have related things under each name.**
* `Table.related_ofFirsts`: tables of related things are related.
-/

namespace StructQL.Table

open List

variable {α β : Type} [Named α] [Named β] {t : Table α} {name other : Name}

theorem nameOf_of_find? {a : α} (h : t.find? name = some a) : Named.nameOf a = name := by
  simpa using List.find?_some h

/-- Things of one table are told apart by their names. -/
theorem eq_of_nameOf_eq {a b : α} (ha : a ∈ t.toList) (hb : b ∈ t.toList)
    (h : Named.nameOf a = Named.nameOf b) : a = b := by
  have hfound := find?_of_mem ha
  rw [h, find?_of_mem hb] at hfound
  exact (Option.some.inj hfound).symm

theorem find?_erase : (t.erase other).find? name = if name = other then none else t.find? name := by
  unfold find? erase
  rw [List.find?_filter]
  split
  · rename_i h
    subst h
    simp
  · rename_i h
    congr 1
    funext a
    by_cases ha : Named.nameOf a = name
    · simp [ha, h]
    · simp [ha]

theorem find?_of_erase {a : α} (h : (t.erase other).find? name = some a) :
    t.find? name = some a := by
  rw [find?_erase] at h
  split at h
  · cases h
  · exact h

/-- What is made of the things of one name is made of the one that there is. -/
theorem flatMap_of_name {γ : Type} (t : Table α) (name : Name) (f : α → List γ) :
    (t.toList.flatMap fun a => if Named.nameOf a = name then f a else []) =
      (t.find? name).elim [] f := by
  obtain ⟨l, hnd⟩ := t
  dsimp only [find?]
  induction l with
  | nil => rfl
  | cons a rest ih =>
    rw [List.map_cons, List.nodup_cons] at hnd
    rw [List.flatMap_cons]
    by_cases ha : Named.nameOf a = name
    · have hrest : (rest.flatMap fun b => if Named.nameOf b = name then f b else []) = [] := by
        rw [List.flatMap_eq_nil_iff]
        intro b hb
        refine if_neg ?_
        rintro rfl
        exact hnd.1 (ha ▸ List.mem_map_of_mem hb)
      rw [if_pos ha, hrest, List.append_nil, List.find?_cons_of_pos (by simpa using ha)]
      rfl
    · rw [if_neg ha, List.nil_append, List.find?_cons_of_neg (by simpa using ha)]
      exact ih hnd.2

/-! ## Another order -/

theorem find?_eq_some_iff {a : α} :
    t.find? name = some a ↔ a ∈ t.toList ∧ Named.nameOf a = name := by
  constructor
  · intro h
    exact ⟨List.mem_of_find?_eq_some h, nameOf_of_find? h⟩
  · rintro ⟨hmem, rfl⟩
    exact find?_of_mem hmem

/-- **In another order the same things are found.** -/
theorem find?_eq_of_perm {u : Table α} (h : t.toList.Perm u.toList) (name : Name) :
    t.find? name = u.find? name := by
  refine Option.ext fun a => ?_
  rw [find?_eq_some_iff, find?_eq_some_iff, h.mem_iff]

/-! ## Things without namesakes -/

theorem contains_iff : t.contains name = true ↔ ∃ a ∈ t.toList, Named.nameOf a = name := by
  simp [Table.contains, Table.names]

theorem contains_addNew {a : α} :
    (t.addNew a).contains name = true ↔ t.contains name = true ∨ name = Named.nameOf a := by
  unfold addNew
  by_cases h : t.contains (Named.nameOf a) = true
  · rw [dif_pos h]
    constructor
    · exact .inl
    · rintro (hname | rfl)
      · exact hname
      · exact h
  · rw [dif_neg h, contains, names, List.contains_iff_mem, List.map_append, List.mem_append,
      List.map_singleton, List.mem_singleton]
    simp [contains, names]

theorem toList_addNew {a : α} (h : ∀ b ∈ t.toList, Named.nameOf b ≠ Named.nameOf a) :
    (t.addNew a).toList = t.toList ++ [a] := by
  have hnot : ¬ t.contains (Named.nameOf a) = true := fun hc => by
    obtain ⟨b, hb, heq⟩ := contains_iff.1 hc
    exact h b hb heq
  rw [addNew, dif_neg hnot]

/-- **Things without namesakes make a table as they are.** -/
theorem toList_ofFirsts {l : List α} (h : (l.map Named.nameOf).Nodup) : (ofFirsts l).toList = l := by
  suffices hfold : ∀ t : Table α, ((t.toList ++ l).map Named.nameOf).Nodup →
      (l.foldl addNew t).toList = t.toList ++ l from hfold empty h
  clear h
  induction l with
  | nil => simp
  | cons a l ih =>
    intro t ht
    have hnew : ∀ b ∈ t.toList, Named.nameOf b ≠ Named.nameOf a := fun b hb heq => by
      rw [List.map_append, List.nodup_append] at ht
      exact ht.2.2 _ (List.mem_map_of_mem hb) _ (by simp) heq
    have htoList := toList_addNew hnew
    rw [List.foldl_cons, ih, htoList, List.append_assoc, List.singleton_append]
    rwa [htoList, List.append_assoc, List.singleton_append]

/-! ## Related tables -/

variable {R : α → β → Prop}

/-- **The things of two tables are related**, in order and with the same names. -/
structure Related (R : α → β → Prop) (t : Table α) (u : Table β) : Prop where
  items : Forall₂ R t.toList u.toList
  nameOf : ∀ a b, R a b → Named.nameOf a = Named.nameOf b

variable {u : Table β}

theorem Related.names (h : Related R t u) : t.names = u.names := by
  unfold Table.names
  rw [← forall₂_eq_eq_eq, forall₂_map_left_iff, forall₂_map_right_iff]
  exact h.items.imp fun _ _ hab => h.nameOf _ _ hab

theorem Related.contains (h : Related R t u) (name : Name) : t.contains name = u.contains name := by
  unfold Table.contains
  rw [h.names]

/-- **Related tables have related things under each name.** -/
theorem Related.find? (h : Related R t u) (name : Name) :
    Option.Rel R (t.find? name) (u.find? name) := by
  obtain ⟨hitems, hname⟩ := h
  unfold Table.find?
  generalize t.toList = l, u.toList = m at hitems ⊢
  induction hitems with
  | nil => exact .none
  | @cons a b l m hab _ ih =>
    rw [List.find?_cons, List.find?_cons, hname a b hab]
    cases decide (Named.nameOf b = name) with
    | true => exact .some hab
    | false => exact ih

theorem Related.find?_eq_none_iff (h : Related R t u) :
    t.find? name = none ↔ u.find? name = none := by
  have hrel := h.find? name
  generalize t.find? name = first, u.find? name = second at hrel ⊢
  cases hrel <;> simp

theorem Related.exists_find?_right (h : Related R t u) {a : α} (ha : t.find? name = some a) :
    ∃ b, u.find? name = some b ∧ R a b := by
  have hrel := h.find? name
  rw [ha] at hrel
  generalize u.find? name = second at hrel ⊢
  cases hrel with
  | some hab => exact ⟨_, rfl, hab⟩

theorem Related.exists_find?_left (h : Related R t u) {b : β} (hb : u.find? name = some b) :
    ∃ a, t.find? name = some a ∧ R a b := by
  have hrel := h.find? name
  rw [hb] at hrel
  generalize t.find? name = first at hrel ⊢
  cases hrel with
  | some hab => exact ⟨_, rfl, hab⟩

theorem Related.erase (h : Related R t u) (name : Name) : Related R (t.erase name) (u.erase name) := by
  refine ⟨rel_filter ?_ h.items, h.nameOf⟩
  intro a b hab
  dsimp only
  rw [h.nameOf a b hab]

theorem Related.addNew (h : Related R t u) {a : α} {b : β} (hab : R a b) :
    Related R (t.addNew a) (u.addNew b) := by
  have hcontains : t.contains (Named.nameOf a) = u.contains (Named.nameOf b) := by
    rw [h.contains, h.nameOf a b hab]
  unfold Table.addNew
  by_cases hc : u.contains (Named.nameOf b) = true
  · rw [dif_pos hc, dif_pos (hcontains.trans hc)]
    exact h
  · rw [dif_neg hc, dif_neg (hcontains ▸ hc)]
    exact ⟨rel_append h.items (.cons hab .nil), h.nameOf⟩

/-- **Tables of related things are related.** -/
theorem related_ofFirsts {l : List α} {m : List β} (h : Forall₂ R l m)
    (hname : ∀ a b, R a b → Named.nameOf a = Named.nameOf b) :
    Related R (ofFirsts l) (ofFirsts m) := by
  refine rel_foldl (R := R) (P := Related R) ?_ ⟨.nil, hname⟩ h
  intro t u htu a b hab
  exact htu.addNew hab

end StructQL.Table
