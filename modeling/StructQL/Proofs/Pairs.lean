import StructQL.Proofs.Grouping

/-!
# Looking up by key

* `Pairs.lookup_put`, `Pairs.lookup_ofList`: a key is found with the value that was put last.
* `Pairs.map_fst_ofList_cons`: keys come in the order in which they were put first.
* `Pairs.mem_ofList`: nothing is found but what was put.
-/

namespace StructQL.Pairs

variable {κ α : Type} [DecidableEq κ] {key : κ} {value : α} {l : List (κ × α)}

/-- Where keys are distinct, a key has one value only. -/
theorem eq_of_mem {other : α} (hnd : (l.map Prod.fst).Nodup) (h : (key, value) ∈ l)
    (h' : (key, other) ∈ l) : value = other :=
  Option.some.inj ((lookup_of_mem hnd h).symm.trans (lookup_of_mem hnd h'))

theorem lookup_eq_none_iff : l.lookup key = none ↔ key ∉ l.map Prod.fst := by
  rw [List.lookup_eq_none_iff, List.mem_map]
  constructor
  · rintro h ⟨p, hp, rfl⟩
    simpa using h p hp
  · intro h p hp
    exact bne_iff_ne.2 fun he => h ⟨p, hp, he.symm⟩

theorem map_fst_put (l : List (κ × α)) :
    (put key value l).map Prod.fst =
      if key ∈ l.map Prod.fst then l.map Prod.fst else l.map Prod.fst ++ [key] := by
  induction l with
  | nil => rfl
  | cons p rest ih =>
    obtain ⟨k, v⟩ := p
    rw [put]
    by_cases h : k = key
    · simp [h]
    · rw [if_neg h, List.map_cons, ih]
      by_cases hm : key ∈ rest.map Prod.fst <;> simp [hm, Ne.symm h]

theorem lookup_put (other : κ) (l : List (κ × α)) :
    (put key value l).lookup other = if other = key then some value else l.lookup other := by
  induction l with
  | nil =>
    rw [put, List.lookup_cons]
    by_cases h : other = key
    · simp [h]
    · rw [beq_eq_false_iff_ne.2 h, if_neg h]
  | cons p rest ih =>
    obtain ⟨k, v⟩ := p
    rw [put]
    by_cases hk : k = key
    · subst hk
      rw [if_pos rfl, List.lookup_cons, List.lookup_cons]
      by_cases h : other = k
      · simp [h]
      · rw [beq_eq_false_iff_ne.2 h, if_neg h]
    · rw [if_neg hk, List.lookup_cons, List.lookup_cons, ih]
      by_cases h : other = k
      · subst h
        simp [hk]
      · rw [beq_eq_false_iff_ne.2 h]

/-- Putting the value that a key has changes nothing. -/
theorem put_of_lookup (h : l.lookup key = some value) : put key value l = l := by
  induction l with
  | nil => cases h
  | cons p rest ih =>
    obtain ⟨k, v⟩ := p
    rw [List.lookup_cons] at h
    rw [put]
    by_cases hk : k = key
    · subst hk
      obtain rfl : v = value := by simpa using h
      rw [if_pos rfl]
    · rw [beq_eq_false_iff_ne.2 (Ne.symm hk)] at h
      rw [if_neg hk, ih h]

theorem lookup_foldl_put (l all : List (κ × α)) :
    (l.foldl (fun all p => put p.1 p.2 all) all).lookup key =
      (l.reverse.lookup key).or (all.lookup key) := by
  induction l generalizing all with
  | nil => rfl
  | cons p rest ih =>
    rw [List.foldl_cons, ih, lookup_put, List.reverse_cons, List.lookup_append, Option.or_assoc]
    congr 1
    rw [List.lookup_cons, List.lookup_nil]
    by_cases h : key = p.1
    · simp [h]
    · rw [if_neg h, beq_eq_false_iff_ne.2 h]
      rfl

/-- **A key is found with the value that was put last.** -/
theorem lookup_ofList (l : List (κ × α)) : (ofList l).lookup key = l.reverse.lookup key := by
  rw [ofList, lookup_foldl_put]
  simp

/-- New keys go to the end, in their order. -/
theorem map_fst_foldl_put (hnd : (l.map Prod.fst).Nodup) (all : List (κ × α)) :
    (l.foldl (fun all p => put p.1 p.2 all) all).map Prod.fst =
      all.map Prod.fst ++ (l.map Prod.fst).filter fun k => k ∉ all.map Prod.fst := by
  induction l generalizing all with
  | nil => simp
  | cons p rest ih =>
    rw [List.map_cons, List.nodup_cons] at hnd
    rw [List.foldl_cons, ih hnd.2, map_fst_put, List.map_cons]
    by_cases h : p.1 ∈ all.map Prod.fst
    · rw [if_pos h, List.filter_cons_of_neg (by simpa using h)]
    · have hrest : ((rest.map Prod.fst).filter fun k => k ∉ all.map Prod.fst ++ [p.1]) =
          (rest.map Prod.fst).filter fun k => k ∉ all.map Prod.fst := by
        refine List.filter_congr fun k hk => ?_
        have hne : k ≠ p.1 := fun he => hnd.1 (he ▸ hk)
        simp [hne]
      rw [if_neg h, hrest, List.filter_cons_of_pos (by simpa using h), List.append_assoc,
        List.singleton_append]

/-- **A first key comes first**, and the others in their order. -/
theorem map_fst_ofList_cons (hnd : (l.map Prod.fst).Nodup) :
    (ofList ((key, value) :: l)).map Prod.fst = key :: (l.map Prod.fst).filter fun k => k ≠ key := by
  rw [ofList, List.foldl_cons, map_fst_foldl_put hnd]
  simp [put]

theorem mem_put {p : κ × α} (h : p ∈ put key value l) : p = (key, value) ∨ p ∈ l := by
  induction l with
  | nil => exact .inl (List.mem_singleton.1 h)
  | cons q rest ih =>
    obtain ⟨k, v⟩ := q
    rw [put] at h
    split at h
    · rename_i hk
      subst hk
      exact (List.mem_cons.1 h).imp_right (List.mem_cons_of_mem _)
    · rcases List.mem_cons.1 h with rfl | h
      · exact .inr List.mem_cons_self
      · exact (ih h).imp_right (List.mem_cons_of_mem _)

/-- **Nothing is found but what was put.** -/
theorem mem_ofList {p : κ × α} (h : p ∈ ofList l) : p ∈ l := by
  have hfold : ∀ l all : List (κ × α),
      p ∈ l.foldl (fun all p => put p.1 p.2 all) all → p ∈ all ∨ p ∈ l := by
    intro l
    induction l with
    | nil => intro all h; exact .inl h
    | cons q rest ih =>
      intro all h
      rcases ih _ h with h | h
      · rcases mem_put h with rfl | h
        · exact .inr List.mem_cons_self
        · exact .inl h
      · exact .inr (List.mem_cons_of_mem _ h)
  simpa using hfold l [] h

end StructQL.Pairs
