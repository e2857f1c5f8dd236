import StructQL.Proofs.Pairs
import StructQL.Selection.Merge

/-!
# Merging key by key

Fields and members are taken in by one walk through their pairs. What comes out is said key by key.

* `absorbPairs`: the walk, for values of any kind. Fields and members are absorbed by it.
* `faults_absorbPairs_iff`: it succeeds if the values of every shared key merge.
* `mem_absorbPairs`: **a shared key has both values merged, and another key has its value.**
* `sameSet_iff`, `sameMembers_iff`: selections are the same if they are so key by key.
-/

namespace StructQL.Selection

section

variable {α : Type} {l m : List (Name × α)} {name : Name} {f : α → α → Absorbed α}

/-- **Pairs taken into others, key by key**, up to the first fault. -/
def absorbPairs (f : α → α → Absorbed α) :
    List (Name × α) → List (Name × α) → Absorbed (List (Name × α))
  | l, [] => (l, none)
  | l, (name, s) :: rest =>
    match l.lookup name with
    | none => absorbPairs f (l ++ [(name, s)]) rest
    | some old =>
      match f old s with
      | (new, none) => absorbPairs f (Pairs.put name new l) rest
      | (new, some fault) => (Pairs.put name new l, some fault)

/-- **A value is taken in under a name**: into the value that is there, or as a new one at the end. -/
structure TakesIn (f : α → α → Absorbed α) (name : Name) (s : α) (l l' : List (Name × α)) :
    Prop where
  keys : l'.map Prod.fst =
    if name ∈ l.map Prod.fst then l.map Prod.fst else l.map Prod.fst ++ [name]
  lookup : ∀ key, l'.lookup key =
    if key = name then some (((l.lookup name).map fun old => (f old s).1).getD s)
    else l.lookup key

/-- **The first step of the walk**, which goes on with what the step leaves or stops there. -/
theorem absorbPairs_step (l rest : List (Name × α)) (name : Name) (s : α) :
    ∃ l', (absorbPairs f l ((name, s) :: rest) =
        match (l.lookup name).bind fun old => (f old s).2 with
        | none => absorbPairs f l' rest
        | some fault => (l', some fault)) ∧
      TakesIn f name s l l' := by
  rw [absorbPairs]
  cases hl : l.lookup name with
  | none =>
    refine ⟨l ++ [(name, s)], rfl, ?_, fun key => ?_⟩
    · rw [if_neg (Pairs.lookup_eq_none_iff.1 hl), List.map_append]
      rfl
    · rw [List.lookup_append, List.lookup_cons, List.lookup_nil]
      by_cases hk : key = name
      · subst hk
        rw [hl, if_pos rfl]
        simp
      · rw [if_neg hk, beq_eq_false_iff_ne.2 hk, Option.or_none]
  | some old =>
    rcases hf : f old s with ⟨new, fault⟩
    refine ⟨Pairs.put name new l, ?_, Pairs.map_fst_put l, fun key => ?_⟩
    · cases fault <;> simp [hf]
    · rw [Pairs.lookup_put, hl]
      simp [hf]

/-- What the first step of the walk has when it goes on. -/
theorem absorbPairs_cons {s : α} (rest : List (Name × α))
    (h : ∀ old, l.lookup name = some old → (f old s).2 = none) :
    ∃ l', absorbPairs f l ((name, s) :: rest) = absorbPairs f l' rest ∧
      TakesIn f name s l l' := by
  obtain ⟨l', hl', htakes⟩ := absorbPairs_step (f := f) l rest name s
  have hnone : ((l.lookup name).bind fun old => (f old s).2) = none :=
    Option.bind_eq_none_iff.2 h
  rw [hnone] at hl'
  exact ⟨l', hl', htakes⟩

/-- **The walk succeeds if the values of every shared key merge**, and only then. -/
theorem faults_absorbPairs_iff (hm : (m.map Prod.fst).Nodup) :
    (absorbPairs f l m).2 = none ↔
      ∀ key a b, l.lookup key = some a → m.lookup key = some b → (f a b).2 = none := by
  induction m generalizing l with
  | nil => simp [absorbPairs]
  | cons p rest ih =>
    obtain ⟨name, s⟩ := p
    rw [List.map_cons, List.nodup_cons] at hm
    have hrest : rest.lookup name = none := Pairs.lookup_eq_none_iff.2 hm.1
    by_cases h : ∀ old, l.lookup name = some old → (f old s).2 = none
    · -- the step leaves all keys of the rest as they are
      obtain ⟨l', hl', -, hlookup⟩ := absorbPairs_cons rest h
      rw [hl', ih hm.2]
      refine forall_congr' fun key => ?_
      rw [hlookup, List.lookup_cons]
      by_cases hk : key = name
      · subst hk
        rw [hrest]
        simp only [beq_self_eq_true, if_true]
        exact ⟨fun _ a b ha hb => Option.some.inj hb ▸ h a ha, nofun⟩
      · rw [if_neg hk, beq_eq_false_iff_ne.2 hk]
    · obtain ⟨old, hold⟩ := not_forall.1 h
      obtain ⟨hold, hfault⟩ := Classical.not_imp.1 hold
      refine iff_of_false ?_ fun hall => hfault (hall name old s hold List.lookup_cons_self)
      rw [absorbPairs, hold]
      rcases hf : f old s with ⟨new, fault⟩
      cases fault with
      | none => simp [hf] at hfault
      | some fault => simp [hf]

/-- Pairs that bring nothing new leave all as it is. -/
theorem absorbPairs_eq_self
    (h : ∀ name t, (name, t) ∈ m → ∃ s, l.lookup name = some s ∧ f s t = (s, none)) :
    absorbPairs f l m = (l, none) := by
  induction m with
  | nil => rw [absorbPairs]
  | cons p rest ih =>
    obtain ⟨name, t⟩ := p
    obtain ⟨s, hs, hf⟩ := h name t List.mem_cons_self
    simp only [absorbPairs, hs, hf, Pairs.put_of_lookup hs]
    exact ih fun other u hu => h other u (List.mem_cons_of_mem _ hu)

/-! ### However far the walk comes -/

theorem nodup_absorbPairs (hl : (l.map Prod.fst).Nodup) (m : List (Name × α)) :
    ((absorbPairs f l m).1.map Prod.fst).Nodup := by
  induction m generalizing l with
  | nil => simpa [absorbPairs] using hl
  | cons p rest ih =>
    obtain ⟨name, s⟩ := p
    obtain ⟨l', hstep, hkeys, -⟩ := absorbPairs_step (f := f) l rest name s
    have hl' : (l'.map Prod.fst).Nodup := by
      rw [hkeys]
      split
      · exact hl
      · rename_i hname
        exact List.nodup_append.2 ⟨hl, List.nodup_singleton name, fun other hother key hkey he =>
          hname (List.mem_singleton.1 hkey ▸ he ▸ hother)⟩
    rw [hstep]
    cases (l.lookup name).bind fun old => (f old s).2 with
    | none => exact ih hl'
    | some fault => exact hl'

theorem keys_subset_absorbPairs (l m : List (Name × α)) :
    l.map Prod.fst ⊆ (absorbPairs f l m).1.map Prod.fst := by
  induction m generalizing l with
  | nil => simp [absorbPairs]
  | cons p rest ih =>
    obtain ⟨name, s⟩ := p
    obtain ⟨l', hstep, hkeys, -⟩ := absorbPairs_step (f := f) l rest name s
    have hl' : l.map Prod.fst ⊆ l'.map Prod.fst := by
      rw [hkeys]
      split <;> simp
    rw [hstep]
    cases (l.lookup name).bind fun old => (f old s).2 with
    | none => exact List.Subset.trans hl' (ih l')
    | some fault => exact hl'

/-- **What is found of a key** is the value of either side, or both values taken together. -/
theorem lookup_absorbPairs_cases (hm : (m.map Prod.fst).Nodup) {value : α}
    (h : (absorbPairs f l m).1.lookup name = some value) :
    l.lookup name = some value ∨ (l.lookup name = none ∧ m.lookup name = some value) ∨
      ∃ s t, l.lookup name = some s ∧ m.lookup name = some t ∧ value = (f s t).1 := by
  induction m generalizing l with
  | nil => exact .inl (by simpa [absorbPairs] using h)
  | cons p rest ih =>
    obtain ⟨key, t⟩ := p
    rw [List.map_cons, List.nodup_cons] at hm
    obtain ⟨l', hstep, -, hlookup⟩ := absorbPairs_step (f := f) l rest key t
    -- the rest has nothing for the key of this step, and the step leaves other keys as they are
    have hrest : rest.lookup key = none := Pairs.lookup_eq_none_iff.2 hm.1
    have hleft : l'.lookup name = some value ∨ (l'.lookup name = none ∧ rest.lookup name = some value) ∨
        ∃ s t, l'.lookup name = some s ∧ rest.lookup name = some t ∧ value = (f s t).1 := by
      rw [hstep] at h
      cases hfault : (l.lookup key).bind fun old => (f old t).2 with
      | none =>
        rw [hfault] at h
        exact ih hm.2 h
      | some fault =>
        rw [hfault] at h
        exact .inl h
    rw [hlookup] at hleft
    rw [List.lookup_cons]
    by_cases hk : name = key
    · subst hk
      rw [if_pos rfl, hrest] at hleft
      have hvalue : ((l.lookup name).map fun old => (f old t).1).getD t = value := by
        simpa using hleft
      cases hl : l.lookup name with
      | none =>
        refine .inr (.inl ⟨rfl, ?_⟩)
        simpa [hl] using hvalue
      | some old =>
        refine .inr (.inr ⟨old, t, rfl, by simp, ?_⟩)
        simpa [hl] using hvalue.symm
    · rw [if_neg hk] at hleft
      rw [beq_eq_false_iff_ne.2 hk]
      exact hleft

/-! ### All the way -/

/-- The keys that are there stay in front, and the new ones follow in order. -/
theorem map_fst_absorbPairs (hm : (m.map Prod.fst).Nodup) (h : (absorbPairs f l m).2 = none) :
    (absorbPairs f l m).1.map Prod.fst =
      l.map Prod.fst ++ (m.map Prod.fst).filter (· ∉ l.map Prod.fst) := by
  have hmerge := (faults_absorbPairs_iff hm).1 h
  induction m generalizing l with
  | nil => simp [absorbPairs]
  | cons p rest ih =>
    obtain ⟨name, s⟩ := p
    rw [List.map_cons, List.nodup_cons] at hm
    obtain ⟨l', hl', hkeys, -⟩ := absorbPairs_cons rest fun old hold =>
      hmerge name old s hold List.lookup_cons_self
    rw [hl'] at h ⊢
    rw [ih hm.2 h ((faults_absorbPairs_iff hm.2).1 h)]
    by_cases hname : name ∈ l.map Prod.fst
    · rw [if_pos hname] at hkeys
      rw [hkeys, List.map_cons, List.filter_cons_of_neg (by simpa using hname)]
    · -- the name is new, and does not come again
      have hfilter : (rest.map Prod.fst).filter (· ∉ l.map Prod.fst ++ [name]) =
          (rest.map Prod.fst).filter (· ∉ l.map Prod.fst) :=
        List.filter_congr fun key hkey => by
          have hne : key ≠ name := fun he => hm.1 (he ▸ hkey)
          simp [hne]
      rw [if_neg hname] at hkeys
      rw [hkeys, hfilter, List.map_cons, List.filter_cons_of_pos (by simpa using hname),
        List.append_assoc, List.singleton_append]

/-- **A shared key is found with both values merged, and another key with its value.** -/
theorem lookup_absorbPairs (hm : (m.map Prod.fst).Nodup) (h : (absorbPairs f l m).2 = none)
    (key : Name) :
    (absorbPairs f l m).1.lookup key =
      Option.merge (fun a b => (f a b).1) (l.lookup key) (m.lookup key) := by
  have hmerge := (faults_absorbPairs_iff hm).1 h
  induction m generalizing l with
  | nil => cases hl : l.lookup key <;> simp [absorbPairs, hl]
  | cons p rest ih =>
    obtain ⟨name, s⟩ := p
    rw [List.map_cons, List.nodup_cons] at hm
    obtain ⟨l', hl', -, hlookup⟩ := absorbPairs_cons rest fun old hold =>
      hmerge name old s hold List.lookup_cons_self
    rw [hl'] at h ⊢
    rw [ih hm.2 h ((faults_absorbPairs_iff hm.2).1 h), hlookup, List.lookup_cons]
    by_cases hk : key = name
    · subst hk
      rw [Pairs.lookup_eq_none_iff.2 hm.1]
      cases hl : l.lookup key <;> simp
    · rw [if_neg hk, beq_eq_false_iff_ne.2 hk]

theorem mem_keys_absorbPairs (hm : (m.map Prod.fst).Nodup) (h : (absorbPairs f l m).2 = none) :
    name ∈ (absorbPairs f l m).1.map Prod.fst ↔ name ∈ l.map Prod.fst ∨ name ∈ m.map Prod.fst := by
  rw [map_fst_absorbPairs hm h, List.mem_append, List.mem_filter]
  by_cases hl : name ∈ l.map Prod.fst <;> simp [hl]

/-- **Each pair that comes out** has both values of a shared key merged, or the value of a key that
is not shared. -/
theorem mem_absorbPairs (hl : (l.map Prod.fst).Nodup) (hm : (m.map Prod.fst).Nodup)
    (h : (absorbPairs f l m).2 = none) {value : α} (hmem : (name, value) ∈ (absorbPairs f l m).1) :
    (∃ a b, (name, a) ∈ l ∧ (name, b) ∈ m ∧ value = (f a b).1) ∨
      (name, value) ∈ l ∧ name ∉ m.map Prod.fst ∨ (name, value) ∈ m ∧ name ∉ l.map Prod.fst := by
  have hlookup := Pairs.lookup_of_mem (nodup_absorbPairs hl m) hmem
  rw [lookup_absorbPairs hm h] at hlookup
  cases ha : l.lookup name with
  | none =>
    rw [ha] at hlookup
    cases hb : m.lookup name with
    | none => simp [hb] at hlookup
    | some b =>
      obtain rfl : b = value := by simpa [hb] using hlookup
      exact .inr (.inr ⟨Pairs.mem_of_lookup hb, Pairs.lookup_eq_none_iff.1 ha⟩)
  | some a =>
    rw [ha] at hlookup
    cases hb : m.lookup name with
    | none =>
      obtain rfl : a = value := by simpa [hb] using hlookup
      exact .inr (.inl ⟨Pairs.mem_of_lookup ha, Pairs.lookup_eq_none_iff.1 hb⟩)
    | some b =>
      obtain rfl : (f a b).1 = value := by simpa [hb] using hlookup
      exact .inl ⟨a, b, Pairs.mem_of_lookup ha, Pairs.mem_of_lookup hb, rfl⟩

end

theorem absorbFields_eq (l m : List (Name × Selection)) :
    absorbFields l m = absorbPairs absorb l m := by
  induction m generalizing l with
  | nil => rw [absorbFields, absorbPairs]
  | cons p rest ih =>
    obtain ⟨name, s⟩ := p
    rw [absorbFields, absorbPairs]
    cases l.lookup name with
    | none => exact ih _
    | some old =>
      dsimp only
      rcases absorb old s with ⟨new, _ | fault⟩
      · exact ih _
      · rfl

theorem absorbMembers_eq (l m : List (Name × FieldSet Selection)) :
    absorbMembers l m = absorbPairs absorbSet l m := by
  induction m generalizing l with
  | nil => rw [absorbMembers, absorbPairs]
  | cons p rest ih =>
    obtain ⟨name, s⟩ := p
    rw [absorbMembers, absorbPairs]
    cases l.lookup name with
    | none => exact ih _
    | some old =>
      dsimp only
      rcases absorbSet old s with ⟨new, _ | fault⟩
      · exact ih _
      · rfl

theorem absorbSet_self (type : Name) (l m : List (Name × Selection)) :
    absorbSet ⟨type, l⟩ ⟨type, m⟩ = (⟨type, (absorbPairs absorb l m).1⟩, (absorbPairs absorb l m).2) := by
  rw [absorbSet, if_pos rfl, absorbFields_eq]

theorem absorb_struct (type : Name) (l m : List (Name × Selection)) :
    absorb (.struct ⟨type, l⟩) (.struct ⟨type, m⟩) =
      (.struct ⟨type, (absorbPairs absorb l m).1⟩, (absorbPairs absorb l m).2) := by
  rw [absorb, absorbSet_self]

theorem absorb_union (type : Name) (l m : List (Name × FieldSet Selection)) :
    absorb (.union type l) (.union type m) =
      (.union type (absorbPairs absorbSet l m).1, (absorbPairs absorbSet l m).2) := by
  rw [absorb, if_pos rfl, absorbMembers_eq]

theorem absorb_whole (s : Selection) : s.absorb .whole = (.whole, none) := by
  cases s <;> simp [absorb]

theorem whole_absorb (s : Selection) : absorb .whole s = (.whole, none) := by
  rw [absorb]

theorem merge_eq_ok_iff {a b r : Selection} : a.merge b = .ok r ↔ a.absorb b = (r, none) := by
  unfold merge
  rcases a.absorb b with ⟨s, _ | fault⟩ <;> simp

/-! ## The same, key by key -/

theorem sameFields_iff {l m : List (Name × Selection)} :
    sameFields l m = true ↔
      ∀ p ∈ l, ∃ t, m.lookup p.1 = some t ∧ p.2.same t = true := by
  induction l with
  | nil => simp [sameFields]
  | cons p rest ih =>
    obtain ⟨name, s⟩ := p
    rw [sameFields, Bool.and_eq_true, ih, List.forall_mem_cons]
    refine and_congr_left fun _ => ?_
    cases m.lookup name <;> simp

theorem sameMembers_iff {l m : List (Name × FieldSet Selection)} :
    sameMembers l m = true ↔
      ∀ p ∈ l, ∃ t, m.lookup p.1 = some t ∧ sameSet p.2 t = true := by
  induction l with
  | nil => simp [sameMembers]
  | cons p rest ih =>
    obtain ⟨name, s⟩ := p
    rw [sameMembers, Bool.and_eq_true, ih, List.forall_mem_cons]
    refine and_congr_left fun _ => ?_
    cases m.lookup name <;> simp

/-- **Sets of fields are the same** if they have as many fields of the same struct, and those of
one are the same in the other. -/
theorem sameSet_iff {a b : FieldSet Selection} :
    sameSet a b = true ↔ a.typeName = b.typeName ∧ a.fields.length = b.fields.length ∧
      ∀ p ∈ a.fields, ∃ t, b.fields.lookup p.1 = some t ∧ p.2.same t = true := by
  obtain ⟨n, a⟩ := a
  obtain ⟨m, b⟩ := b
  rw [sameSet, Bool.and_eq_true, Bool.and_eq_true, sameFields_iff, decide_eq_true_iff,
    decide_eq_true_iff, and_assoc]

end StructQL.Selection
