import Mathlib.Data.List.Perm.Subperm
import StructQL.Proofs.Selection.Merge

/-!
# Selections that cover others

A selection covers another one if it selects all that the other one does. This is an order but for
the order of fields and members, with the whole value on top.

* `Distinct`: no name is listed twice, at any depth.
* `Covers`: the order, and `PairsCover` what it says of lists, key by key.
* `Covers.absorb_eq`: **what is covered changes nothing when it is taken in.**
* `same_iff_covers`: **selections are the same just if they cover each other.**
-/

namespace StructQL.Selection

/-- **No name is listed twice**, at any depth. -/
inductive Distinct : Selection → Prop where
  | whole : Distinct .whole
  | struct {type : Name} {fields : List (Name × Selection)} :
    (fields.map Prod.fst).Nodup →
    (∀ name s, (name, s) ∈ fields → Distinct s) →
    Distinct (.struct ⟨type, fields⟩)
  | union {type : Name} {members : List (Name × FieldSet Selection)} :
    (members.map Prod.fst).Nodup →
    (∀ member set, (member, set) ∈ members → (set.fields.map Prod.fst).Nodup) →
    (∀ member set name s, (member, set) ∈ members → (name, s) ∈ set.fields → Distinct s) →
    Distinct (.union type members)

/-- **A selection covers another one**: it is the whole value, or both are of the same struct or
struct union, and it has every member of the other with the same struct and every field of the
other, and what it selects of these covers what the other does. -/
inductive Covers : Selection → Selection → Prop where
  | whole {s : Selection} : Covers .whole s
  | struct {type : Name} {l m : List (Name × Selection)} :
    m.map Prod.fst ⊆ l.map Prod.fst →
    (∀ name s t, (name, s) ∈ l → (name, t) ∈ m → Covers s t) →
    Covers (.struct ⟨type, l⟩) (.struct ⟨type, m⟩)
  | union {type : Name} {l m : List (Name × FieldSet Selection)} :
    m.map Prod.fst ⊆ l.map Prod.fst →
    (∀ member x y, (member, x) ∈ l → (member, y) ∈ m →
      x.typeName = y.typeName ∧ y.fields.map Prod.fst ⊆ x.fields.map Prod.fst) →
    (∀ member x y name s t, (member, x) ∈ l → (member, y) ∈ m → (name, s) ∈ x.fields →
      (name, t) ∈ y.fields → Covers s t) →
    Covers (.union type l) (.union type m)

/-! ## Key by key -/

/-- Pairs with distinct keys, and with values that have a property. -/
structure DistinctPairs {α : Type} (P : α → Prop) (l : List (Name × α)) : Prop where
  keys : (l.map Prod.fst).Nodup
  values : ∀ name s, (name, s) ∈ l → P s

/-- **Pairs cover others**: they have all their keys, with values over theirs. -/
structure PairsCover {α : Type} (R : α → α → Prop) (l m : List (Name × α)) : Prop where
  keys : m.map Prod.fst ⊆ l.map Prod.fst
  values : ∀ name s t, (name, s) ∈ l → (name, t) ∈ m → R s t

section

variable {α : Type} {P : α → Prop} {R : α → α → Prop} {l m k : List (Name × α)} {name : Name}
  {t : α}

theorem PairsCover.exists_lookup (h : PairsCover R l m) (ht : (name, t) ∈ m) :
    ∃ s, l.lookup name = some s ∧ R s t := by
  have hname : name ∈ l.map Prod.fst := h.keys (List.mem_map.2 ⟨_, ht, rfl⟩)
  cases hs : l.lookup name with
  | none => exact absurd hname (Pairs.lookup_eq_none_iff.1 hs)
  | some s => exact ⟨s, rfl, h.values name s t (Pairs.mem_of_lookup hs) ht⟩

theorem PairsCover.refl (h : DistinctPairs (fun s => R s s) l) : PairsCover R l l := by
  refine ⟨List.Subset.refl _, ?_⟩
  intro name s t hs ht
  rw [Pairs.eq_of_mem h.keys ht hs]
  exact h.values name s hs

theorem PairsCover.trans (hlm : m.map Prod.fst ⊆ l.map Prod.fst)
    (h : ∀ name s t, (name, s) ∈ l → (name, t) ∈ m → ∀ u, R t u → R s u)
    (hmk : PairsCover R m k) : PairsCover R l k := by
  refine ⟨List.Subset.trans hmk.keys hlm, ?_⟩
  intro name s u hs hu
  obtain ⟨t, ht, hR⟩ := hmk.exists_lookup hu
  exact h name s t hs (Pairs.mem_of_lookup ht) u hR

/-- **Pairs with distinct keys are as many, and found among the others with the same values, just
if both cover each other.** -/
theorem samePairs_iff {Q : α → α → Prop} (hl : DistinctPairs P l) (hm : DistinctPairs P m)
    (hQ : ∀ name s t, (name, s) ∈ l → P t → (Q s t ↔ R s t ∧ R t s)) :
    (l.length = m.length ∧ ∀ p ∈ l, ∃ t, m.lookup p.1 = some t ∧ Q p.2 t) ↔
      PairsCover R l m ∧ PairsCover R m l := by
  constructor
  · rintro ⟨hlength, hfound⟩
    have hlm : l.map Prod.fst ⊆ m.map Prod.fst := by
      intro key hkey
      obtain ⟨p, hp, rfl⟩ := List.mem_map.1 hkey
      obtain ⟨t, ht, -⟩ := hfound p hp
      exact List.mem_map.2 ⟨_, Pairs.mem_of_lookup ht, rfl⟩
    -- as many distinct keys, so none of the others is left over
    have hperm : (l.map Prod.fst).Perm (m.map Prod.fst) :=
      (hl.keys.subperm hlm).perm_of_length_le (by simp [hlength])
    have hvalues : ∀ name s t, (name, s) ∈ l → (name, t) ∈ m → R s t ∧ R t s := by
      intro name s t hs ht
      obtain ⟨t', ht', hq⟩ := hfound _ hs
      obtain rfl := Pairs.eq_of_mem hm.keys ht (Pairs.mem_of_lookup ht')
      exact (hQ name s t hs (hm.values name t ht)).1 hq
    refine ⟨⟨hperm.symm.subset, ?_⟩, ⟨hlm, ?_⟩⟩
    · intro name s t hs ht
      exact (hvalues name s t hs ht).1
    · intro name t s ht hs
      exact (hvalues name s t hs ht).2
  · rintro ⟨hover, hunder⟩
    have hkeys : ∀ key, key ∈ l.map Prod.fst ↔ key ∈ m.map Prod.fst := by
      intro key
      exact ⟨fun h => hunder.keys h, fun h => hover.keys h⟩
    have hperm := (List.perm_ext_iff_of_nodup hl.keys hm.keys).2 hkeys
    refine ⟨by simpa using hperm.length_eq, ?_⟩
    rintro ⟨name, s⟩ hs
    obtain ⟨t, ht, hR⟩ := hunder.exists_lookup hs
    have hmem := Pairs.mem_of_lookup ht
    exact ⟨t, ht, (hQ name s t hs (hm.values name t hmem)).2 ⟨hover.values name s t hs hmem, hR⟩⟩

end

/-! ## Sets of fields -/

/-- The fields are distinct, at any depth. -/
def DistinctSet (x : FieldSet Selection) : Prop := DistinctPairs Distinct x.fields

/-- A set of fields covers another one of the same struct. -/
def SetCovers (x y : FieldSet Selection) : Prop :=
  x.typeName = y.typeName ∧ PairsCover Covers x.fields y.fields

/-- Two names are equal, and something holds both ways. -/
theorem eq_and_both_iff {n m : Name} {p q : Prop} :
    n = m ∧ p ∧ q ↔ (n = m ∧ p) ∧ m = n ∧ q := by
  constructor
  · rintro ⟨rfl, hp, hq⟩
    exact ⟨⟨rfl, hp⟩, rfl, hq⟩
  · rintro ⟨⟨rfl, hp⟩, -, hq⟩
    exact ⟨rfl, hp, hq⟩

section

variable {a b : Selection} {type other : Name} {l m : List (Name × Selection)}
  {x y : List (Name × FieldSet Selection)}

theorem distinct_struct_iff : Distinct (.struct ⟨type, l⟩) ↔ DistinctPairs Distinct l := by
  constructor
  · rintro (_ | ⟨hkeys, hvalues⟩)
    exact ⟨hkeys, hvalues⟩
  · rintro ⟨hkeys, hvalues⟩
    exact .struct hkeys hvalues

theorem distinct_union_iff : Distinct (.union type x) ↔ DistinctPairs DistinctSet x := by
  constructor
  · rintro (_ | _ | ⟨hkeys, hfields, hvalues⟩)
    refine ⟨hkeys, ?_⟩
    intro member set hset
    refine ⟨hfields member set hset, ?_⟩
    intro name s
    exact hvalues member set name s hset
  · rintro ⟨hkeys, hsets⟩
    refine .union hkeys ?_ ?_
    · intro member set hset
      exact (hsets member set hset).keys
    · intro member set name s hset
      exact (hsets member set hset).values name s

theorem covers_struct_iff :
    Covers (.struct ⟨type, l⟩) (.struct ⟨other, m⟩) ↔ type = other ∧ PairsCover Covers l m := by
  constructor
  · rintro (_ | ⟨hkeys, hvalues⟩)
    exact ⟨rfl, hkeys, hvalues⟩
  · rintro ⟨rfl, hkeys, hvalues⟩
    exact .struct hkeys hvalues

theorem covers_union_iff :
    Covers (.union type x) (.union other y) ↔ type = other ∧ PairsCover SetCovers x y := by
  constructor
  · rintro (_ | _ | ⟨hkeys, hsets, hvalues⟩)
    refine ⟨rfl, hkeys, ?_⟩
    intro member s t hs ht
    obtain ⟨htype, hfields⟩ := hsets member s t hs ht
    refine ⟨htype, hfields, ?_⟩
    intro name v w
    exact hvalues member s t name v w hs ht
  · rintro ⟨rfl, hkeys, hsets⟩
    refine .union hkeys ?_ ?_
    · intro member s t hs ht
      exact ⟨(hsets member s t hs ht).1, (hsets member s t hs ht).2.keys⟩
    · intro member s t name v w hs ht
      exact (hsets member s t hs ht).2.values name v w

theorem Covers.refl (ha : a.Distinct) : a.Covers a := by
  induction ha with
  | whole => exact .whole
  | struct hkeys _ ih => exact covers_struct_iff.2 ⟨rfl, .refl ⟨hkeys, ih⟩⟩
  | union hkeys hfields _ ih =>
    refine covers_union_iff.2 ⟨rfl, .refl ⟨hkeys, ?_⟩⟩
    intro member set hset
    refine ⟨rfl, .refl ⟨hfields member set hset, ?_⟩⟩
    intro name s
    exact ih member set name s hset

theorem Covers.trans (hab : a.Covers b) : ∀ {c}, b.Covers c → a.Covers c := by
  induction hab with
  | whole =>
    intro c _
    exact .whole
  | struct hkeys _ ih =>
    intro c hbc
    cases hbc with
    | struct hkeys' hvalues' =>
      refine covers_struct_iff.2 ⟨rfl, .trans hkeys ?_ ⟨hkeys', hvalues'⟩⟩
      intro name s t hs ht u
      exact ih name s t hs ht
  | union hkeys hsets _ ih =>
    intro c hbc
    cases c with
    | whole => cases hbc
    | struct => cases hbc
    | union type k =>
      obtain ⟨rfl, hcover⟩ := covers_union_iff.1 hbc
      refine covers_union_iff.2 ⟨rfl, .trans hkeys ?_ hcover⟩
      intro member s t hs ht u htu
      obtain ⟨htype, hfields⟩ := hsets member s t hs ht
      refine ⟨htype.trans htu.1, .trans hfields ?_ htu.2⟩
      intro name v w hv hw z
      exact ih member s t name v w hs ht hv hw

/-- **What is covered changes nothing when it is taken in.** -/
theorem Covers.absorb_eq (h : a.Covers b) : a.absorb b = (a, none) := by
  induction h with
  | whole => exact whole_absorb _
  | @struct type l m hkeys _ ih =>
    have hcover : PairsCover (fun s t => s.absorb t = (s, none)) l m := ⟨hkeys, ih⟩
    rw [absorb_struct, absorbPairs_eq_self fun name t ht => hcover.exists_lookup ht]
  | @union type l m hkeys hsets _ ih =>
    have hcover : PairsCover (fun x y => absorbSet x y = (x, none)) l m := by
      refine ⟨hkeys, ?_⟩
      rintro member ⟨n, x⟩ ⟨n', y⟩ hx hy
      obtain ⟨rfl, hfields⟩ := hsets member _ _ hx hy
      have hinner : PairsCover (fun s t => s.absorb t = (s, none)) x y :=
        ⟨hfields, fun name s t => ih member _ _ name s t hx hy⟩
      rw [absorbSet_self, absorbPairs_eq_self fun name t ht => hinner.exists_lookup ht]
    rw [absorb_union, absorbPairs_eq_self fun name t ht => hcover.exists_lookup ht]

/-- Selections of different shapes are not the same, and do not cover each other. -/
theorem same_iff_of_shapes (hsame : a.same b = false) (hcovers : ¬ a.Covers b ∨ ¬ b.Covers a) :
    a.same b = true ↔ a.Covers b ∧ b.Covers a := by
  rw [hsame]
  refine iff_of_false Bool.false_ne_true ?_
  rintro ⟨hab, hba⟩
  rcases hcovers with h | h
  · exact h hab
  · exact h hba

/-- **Selections are the same just if they cover each other.** -/
theorem same_iff_covers (ha : a.Distinct) :
    ∀ {b}, b.Distinct → (a.same b = true ↔ a.Covers b ∧ b.Covers a) := by
  induction ha with
  | whole =>
    intro b hb
    cases b with
    | whole => simp [same, Covers.whole]
    | struct => exact same_iff_of_shapes (by simp [same]) (.inr (by rintro ⟨⟩))
    | union => exact same_iff_of_shapes (by simp [same]) (.inr (by rintro ⟨⟩))
  | @struct type l hkeys hvalues ih =>
    intro b hb
    cases b with
    | whole => exact same_iff_of_shapes (by simp [same]) (.inl (by rintro ⟨⟩))
    | union => exact same_iff_of_shapes (by simp [same]) (.inl (by rintro ⟨⟩))
    | struct y =>
      obtain ⟨other, m⟩ := y
      have hl : DistinctPairs Distinct l := ⟨hkeys, hvalues⟩
      have hm := distinct_struct_iff.1 hb
      have hpairs := samePairs_iff hl hm fun name s t hs ht => ih name s hs ht
      rw [same, sameSet_iff, hpairs, covers_struct_iff, covers_struct_iff, eq_and_both_iff]
  | @union type l hkeys hfields hvalues ih =>
    intro b hb
    cases b with
    | whole => exact same_iff_of_shapes (by simp [same]) (.inl (by rintro ⟨⟩))
    | struct => exact same_iff_of_shapes (by simp [same]) (.inl (by rintro ⟨⟩))
    | union other m =>
      have hl : DistinctPairs DistinctSet l := by
        refine ⟨hkeys, ?_⟩
        intro member x hx
        exact ⟨hfields member x hx, fun name s hs => hvalues member x name s hx hs⟩
      have hm := distinct_union_iff.1 hb
      have hsets : ∀ member x y, (member, x) ∈ l → DistinctSet y →
          (sameSet x y = true ↔ SetCovers x y ∧ SetCovers y x) := by
        intro member x y hx hy
        have hset := samePairs_iff (hl.values member x hx) hy fun name s t hs ht =>
          ih member x name s hx hs ht
        rw [sameSet_iff, hset, eq_and_both_iff, SetCovers, SetCovers]
      rw [same, Bool.and_eq_true, Bool.and_eq_true, sameMembers_iff, decide_eq_true_iff,
        decide_eq_true_iff, and_assoc, samePairs_iff hl hm hsets, covers_union_iff,
        covers_union_iff, eq_and_both_iff]

end

end StructQL.Selection
