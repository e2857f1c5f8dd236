import StructQL.Proofs.Selection.Covers

/-!
# Merging is a join

Selections merge if they are of one type wherever both narrow a value, and what comes out is the
least selection that covers both.

* `Compatible`: the selections that merge.
* `IsJoin`: the least that covers both.
* `Compatible.joins`: **compatible selections merge to their join.**
* `compatible_of_absorb`: no others merge.
* `Compatible.absorb`: what is compatible with both is so with their join.
* `merge_join`: merging is idempotent, commutative, associative where selections merge pairwise, and
  the join in the order of what covers what.
-/

namespace StructQL.Selection

/-- **Selections that merge**: one of them is the whole value, or they are of the same struct or
struct union, and their sets of fields of a shared member are of the same struct, and what they
select of a shared field merges. -/
inductive Compatible : Selection → Selection → Prop where
  | whole_left {s : Selection} : Compatible .whole s
  | whole_right {s : Selection} : Compatible s .whole
  | struct {type : Name} {l m : List (Name × Selection)} :
    (∀ name s t, (name, s) ∈ l → (name, t) ∈ m → Compatible s t) →
    Compatible (.struct ⟨type, l⟩) (.struct ⟨type, m⟩)
  | union {type : Name} {l m : List (Name × FieldSet Selection)} :
    (∀ member x y, (member, x) ∈ l → (member, y) ∈ m → x.typeName = y.typeName) →
    (∀ member x y name s t, (member, x) ∈ l → (member, y) ∈ m → (name, s) ∈ x.fields →
      (name, t) ∈ y.fields → Compatible s t) →
    Compatible (.union type l) (.union type m)

/-- **The least that covers both.** -/
structure IsJoin {α : Type} (R : α → α → Prop) (a b r : α) : Prop where
  left : R r a
  right : R r b
  least : ∀ u, R u a → R u b → R u r

/-- Something is taken in without a fault, what comes out has a property, and it is the join. -/
structure Joins {α : Type} (P : α → Prop) (R : α → α → Prop) (a b : α) (r : Absorbed α) : Prop where
  faultless : r.2 = none
  keeps : P r.1
  isJoin : IsJoin R a b r.1

section

variable {a b c r s : Selection}

theorem Compatible.symm (h : a.Compatible b) : b.Compatible a := by
  induction h with
  | whole_left => exact .whole_right
  | whole_right => exact .whole_left
  | struct _ ih =>
    refine .struct ?_
    intro name s t hs ht
    exact ih name t s ht hs
  | union htypes _ ih =>
    refine .union ?_ ?_
    · intro member x y hx hy
      exact (htypes member y x hy hx).symm
    · intro member x y name s t hx hy hs ht
      exact ih member y x name t s hy hx ht hs

/-! ## Key by key -/

section

variable {α : Type} {P : α → Prop} {R : α → α → Prop} {f : α → α → Absorbed α}
  {l m k : List (Name × α)}

/-- **Pairs are taken in to their join**, if the values of every shared key are. -/
theorem joins_absorbPairs (hl : DistinctPairs P l) (hm : DistinctPairs P m)
    (hrefl : ∀ s, P s → R s s)
    (h : ∀ name s t, (name, s) ∈ l → (name, t) ∈ m → Joins P R s t (f s t)) :
    Joins (DistinctPairs P) (PairsCover R) l m (absorbPairs f l m) := by
  have hnone : (absorbPairs f l m).2 = none := by
    refine (faults_absorbPairs_iff hm.keys).2 ?_
    intro name s t hs ht
    exact (h name s t (Pairs.mem_of_lookup hs) (Pairs.mem_of_lookup ht)).faultless
  have hkeys : ∀ name, name ∈ (absorbPairs f l m).1.map Prod.fst ↔ _ := fun name =>
    mem_keys_absorbPairs hm.keys hnone
  -- a value that comes out is joined from both, or is that of a key of one side only
  have hcases : ∀ name v, (name, v) ∈ (absorbPairs f l m).1 → _ := fun name v hv =>
    mem_absorbPairs hl.keys hm.keys hnone hv
  refine ⟨hnone, ⟨nodup_absorbPairs hl.keys m, ?_⟩, ⟨?_, ?_⟩, ⟨?_, ?_⟩, ?_⟩
  · intro name v hv
    rcases hcases name v hv with ⟨s, t, hs, ht, rfl⟩ | ⟨hs, -⟩ | ⟨ht, -⟩
    · exact (h name s t hs ht).keeps
    · exact hl.values name v hs
    · exact hm.values name v ht
  · intro name hname
    exact (hkeys name).2 (.inl hname)
  · intro name v s hv hs
    rcases hcases name v hv with ⟨s', t, hs', ht, rfl⟩ | ⟨hs', -⟩ | ⟨-, hout⟩
    · rw [Pairs.eq_of_mem hl.keys hs hs']
      exact (h name s' t hs' ht).isJoin.left
    · rw [Pairs.eq_of_mem hl.keys hs hs']
      exact hrefl v (hl.values name v hs')
    · exact absurd (List.mem_map.2 ⟨_, hs, rfl⟩) hout
  · intro name hname
    exact (hkeys name).2 (.inr hname)
  · intro name v t hv ht
    rcases hcases name v hv with ⟨s, t', hs, ht', rfl⟩ | ⟨-, hout⟩ | ⟨ht', -⟩
    · rw [Pairs.eq_of_mem hm.keys ht ht']
      exact (h name s t' hs ht').isJoin.right
    · exact absurd (List.mem_map.2 ⟨_, ht, rfl⟩) hout
    · rw [Pairs.eq_of_mem hm.keys ht ht']
      exact hrefl v (hm.values name v ht')
  · intro u hul hum
    refine ⟨?_, ?_⟩
    · intro name hname
      rcases (hkeys name).1 hname with hname | hname
      · exact hul.keys hname
      · exact hum.keys hname
    · intro name w v hw hv
      rcases hcases name v hv with ⟨s, t, hs, ht, rfl⟩ | ⟨hs, -⟩ | ⟨ht, -⟩
      · exact (h name s t hs ht).isJoin.least w (hul.values name w s hw hs)
          (hum.values name w t hw ht)
      · exact hul.values name w v hw hs
      · exact hum.values name w v hw ht

/-- What holds between both and others holds between what comes out and the others. -/
theorem forall_absorbPairs (hl : (l.map Prod.fst).Nodup) (hm : (m.map Prod.fst).Nodup)
    (hnone : (absorbPairs f l m).2 = none)
    (h : ∀ name s t v, (name, s) ∈ l → (name, t) ∈ m → (name, v) ∈ k → R (f s t).1 v)
    (hlk : ∀ name s v, (name, s) ∈ l → (name, v) ∈ k → R s v)
    (hmk : ∀ name t v, (name, t) ∈ m → (name, v) ∈ k → R t v) :
    ∀ name r v, (name, r) ∈ (absorbPairs f l m).1 → (name, v) ∈ k → R r v := by
  intro name r v hr hv
  rcases mem_absorbPairs hl hm hnone hr with ⟨s, t, hs, ht, rfl⟩ | ⟨hs, -⟩ | ⟨ht, -⟩
  · exact h name s t v hs ht hv
  · exact hlk name r v hs hv
  · exact hmk name r v ht hv

end

/-! ## Sets of fields, and selections -/

/-- Sets of fields of one struct are taken in to their join, if the fields are. -/
theorem joins_absorbSet {x y : FieldSet Selection} (htype : x.typeName = y.typeName)
    (h : Joins (DistinctPairs Distinct) (PairsCover Covers) x.fields y.fields
      (absorbPairs absorb x.fields y.fields)) :
    Joins DistinctSet SetCovers x y (absorbSet x y) := by
  obtain ⟨n, l⟩ := x
  obtain ⟨n', m⟩ := y
  dsimp only at htype h
  subst htype
  rw [absorbSet_self]
  refine ⟨h.faultless, h.keeps, ⟨rfl, h.isJoin.left⟩, ⟨rfl, h.isJoin.right⟩, ?_⟩
  rintro u ⟨htype, hul⟩ ⟨-, hum⟩
  exact ⟨htype, h.isJoin.least u.fields hul hum⟩

theorem joins_struct {type : Name} {l m : List (Name × Selection)}
    (h : Joins (DistinctPairs Distinct) (PairsCover Covers) l m (absorbPairs absorb l m)) :
    Joins Distinct Covers (.struct ⟨type, l⟩) (.struct ⟨type, m⟩)
      (absorb (.struct ⟨type, l⟩) (.struct ⟨type, m⟩)) := by
  rw [absorb_struct]
  refine ⟨h.faultless, distinct_struct_iff.2 h.keeps, covers_struct_iff.2 ⟨rfl, h.isJoin.left⟩,
    covers_struct_iff.2 ⟨rfl, h.isJoin.right⟩, ?_⟩
  intro u hul hum
  cases u with
  | whole => exact .whole
  | union => cases hul
  | struct u =>
    obtain ⟨rfl, hfields⟩ := covers_struct_iff.1 hul
    obtain ⟨-, hfields'⟩ := covers_struct_iff.1 hum
    exact covers_struct_iff.2 ⟨rfl, h.isJoin.least u.fields hfields hfields'⟩

theorem joins_union {type : Name} {l m : List (Name × FieldSet Selection)}
    (h : Joins (DistinctPairs DistinctSet) (PairsCover SetCovers) l m (absorbPairs absorbSet l m)) :
    Joins Distinct Covers (.union type l) (.union type m)
      (absorb (.union type l) (.union type m)) := by
  rw [absorb_union]
  refine ⟨h.faultless, distinct_union_iff.2 h.keeps, covers_union_iff.2 ⟨rfl, h.isJoin.left⟩,
    covers_union_iff.2 ⟨rfl, h.isJoin.right⟩, ?_⟩
  intro u hul hum
  cases u with
  | whole => exact .whole
  | struct => cases hul
  | union other k =>
    obtain ⟨rfl, hmembers⟩ := covers_union_iff.1 hul
    obtain ⟨-, hmembers'⟩ := covers_union_iff.1 hum
    exact covers_union_iff.2 ⟨rfl, h.isJoin.least k hmembers hmembers'⟩

theorem setCovers_refl {x : FieldSet Selection} (hx : DistinctSet x) : SetCovers x x :=
  ⟨rfl, .refl ⟨hx.keys, fun name s hs => Covers.refl (hx.values name s hs)⟩⟩

/-- **Compatible selections merge to their join.** -/
theorem Compatible.joins (h : a.Compatible b) :
    a.Distinct → b.Distinct → Joins Distinct Covers a b (a.absorb b) := by
  induction h with
  | whole_left =>
    intro _ _
    rw [whole_absorb]
    exact ⟨rfl, .whole, .whole, .whole, fun u hu _ => hu⟩
  | whole_right =>
    intro _ _
    rw [absorb_whole]
    exact ⟨rfl, .whole, .whole, .whole, fun u _ hu => hu⟩
  | struct _ ih =>
    intro ha hb
    have hl := distinct_struct_iff.1 ha
    have hm := distinct_struct_iff.1 hb
    refine joins_struct (joins_absorbPairs hl hm (fun _ => Covers.refl) ?_)
    intro name s t hs ht
    exact ih name s t hs ht (hl.values name s hs) (hm.values name t ht)
  | union htypes _ ih =>
    intro ha hb
    have hl := distinct_union_iff.1 ha
    have hm := distinct_union_iff.1 hb
    refine joins_union (joins_absorbPairs hl hm (fun _ => setCovers_refl) ?_)
    intro member x y hx hy
    have hfields := hl.values member x hx
    have hfields' := hm.values member y hy
    refine joins_absorbSet (htypes member x y hx hy)
      (joins_absorbPairs hfields hfields' (fun _ => Covers.refl) ?_)
    intro name s t hs ht
    exact ih member x y name s t hx hy hs ht (hfields.values name s hs) (hfields'.values name t ht)

/-- The fields of both are taken in to their join, if those that they share are compatible. -/
theorem joins_fields {l m : List (Name × Selection)} (hl : DistinctPairs Distinct l)
    (hm : DistinctPairs Distinct m)
    (h : ∀ name s t, (name, s) ∈ l → (name, t) ∈ m → s.Compatible t) :
    Joins (DistinctPairs Distinct) (PairsCover Covers) l m (absorbPairs absorb l m) := by
  refine joins_absorbPairs hl hm (fun _ => Covers.refl) ?_
  intro name s t hs ht
  exact (h name s t hs ht).joins (hl.values name s hs) (hm.values name t ht)

/-- Sets of fields of one struct, with shared fields that are compatible. -/
def SetCompatible (x y : FieldSet Selection) : Prop :=
  x.typeName = y.typeName ∧
    ∀ name s t, (name, s) ∈ x.fields → (name, t) ∈ y.fields → s.Compatible t

theorem compatible_struct_iff {x y : FieldSet Selection} :
    Compatible (.struct x) (.struct y) ↔ SetCompatible x y := by
  constructor
  · rintro (_ | _ | hfields)
    exact ⟨rfl, hfields⟩
  · obtain ⟨n, l⟩ := x
    obtain ⟨n', m⟩ := y
    rintro ⟨htype, hfields⟩
    obtain rfl : n = n' := htype
    exact .struct hfields

theorem compatible_union_iff {type other : Name} {l m : List (Name × FieldSet Selection)} :
    Compatible (.union type l) (.union other m) ↔
      type = other ∧ ∀ member x y, (member, x) ∈ l → (member, y) ∈ m → SetCompatible x y := by
  constructor
  · rintro (_ | _ | _ | ⟨htypes, hfields⟩)
    refine ⟨rfl, ?_⟩
    intro member x y hx hy
    refine ⟨htypes member x y hx hy, ?_⟩
    intro name s t
    exact hfields member x y name s t hx hy
  · rintro ⟨rfl, hsets⟩
    refine .union ?_ ?_
    · intro member x y hx hy
      exact (hsets member x y hx hy).1
    · intro member x y name s t hx hy
      exact (hsets member x y hx hy).2 name s t

/-- What is compatible with both sets is compatible with their join, if so for shared fields. -/
theorem SetCompatible.absorbSet {x y v : FieldSet Selection} (hx : DistinctSet x)
    (hy : DistinctSet y) (h : SetCompatible x y)
    (hshared : ∀ name s t, (name, s) ∈ x.fields → (name, t) ∈ y.fields →
      ∀ {u}, s.Compatible u → t.Compatible u → (s.absorb t).1.Compatible u)
    (hxv : SetCompatible x v) (hyv : SetCompatible y v) :
    SetCompatible (Selection.absorbSet x y).1 v := by
  obtain ⟨n, l⟩ := x
  obtain ⟨n', m⟩ := y
  obtain rfl : n = n' := h.1
  have hnone := (joins_fields hx hy h.2).faultless
  rw [absorbSet_self]
  refine ⟨hxv.1, forall_absorbPairs hx.keys hy.keys hnone ?_ hxv.2 hyv.2⟩
  intro name s t u hs ht hu
  exact hshared name s t hs ht (hxv.2 name s u hs hu) (hyv.2 name t u ht hu)

/-- **What is compatible with both is compatible with their join.** -/
theorem Compatible.absorb (h : a.Compatible b) :
    a.Distinct → b.Distinct → ∀ {c}, a.Compatible c → b.Compatible c →
      (a.absorb b).1.Compatible c := by
  induction h with
  | whole_left =>
    intro _ _ c _ _
    rw [whole_absorb]
    exact .whole_left
  | whole_right =>
    intro _ _ c _ _
    rw [absorb_whole]
    exact .whole_left
  | @struct type l m h ih =>
    intro ha hb c hac hbc
    have hl := distinct_struct_iff.1 ha
    have hm := distinct_struct_iff.1 hb
    cases c with
    | whole => exact .whole_right
    | union => cases hac
    | struct v =>
      rw [Selection.absorb]
      refine compatible_struct_iff.2 (SetCompatible.absorbSet hl hm ⟨rfl, h⟩ ?_
        (compatible_struct_iff.1 hac) (compatible_struct_iff.1 hbc))
      intro name s t hs ht
      exact ih name s t hs ht (hl.values name s hs) (hm.values name t ht)
  | @union type l m htypes h ih =>
    intro ha hb c hac hbc
    have hl := distinct_union_iff.1 ha
    have hm := distinct_union_iff.1 hb
    have hab : Compatible (.union type l) (.union type m) := .union htypes h
    have hnone := (hab.joins ha hb).faultless
    rw [absorb_union] at hnone ⊢
    cases c with
    | whole => exact .whole_right
    | struct => cases hac
    | union other k =>
      obtain ⟨rfl, hlk⟩ := compatible_union_iff.1 hac
      obtain ⟨-, hmk⟩ := compatible_union_iff.1 hbc
      refine compatible_union_iff.2 ⟨rfl, forall_absorbPairs hl.keys hm.keys hnone ?_ hlk hmk⟩
      intro member x y v hx hy hv
      have hx' := hl.values member x hx
      have hy' := hm.values member y hy
      refine SetCompatible.absorbSet hx' hy'
        ⟨htypes member x y hx hy, fun name s t => h member x y name s t hx hy⟩ ?_
        (hlk member x v hx hv) (hmk member y v hy hv)
      intro name s t hs ht
      exact ih member x y name s t hx hy hs ht (hx'.values name s hs) (hy'.values name t ht)

/-! ## When selections merge -/

theorem typeName_eq_of_absorbSet {x y : FieldSet Selection} (h : (absorbSet x y).2 = none) :
    x.typeName = y.typeName := by
  obtain ⟨n, l⟩ := x
  obtain ⟨n', m⟩ := y
  rw [absorbSet] at h
  split at h
  · assumption
  · cases h

/-- The values of a shared key are taken in without a fault, if all pairs are. -/
theorem faultless_of_absorbPairs {α : Type} {P : α → Prop} {f : α → α → Absorbed α}
    {l m : List (Name × α)} (hl : DistinctPairs P l) (hm : DistinctPairs P m)
    (h : (absorbPairs f l m).2 = none) {name : Name} {s t : α} (hs : (name, s) ∈ l)
    (ht : (name, t) ∈ m) : (f s t).2 = none :=
  (faults_absorbPairs_iff hm.keys).1 h name s t (Pairs.lookup_of_mem hl.keys hs)
    (Pairs.lookup_of_mem hm.keys ht)

/-- Only compatible sets of fields merge, if so for their fields. -/
theorem setCompatible_of_absorbSet {x y : FieldSet Selection} (hx : DistinctSet x)
    (hy : DistinctSet y)
    (hfields : ∀ name s, (name, s) ∈ x.fields → ∀ {t}, t.Distinct →
      (s.absorb t).2 = none → s.Compatible t)
    (h : (absorbSet x y).2 = none) : SetCompatible x y := by
  have htype := typeName_eq_of_absorbSet h
  obtain ⟨n, l⟩ := x
  obtain ⟨n', m⟩ := y
  obtain rfl : n = n' := htype
  rw [absorbSet_self] at h
  refine ⟨rfl, ?_⟩
  intro name s t hs ht
  exact hfields name s hs (hy.values name t ht) (faultless_of_absorbPairs hx hy h hs ht)

/-- **Only compatible selections merge.** -/
theorem compatible_of_absorb (ha : a.Distinct) :
    ∀ {b}, b.Distinct → (a.absorb b).2 = none → a.Compatible b := by
  induction ha with
  | whole =>
    intro b _ _
    exact .whole_left
  | @struct type l hkeys hvalues ih =>
    intro b hb h
    cases b with
    | whole => exact .whole_right
    | union => simp [Selection.absorb] at h
    | struct y =>
      rw [Selection.absorb] at h
      exact compatible_struct_iff.2
        (setCompatible_of_absorbSet ⟨hkeys, hvalues⟩ (distinct_struct_iff.1 hb) ih h)
  | @union type l hkeys hfields hvalues ih =>
    intro b hb h
    cases b with
    | whole => exact .whole_right
    | struct => simp [Selection.absorb] at h
    | union other m =>
      have ha : Distinct (.union type l) := .union hkeys hfields hvalues
      have hl := distinct_union_iff.1 ha
      have hm := distinct_union_iff.1 hb
      by_cases htype : type = other
      · subst htype
        rw [absorb_union] at h
        refine compatible_union_iff.2 ⟨rfl, ?_⟩
        intro member x y hx hy
        exact setCompatible_of_absorbSet (hl.values member x hx) (hm.values member y hy)
          (fun name s => ih member x name s hx) (faultless_of_absorbPairs hl hm h hx hy)
      · simp [Selection.absorb, htype] at h

/-! ## The laws -/

theorem exists_merge_iff (ha : a.Distinct) (hb : b.Distinct) :
    (∃ r, a.merge b = .ok r) ↔ a.Compatible b := by
  constructor
  · rintro ⟨r, hr⟩
    refine compatible_of_absorb ha hb ?_
    rw [merge_eq_ok_iff.1 hr]
  · intro h
    refine ⟨(a.absorb b).1, merge_eq_ok_iff.2 ?_⟩
    rw [← (h.joins ha hb).faultless]

/-- **What two selections merge to is their join.** -/
theorem isJoin_of_merge (ha : a.Distinct) (hb : b.Distinct) (h : a.merge b = .ok r) :
    r.Distinct ∧ IsJoin Covers a b r := by
  have hjoins := ((exists_merge_iff ha hb).1 ⟨r, h⟩).joins ha hb
  rw [merge_eq_ok_iff.1 h] at hjoins
  exact ⟨hjoins.keeps, hjoins.isJoin⟩

/-- Joins of the same selections are the same. -/
theorem IsJoin.same (hr : r.Distinct) (hs : s.Distinct) (h : IsJoin Covers a b r)
    (h' : IsJoin Covers a b s) : r.same s = true := by
  rw [same_iff_covers hr hs]
  exact ⟨h'.least r h.left h.right, h.least s h'.left h'.right⟩

theorem IsJoin.symm (h : IsJoin Covers a b r) : IsJoin Covers b a r :=
  ⟨h.right, h.left, fun u hb ha => h.least u ha hb⟩

/-- A join of joins is over all three, and the least that is. -/
theorem IsJoin.covers_of_assoc {ab bc left right : Selection} (hab : IsJoin Covers a b ab)
    (hleft : IsJoin Covers ab c left) (hbc : IsJoin Covers b c bc)
    (hright : IsJoin Covers a bc right) : left.Covers right := by
  have ha : left.Covers a := hleft.left.trans hab.left
  have hb : left.Covers b := hleft.left.trans hab.right
  exact hright.least left ha (hbc.least left hb hleft.right)

/-- **Selections that merge pairwise merge in any order**, and to the same. -/
theorem merge_assoc (ha : a.Distinct) (hb : b.Distinct) (hc : c.Distinct)
    (hab : a.Compatible b) (hbc : b.Compatible c) (hac : a.Compatible c) :
    ∃ ab bc left right, a.merge b = .ok ab ∧ ab.merge c = .ok left ∧ b.merge c = .ok bc ∧
      a.merge bc = .ok right ∧ left.same right = true := by
  obtain ⟨ab, hmab⟩ := (exists_merge_iff ha hb).2 hab
  obtain ⟨bc, hmbc⟩ := (exists_merge_iff hb hc).2 hbc
  obtain ⟨hdab, hjab⟩ := isJoin_of_merge ha hb hmab
  obtain ⟨hdbc, hjbc⟩ := isJoin_of_merge hb hc hmbc
  -- both joins are compatible with the third selection
  have habc : ab.Compatible c := by
    have h := hab.absorb ha hb hac hbc
    rwa [merge_eq_ok_iff.1 hmab] at h
  have hbca : bc.Compatible a := by
    have h := hbc.absorb hb hc hab.symm hac.symm
    rwa [merge_eq_ok_iff.1 hmbc] at h
  obtain ⟨left, hmleft⟩ := (exists_merge_iff hdab hc).2 habc
  obtain ⟨right, hmright⟩ := (exists_merge_iff ha hdbc).2 hbca.symm
  obtain ⟨hdleft, hjleft⟩ := isJoin_of_merge hdab hc hmleft
  obtain ⟨hdright, hjright⟩ := isJoin_of_merge ha hdbc hmright
  refine ⟨ab, bc, left, right, hmab, hmleft, hmbc, hmright, ?_⟩
  rw [same_iff_covers hdleft hdright]
  exact ⟨hjab.covers_of_assoc hjleft hjbc hjright,
    hjbc.symm.covers_of_assoc hjright.symm hjab.symm hjleft.symm⟩

/-- **A selection keeps what it merges with just if it covers it.** -/
theorem merge_same_left_iff (ha : a.Distinct) (hb : b.Distinct) :
    (∃ r, a.merge b = .ok r ∧ r.same a = true) ↔ a.Covers b := by
  constructor
  · rintro ⟨r, hr, hsame⟩
    obtain ⟨hdr, hjoin⟩ := isJoin_of_merge ha hb hr
    exact ((same_iff_covers hdr ha).1 hsame).2.trans hjoin.right
  · intro h
    have hrefl := Covers.refl ha
    exact ⟨a, merge_eq_ok_iff.2 h.absorb_eq, (same_iff_covers ha ha).2 ⟨hrefl, hrefl⟩⟩

/-- **Merging is a join** on selections that list no name twice, with equality that leaves the order
aside. It is idempotent and commutative, the whole value takes in everything, selections that merge
pairwise merge in any order, and what two selections merge to is the least that covers both: so a
selection stays as it is just if it covers the other. -/
theorem merge_join (a b c : Selection) (ha : a.Distinct) (hb : b.Distinct) (hc : c.Distinct) :
    (∃ r, a.merge a = .ok r ∧ r.same a = true) ∧
      ((∃ r, a.merge b = .ok r) ↔ ∃ r, b.merge a = .ok r) ∧
      (∀ r s, a.merge b = .ok r → b.merge a = .ok s → r.same s = true) ∧
      (a.merge .whole = .ok .whole ∧ whole.merge a = .ok .whole) ∧
      ((∃ r, a.merge b = .ok r) → (∃ r, b.merge c = .ok r) → (∃ r, a.merge c = .ok r) →
        ∃ ab bc left right, a.merge b = .ok ab ∧ ab.merge c = .ok left ∧ b.merge c = .ok bc ∧
          a.merge bc = .ok right ∧ left.same right = true) ∧
      (∀ r, a.merge b = .ok r → IsJoin Covers a b r) ∧
      ((∃ r, a.merge b = .ok r ∧ r.same a = true) ↔ a.Covers b) := by
  refine ⟨(merge_same_left_iff ha ha).2 (.refl ha), ?_, ?_,
    ⟨merge_eq_ok_iff.2 (absorb_whole a), merge_eq_ok_iff.2 (whole_absorb a)⟩, ?_, ?_,
    merge_same_left_iff ha hb⟩
  · rw [exists_merge_iff ha hb, exists_merge_iff hb ha]
    exact ⟨Compatible.symm, Compatible.symm⟩
  · intro r s hr hs
    obtain ⟨hdr, hjoin⟩ := isJoin_of_merge ha hb hr
    obtain ⟨hds, hjoin'⟩ := isJoin_of_merge hb ha hs
    exact hjoin.same hdr hds hjoin'.symm
  · rw [exists_merge_iff ha hb, exists_merge_iff hb hc, exists_merge_iff ha hc]
    exact merge_assoc ha hb hc
  · intro r hr
    exact (isJoin_of_merge ha hb hr).2

end

/-- The selection `s { … }` of a struct `T`, with some fields of a struct `S`. -/
def withinS (names : List Name) : Selection :=
  .struct ⟨⟨"T", .refl true⟩, [(⟨"s", .refl true⟩,
    .struct ⟨⟨"S", .refl true⟩, names.map fun name => (name, .whole)⟩)]⟩

theorem distinct_withinS {names : List Name} (h : names.Nodup) : (withinS names).Distinct := by
  have hinner : DistinctPairs Distinct (names.map fun name => (name, Selection.whole)) := by
    refine ⟨by simpa [Function.comp_def] using h, ?_⟩
    intro name s hs
    obtain ⟨_, -, he⟩ := List.mem_map.1 hs
    cases he
    exact .whole
  refine distinct_struct_iff.2 ⟨by simp, ?_⟩
  intro name s hs
  cases List.mem_singleton.1 hs
  exact distinct_struct_iff.2 hinner

/-- The selections `s { x }`, `s { y }` and `s { y z }` merge in any order. -/
theorem merge_join_withinS :
    ((withinS [⟨"x", by decide⟩]).Distinct ∧ (withinS [⟨"y", by decide⟩]).Distinct ∧
      (withinS [⟨"y", by decide⟩, ⟨"z", by decide⟩]).Distinct) ∧
    ∃ ab bc left right,
      (withinS [⟨"x", by decide⟩]).merge (withinS [⟨"y", by decide⟩]) = .ok ab ∧
      ab.merge (withinS [⟨"y", by decide⟩, ⟨"z", by decide⟩]) = .ok left ∧
      (withinS [⟨"y", by decide⟩]).merge (withinS [⟨"y", by decide⟩, ⟨"z", by decide⟩]) = .ok bc ∧
      (withinS [⟨"x", by decide⟩]).merge bc = .ok right ∧ left.same right = true := by
  have hx : (withinS [⟨"x", by decide⟩]).Distinct := distinct_withinS (by simp)
  have hy : (withinS [⟨"y", by decide⟩]).Distinct := distinct_withinS (by simp)
  have hyz : (withinS [⟨"y", by decide⟩, ⟨"z", by decide⟩]).Distinct := distinct_withinS (by decide)
  obtain ⟨-, -, -, -, hassoc, -⟩ := merge_join _ _ _ hx hy hyz
  exact ⟨⟨hx, hy, hyz⟩, hassoc ⟨_, by with_unfolding_all rfl⟩
    ⟨_, by with_unfolding_all rfl⟩ ⟨_, by with_unfolding_all rfl⟩⟩

end StructQL.Selection
