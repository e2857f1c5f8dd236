import StructQL.Proofs.Selection.Join

/-!
# Merging up to a fault

A selection takes in others one after another, and stops at the first that is of another type
somewhere. What was merged before stays, and later calls go on from there.

* `Selection.part?`: what a selection has at the end of a path.
* `Grows`: what a step leaves covers what was there, and has nothing that is not of one of both.
* `grows_absorbPairs`, `Distinct.grows`: **one selection taken in, up to a fault or all of it.**
* `absorbAll_of_faulty`: a list is taken in up to the selection that fails.
* `failing_merge_never_narrows`: **however many calls fail, none makes a selection narrower.**
-/

namespace StructQL.Selection

/-- A step down into a selection. -/
inductive Step where
  | member (name : Name)
  | field (name : Name)
deriving DecidableEq

/-- What stands at one place of a selection. -/
inductive Part where
  | whole
  | fields (typeName : Name)
  | union (unionName : Name)
deriving DecidableEq

/-- **What a selection has at the end of a path**, if it has the members and fields on the way. -/
def part? : Selection → List Step → Option Part
  | whole, [] => some .whole
  | struct set, [] => some (.fields set.typeName)
  | struct set, .field name :: path => (set.fields.lookup name).bind fun s => s.part? path
  | union unionName _, [] => some (.union unionName)
  | union _ members, [.member name] =>
    (members.lookup name).map fun set => .fields set.typeName
  | union _ members, .member name :: .field field :: path =>
    (members.lookup name).bind fun set => (set.fields.lookup field).bind fun s => s.part? path
  | _, _ => none

/-- The same within a set of fields. -/
def partOfSet? (set : FieldSet Selection) : List Step → Option Part
  | [] => some (.fields set.typeName)
  | .field name :: path => (set.fields.lookup name).bind fun s => s.part? path
  | .member _ :: _ => none

/-- The same below a key. -/
def partBelow? {α : Type} (part : α → List Step → Option Part) (l : List (Name × α))
    (place : Name × List Step) : Option Part :=
  (l.lookup place.1).bind fun value => part value place.2

/-- **What stands in place of `a` once some of `b` was taken in**: it covers `a`, and what it has
anywhere is there in `a` or in `b`. -/
structure Grows {α κ : Type} (P : α → Prop) (R : α → α → Prop) (part : α → κ → Option Part)
    (a b r : α) : Prop where
  keeps : P r
  covers : R r a
  comes : ∀ place p, part r place = some p → part a place = some p ∨ part b place = some p

section

variable {a b s t : Selection} {type : Name} {path : List Step} {p : Part}

theorem part?_struct (set : FieldSet Selection) (path : List Step) :
    part? (.struct set) path = partOfSet? set path := by
  rcases path with _ | ⟨_ | _, _⟩ <;> rfl

theorem part?_union_member (members : List (Name × FieldSet Selection)) (name : Name)
    (path : List Step) :
    part? (.union type members) (.member name :: path) =
      partBelow? partOfSet? members (name, path) := by
  rcases path with _ | ⟨_ | _, _⟩
  · simp only [part?, partBelow?, partOfSet?]
    cases members.lookup name <;> rfl
  · simp [part?, partBelow?, partOfSet?]
  · rfl

/-! ## Key by key -/

/-- **Pairs grow** if the values of every shared key do, however far the walk comes. -/
theorem grows_absorbPairs {α : Type} {P : α → Prop} {R : α → α → Prop}
    {part : α → List Step → Option Part} {f : α → α → Absorbed α} {l m : List (Name × α)}
    (hl : DistinctPairs P l) (hm : DistinctPairs P m) (hrefl : ∀ s, P s → R s s)
    (h : ∀ name s t, (name, s) ∈ l → (name, t) ∈ m → Grows P R part s t (f s t).1) :
    Grows (DistinctPairs P) (PairsCover R) (partBelow? part) l m (absorbPairs f l m).1 := by
  have hnodup : ((absorbPairs f l m).1.map Prod.fst).Nodup := nodup_absorbPairs hl.keys m
  have hshared : ∀ name s t, l.lookup name = some s → m.lookup name = some t →
      Grows P R part s t (f s t).1 := by
    intro name s t hs ht
    exact h name s t (Pairs.mem_of_lookup hs) (Pairs.mem_of_lookup ht)
  refine ⟨⟨hnodup, ?_⟩, ⟨keys_subset_absorbPairs l m, ?_⟩, ?_⟩
  · intro name v hv
    rcases lookup_absorbPairs_cases hm.keys (Pairs.lookup_of_mem hnodup hv) with
      hs | ⟨-, ht⟩ | ⟨s, t, hs, ht, rfl⟩
    · exact hl.values name v (Pairs.mem_of_lookup hs)
    · exact hm.values name v (Pairs.mem_of_lookup ht)
    · exact (hshared name s t hs ht).keeps
  · intro name v old hv hold
    have hlookup : l.lookup name = some old := Pairs.lookup_of_mem hl.keys hold
    rcases lookup_absorbPairs_cases hm.keys (Pairs.lookup_of_mem hnodup hv) with
      hs | ⟨hnone, -⟩ | ⟨s, t, hs, ht, rfl⟩
    · obtain rfl : old = v := by simpa [hlookup] using hs
      exact hrefl old (hl.values name old hold)
    · simp [hlookup] at hnone
    · obtain rfl : old = s := by simpa [hlookup] using hs
      exact (hshared name old t hlookup ht).covers
  · rintro ⟨name, path⟩ p hp
    obtain ⟨v, hv, hpart⟩ := Option.bind_eq_some_iff.1 hp
    rcases lookup_absorbPairs_cases hm.keys hv with hs | ⟨-, ht⟩ | ⟨s, t, hs, ht, rfl⟩
    · exact .inl (Option.bind_eq_some_iff.2 ⟨v, hs, hpart⟩)
    · exact .inr (Option.bind_eq_some_iff.2 ⟨v, ht, hpart⟩)
    · rcases (hshared name s t hs ht).comes path p hpart with hleft | hright
      · exact .inl (Option.bind_eq_some_iff.2 ⟨s, hs, hleft⟩)
      · exact .inr (Option.bind_eq_some_iff.2 ⟨t, ht, hright⟩)

/-! ## One selection -/

theorem Grows.refl (ha : a.Distinct) : Grows Distinct Covers part? a b a :=
  ⟨ha, .refl ha, fun _ _ h => .inl h⟩

theorem Grows.refl_set {x y : FieldSet Selection} (hx : DistinctSet x) :
    Grows DistinctSet SetCovers partOfSet? x y x :=
  ⟨hx, setCovers_refl hx, fun _ _ h => .inl h⟩

/-- A set of fields grows if the fields do. -/
theorem grows_absorbSet {x y : FieldSet Selection} (hx : DistinctSet x) (hy : DistinctSet y)
    (h : ∀ name s t, (name, s) ∈ x.fields → (name, t) ∈ y.fields →
      Grows Distinct Covers part? s t (s.absorb t).1) :
    Grows DistinctSet SetCovers partOfSet? x y (absorbSet x y).1 := by
  obtain ⟨n, l⟩ := x
  obtain ⟨n', m⟩ := y
  by_cases htype : n = n'
  · subst htype
    have hfields := grows_absorbPairs hx hy (fun _ => Covers.refl) h
    rw [absorbSet_self]
    refine ⟨hfields.keeps, ⟨rfl, hfields.covers⟩, ?_⟩
    rintro (_ | ⟨name | name, path⟩) p hp
    · exact .inl hp
    · cases hp
    · exact hfields.comes (name, path) p hp
  · rw [absorbSet, if_neg htype]
    exact .refl_set hx

/-- A selection grows to the whole value when it takes this in. -/
theorem Grows.whole : Grows Distinct Covers part? a .whole (a.absorb .whole).1 := by
  rw [absorb_whole]
  exact ⟨.whole, .whole, fun _ _ h => .inr h⟩

/-- The selection of a struct grows if its set of fields does. -/
theorem grows_struct {x y : FieldSet Selection}
    (h : Grows DistinctSet SetCovers partOfSet? x y (absorbSet x y).1) :
    Grows Distinct Covers part? (.struct x) (.struct y) (absorb (.struct x) (.struct y)).1 := by
  rw [absorb]
  refine ⟨distinct_struct_iff.2 h.keeps, covers_struct_iff.2 h.covers, ?_⟩
  intro path p hp
  rw [part?_struct] at hp ⊢
  rw [part?_struct]
  exact h.comes path p hp

/-- The selection of a struct union grows if its members do. -/
theorem grows_union {l m : List (Name × FieldSet Selection)}
    (h : Grows (DistinctPairs DistinctSet) (PairsCover SetCovers) (partBelow? partOfSet?) l m
      (absorbPairs absorbSet l m).1) :
    Grows Distinct Covers part? (.union type l) (.union type m)
      (absorb (.union type l) (.union type m)).1 := by
  rw [absorb_union]
  refine ⟨distinct_union_iff.2 h.keeps, covers_union_iff.2 ⟨rfl, h.covers⟩, ?_⟩
  rintro (_ | ⟨name | name, path⟩) p hp
  · exact .inl hp
  · rw [part?_union_member] at hp ⊢
    rw [part?_union_member]
    exact h.comes (name, path) p hp
  · simp [part?] at hp

/-- **A selection grows when it takes in another one**, up to a fault or all of it. -/
theorem Distinct.grows (ha : a.Distinct) :
    ∀ {b}, b.Distinct → Grows Distinct Covers part? a b (a.absorb b).1 := by
  induction ha with
  | whole =>
    intro b _
    rw [whole_absorb]
    exact .refl .whole
  | @struct type l hkeys hvalues ih =>
    intro b hb
    cases b with
    | whole => exact .whole
    | union =>
      rw [absorb]
      exact .refl (.struct hkeys hvalues)
    | struct y =>
      have hm : DistinctSet y := distinct_struct_iff.1 hb
      refine grows_struct (grows_absorbSet ⟨hkeys, hvalues⟩ hm ?_)
      intro name s t hs ht
      exact ih name s hs (hm.values name t ht)
  | @union type l hkeys hfields hvalues ih =>
    intro b hb
    have ha : Distinct (.union type l) := .union hkeys hfields hvalues
    cases b with
    | whole => exact .whole
    | struct =>
      rw [absorb]
      exact .refl ha
    | union other m =>
      by_cases htype : type = other
      · subst htype
        have hl := distinct_union_iff.1 ha
        have hm := distinct_union_iff.1 hb
        refine grows_union (grows_absorbPairs hl hm (fun _ => setCovers_refl) ?_)
        intro member x y hx hy
        have hset := hm.values member y hy
        refine grows_absorbSet (hl.values member x hx) hset ?_
        intro name s t hs ht
        exact ih member x name s hx hs (hset.values name t ht)
      · rw [absorb, if_neg htype]
        exact .refl ha

/-! ## One call -/

theorem absorbAll_cons {other : Selection} {rest : List Selection}
    (h : (s.absorb other).2 = none) :
    s.absorbAll (other :: rest) = (s.absorb other).1.absorbAll rest := by
  rw [absorbAll]
  rcases hr : s.absorb other with ⟨new, _ | fault⟩
  · rfl
  · simp [hr] at h

theorem absorbAll_cons_of_fault {other : Selection} {rest : List Selection} {fault : Fault}
    (h : (s.absorb other).2 = some fault) :
    s.absorbAll (other :: rest) = s.absorb other := by
  rw [absorbAll]
  rcases hr : s.absorb other with ⟨new, _ | fault⟩
  · simp [hr] at h
  · rfl

/-- **A list that is not taken in** is taken in up to the selection that fails, and some of it. -/
theorem absorbAll_of_faulty {others : List Selection} {fault : Fault}
    (h : (s.absorbAll others).2 = some fault) :
    ∃ taken failing left, others = taken ++ failing :: left ∧ (s.absorbAll taken).2 = none ∧
      ((s.absorbAll taken).1.absorb failing).2 = some fault ∧
      s.absorbAll others = (s.absorbAll taken).1.absorb failing := by
  induction others generalizing s with
  | nil => simp [absorbAll] at h
  | cons other rest ih =>
    cases hother : (s.absorb other).2 with
    | some first =>
      rw [absorbAll_cons_of_fault hother] at h ⊢
      exact ⟨[], other, rest, rfl, rfl, h, rfl⟩
    | none =>
      rw [absorbAll_cons hother] at h ⊢
      obtain ⟨taken, failing, left, rfl, htaken, hfailing, heq⟩ := ih h
      refine ⟨other :: taken, failing, left, rfl, ?_⟩
      rw [absorbAll_cons hother]
      exact ⟨htaken, hfailing, heq⟩

/-- **What a call leaves** covers what was there, and has nothing that is not of it or of a
selection of the call. -/
theorem grows_absorbAll {others : List Selection} (hs : s.Distinct)
    (hothers : ∀ t ∈ others, t.Distinct) :
    (s.absorbAll others).1.Distinct ∧ (s.absorbAll others).1.Covers s ∧
      ∀ path p, (s.absorbAll others).1.part? path = some p →
        ∃ t ∈ s :: others, t.part? path = some p := by
  induction others generalizing s with
  | nil => exact ⟨hs, .refl hs, fun path p hp => ⟨s, List.mem_cons_self, hp⟩⟩
  | cons other rest ih =>
    have hstep := hs.grows (hothers other List.mem_cons_self)
    cases hother : (s.absorb other).2 with
    | some fault =>
      rw [absorbAll_cons_of_fault hother]
      refine ⟨hstep.keeps, hstep.covers, ?_⟩
      intro path p hp
      rcases hstep.comes path p hp with h | h
      · exact ⟨s, by simp, h⟩
      · exact ⟨other, by simp, h⟩
    | none =>
      rw [absorbAll_cons hother]
      obtain ⟨hkeeps, hcovers, hcomes⟩ :=
        ih hstep.keeps fun t ht => hothers t (List.mem_cons_of_mem _ ht)
      refine ⟨hkeeps, hcovers.trans hstep.covers, ?_⟩
      intro path p hp
      obtain ⟨t, ht, hpart⟩ := hcomes path p hp
      rcases List.mem_cons.1 ht with rfl | ht
      · rcases hstep.comes path p hpart with h | h
        · exact ⟨s, by simp, h⟩
        · exact ⟨other, by simp, h⟩
      · exact ⟨t, by simp [ht], hpart⟩

/-- A call that succeeds leaves a selection that covers all of the call. -/
theorem covers_absorbAll {others : List Selection} (hs : s.Distinct)
    (hothers : ∀ t ∈ others, t.Distinct) (h : (s.absorbAll others).2 = none) :
    ∀ t ∈ others, (s.absorbAll others).1.Covers t := by
  induction others generalizing s with
  | nil => simp
  | cons other rest ih =>
    have hother : (s.absorb other).2 = none := by
      by_contra hfault
      obtain ⟨fault, hfault⟩ := Option.ne_none_iff_exists'.1 hfault
      rw [absorbAll_cons_of_fault hfault, hfault] at h
      cases h
    have hd : other.Distinct := hothers other List.mem_cons_self
    have hrest : ∀ t ∈ rest, t.Distinct := fun t ht => hothers t (List.mem_cons_of_mem _ ht)
    obtain ⟨hjoined, hjoin⟩ := isJoin_of_merge hs hd (merge_eq_ok_iff.2 (Prod.ext rfl hother))
    rw [absorbAll_cons hother] at h ⊢
    intro t ht
    rcases List.mem_cons.1 ht with rfl | ht
    · exact (grows_absorbAll hjoined hrest).2.1.trans hjoin.right
    · exact ih hjoined hrest h t ht

/-! ## Call after call -/

/-- What calls leave, each going on from what the one before left, whether or not it failed. -/
def afterCalls (s : Selection) (calls : List (List Selection)) : Selection :=
  calls.foldl (fun state call => (state.absorbAll call).1) s

/-- Merging the other one in succeeds, and changes nothing but for the order of names. -/
def Includes (a b : Selection) : Prop := ∃ r, a.merge b = .ok r ∧ r.same a = true

/-- **What a call keeps**: the selection before it, and of the selections of the call all, or those
before the one that fails; and then it has nothing but what is in these or in that one. -/
structure CallKeeps (before : Selection) (call : List Selection) (after : Selection) : Prop where
  widens : Includes after before
  succeeds : (before.absorbAll call).2 = none → ∀ s ∈ call, Includes after s
  fails : ∀ fault, (before.absorbAll call).2 = some fault →
    ∃ taken failing left, call = taken ++ failing :: left ∧
      (before.absorbAll taken).2 = none ∧
      ((before.absorbAll taken).1.absorb failing).2 = some fault ∧
      (∀ s ∈ taken, Includes after s) ∧
      ∀ path p, after.part? path = some p →
        ∃ s ∈ before :: taken ++ [failing], s.part? path = some p

theorem distinct_afterCalls {calls : List (List Selection)} (hs : s.Distinct)
    (hcalls : ∀ call ∈ calls, ∀ t ∈ call, t.Distinct) : (s.afterCalls calls).Distinct := by
  induction calls generalizing s with
  | nil => exact hs
  | cons call rest ih =>
    have hcall := (grows_absorbAll hs (hcalls call List.mem_cons_self)).1
    exact ih hcall fun other hother => hcalls other (List.mem_cons_of_mem _ hother)

theorem callKeeps_absorbAll {call : List Selection} (hs : s.Distinct)
    (hcall : ∀ t ∈ call, t.Distinct) : CallKeeps s call (s.absorbAll call).1 := by
  obtain ⟨hafter, hcovers, -⟩ := grows_absorbAll hs hcall
  have hincludes : ∀ {t}, t.Distinct → (s.absorbAll call).1.Covers t →
      Includes (s.absorbAll call).1 t := fun ht h => (merge_same_left_iff hafter ht).2 h
  refine ⟨hincludes hs hcovers, ?_, ?_⟩
  · intro hnone t ht
    exact hincludes (hcall t ht) (covers_absorbAll hs hcall hnone t ht)
  · intro fault hfault
    obtain ⟨taken, failing, left, rfl, htaken, hfailing, heq⟩ := absorbAll_of_faulty hfault
    have hdtaken : ∀ t ∈ taken, t.Distinct := fun t ht => hcall t (by simp [ht])
    obtain ⟨hmiddle, -, hcomes⟩ := grows_absorbAll hs hdtaken
    have hstep := hmiddle.grows (hcall failing (by simp))
    rw [heq] at hincludes ⊢
    refine ⟨taken, failing, left, rfl, htaken, hfailing, ?_, ?_⟩
    · intro t ht
      exact hincludes (hdtaken t ht)
        (hstep.covers.trans (covers_absorbAll hs hdtaken htaken t ht))
    · intro path p hp
      rcases hstep.comes path p hp with hpart | hpart
      · obtain ⟨t, ht, hpart⟩ := hcomes path p hpart
        exact ⟨t, List.mem_append_left _ ht, hpart⟩
      · exact ⟨failing, by simp, hpart⟩

/-- **However many calls fail, none makes a selection narrower.** After every call of a sequence the
selection covers what it was before the call. If the call succeeds it covers every selection of the
call, and otherwise every one before that which fails, and all that it has comes from what it was
or from the call up to that one. -/
theorem failing_merge_never_narrows (start : Selection) (calls : List (List Selection))
    (hstart : start.Distinct) (hcalls : ∀ call ∈ calls, ∀ s ∈ call, s.Distinct) :
    ∀ done call rest, calls = done ++ call :: rest →
      CallKeeps (start.afterCalls done) call (start.afterCalls (done ++ [call])) := by
  rintro done call rest rfl
  have hbefore : (start.afterCalls done).Distinct :=
    distinct_afterCalls hstart fun other hother => hcalls other (by simp [hother])
  have hafter : start.afterCalls (done ++ [call]) = ((start.afterCalls done).absorbAll call).1 := by
    simp [afterCalls]
  rw [hafter]
  exact callKeeps_absorbAll hbefore (hcalls call (by simp))

end

/-- The selection `n s { y }` of the struct `T`, with `s` of another struct than `withinS` has. -/
def outsideS : Selection :=
  .struct ⟨⟨"T", .refl true⟩, [(⟨"n", .refl true⟩, .whole), (⟨"s", .refl true⟩,
    .struct ⟨⟨"R", .refl true⟩, [(⟨"y", .refl true⟩, .whole)]⟩)]⟩

theorem distinct_outsideS : outsideS.Distinct := by
  have hinner : Distinct (.struct ⟨⟨"R", .refl true⟩, [(⟨"y", .refl true⟩, .whole)]⟩) := by
    refine distinct_struct_iff.2 ⟨by simp, ?_⟩
    intro name s hs
    cases List.mem_singleton.1 hs
    exact .whole
  refine distinct_struct_iff.2 ⟨by decide, ?_⟩
  intro name s hs
  simp only [List.mem_cons, Prod.mk.injEq, List.not_mem_nil, or_false] at hs
  obtain ⟨-, rfl⟩ | ⟨-, rfl⟩ := hs
  · exact .whole
  · exact hinner

/-- Of `s { y }`, `n s { y }` of another struct, and `s { z }`, the second fails within `s` when its
`n` was taken in already. The third is left out until a later call takes it in. -/
theorem failing_merge_never_narrows_outsideS :
    ∃ x y z : Name, (withinS [x]).Distinct ∧
      (∀ call ∈ [[withinS [y], outsideS, withinS [z]], [withinS [z]]], ∀ s ∈ call, s.Distinct) ∧
      ((withinS [x]).absorbAll [withinS [y], outsideS, withinS [z]]).2.isSome = true ∧
      CallKeeps (withinS [x]) [withinS [y], outsideS, withinS [z]]
        ((withinS [x]).afterCalls [[withinS [y], outsideS, withinS [z]]]) ∧
      CallKeeps ((withinS [x]).afterCalls [[withinS [y], outsideS, withinS [z]]]) [withinS [z]]
        ((withinS [x]).afterCalls [[withinS [y], outsideS, withinS [z]], [withinS [z]]]) := by
  refine ⟨⟨"x", by decide⟩, ⟨"y", by decide⟩, ⟨"z", by decide⟩, ?_⟩
  have hwithin : ∀ name, (withinS [name]).Distinct := fun name =>
    distinct_withinS (List.nodup_singleton name)
  have hcalls : ∀ call ∈ [[withinS [⟨"y", by decide⟩], outsideS, withinS [⟨"z", by decide⟩]],
      [withinS [⟨"z", by decide⟩]]], ∀ s ∈ call, s.Distinct := by
    simp [hwithin, distinct_outsideS]
  have hkeeps := failing_merge_never_narrows (withinS [⟨"x", by decide⟩]) _ (hwithin _) hcalls
  exact ⟨hwithin _, hcalls, by decide +kernel, hkeeps [] _ _ rfl, hkeeps [_] _ [] rfl⟩

end StructQL.Selection
