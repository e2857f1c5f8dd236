import StructQL.Reading.Rule

/-!
# What composed rules read

A composed rule reads, misses or stops as its parts do, one after the other.

* `Misses`, `Stops`: a rule does not fit at a place, and another one may or may not be tried.
* `bind_of_read`, `optional_of_read`, `many_of_read` and others: what a rule reads when its parts do.
* `exists_of_bind`, `exists_of_between`, `exists_of_firstOf` and others: what the parts have read when
  the rule has.
-/

namespace StructQL.Rule

variable {τ α β γ : Type} {p q : Rule τ α} {f : α → Rule τ β} {s m rest : List τ} {a : α} {b : β}

/-- The rule does not fit here, and another may be tried. -/
def Misses (p : Rule τ α) (s : List τ) : Prop := ∃ place, p s = .miss place

/-- The rule does not fit here, and no other is tried. -/
def Stops (p : Rule τ α) (s : List τ) : Prop := ∃ place, p s = .stop place

/-- A rule that reads does not miss. -/
theorem Misses.not_read (h : p.Misses s) : p s ≠ .read a rest := by
  obtain ⟨place, hp⟩ := h
  rw [hp]
  nofun

theorem Stops.not_read (h : p.Stops s) : p s ≠ .read a rest := by
  obtain ⟨place, hp⟩ := h
  rw [hp]
  nofun

/-! ## One after the other -/

theorem pure_apply (a : α) (s : List τ) : (pure a : Rule τ α) s = .read a s := rfl

theorem bind_of_read (h : p s = .read a m) : (p >>= f) s = f a m := by
  dsimp only [Bind.bind]
  rw [h]

theorem bind_of_misses (h : p.Misses s) : (p >>= f).Misses s := by
  obtain ⟨place, hp⟩ := h
  refine ⟨place, ?_⟩
  dsimp only [Bind.bind]
  rw [hp]

theorem bind_of_stops (h : p.Stops s) : (p >>= f).Stops s := by
  obtain ⟨place, hp⟩ := h
  refine ⟨place, ?_⟩
  dsimp only [Bind.bind]
  rw [hp]

theorem Misses.of_bind (h : p s = .read a m) (hf : (f a).Misses m) : (p >>= f).Misses s := by
  obtain ⟨place, hp⟩ := hf
  exact ⟨place, by rw [bind_of_read h, hp]⟩

theorem Stops.of_bind (h : p s = .read a m) (hf : (f a).Stops m) : (p >>= f).Stops s := by
  obtain ⟨place, hp⟩ := hf
  exact ⟨place, by rw [bind_of_read h, hp]⟩

theorem exists_of_bind (h : (p >>= f) s = .read b rest) :
    ∃ a m, p s = .read a m ∧ f a m = .read b rest := by
  cases hp : p s with
  | read a m => exact ⟨a, m, rfl, by rwa [bind_of_read hp] at h⟩
  | miss place => exact absurd h (bind_of_misses ⟨place, hp⟩).not_read
  | stop place => exact absurd h (bind_of_stops ⟨place, hp⟩).not_read

theorem exists_of_bind_pure {g : α → β} (h : (do let a ← p; return g a) s = .read b rest) :
    ∃ a, p s = .read a rest ∧ g a = b := by
  obtain ⟨a, m, hp, hpure⟩ := exists_of_bind h
  rw [pure_apply] at hpure
  cases hpure
  exact ⟨a, hp, rfl⟩

theorem bind_bind (p : Rule τ α) (f : α → Rule τ β) (g : β → Rule τ γ) (s : List τ) :
    (p >>= f >>= g) s = (p >>= fun a => f a >>= g) s := by
  dsimp only [Bind.bind]
  cases p s <;> rfl

theorem of_pure {a' : α} (h : (pure a : Rule τ α) s = .read a' rest) : a = a' ∧ s = rest := by
  rw [pure_apply] at h
  exact ⟨(Reading.read.inj h).1, (Reading.read.inj h).2⟩

/-! ## Items -/

theorem satisfy_reads_iff {test : τ → Bool} {t : τ} :
    satisfy test s = .read t m ↔ s = t :: m ∧ test t = true := by
  constructor
  · intro h
    cases s with
    | nil => cases h
    | cons b s =>
      by_cases hb : test b = true
      · rw [satisfy, if_pos hb] at h
        cases h
        exact ⟨rfl, hb⟩
      · rw [satisfy, if_neg hb] at h
        cases h
  · rintro ⟨rfl, ha⟩
    simp [satisfy, ha]

theorem satisfy_misses {test : τ → Bool} (h : ∀ a ∈ s.head?, test a = false) :
    (satisfy test).Misses s := by
  refine ⟨s, ?_⟩
  cases s with
  | nil => rfl
  | cons b s =>
    have hb : test b = false := h b rfl
    simp [satisfy, hb]

section Decidable

variable [DecidableEq τ]

theorem item_misses {t : τ} (h : s.head? ≠ some t) : (item t).Misses s := by
  refine bind_of_misses (satisfy_misses fun b hb => ?_)
  rw [decide_eq_false_iff_not]
  rintro rfl
  exact h hb

theorem item_reads_iff {t : τ} : item t s = .read () m ↔ s = t :: m := by
  constructor
  · intro h
    obtain ⟨b, r, hb, h⟩ := exists_of_bind h
    obtain ⟨-, rfl⟩ := of_pure h
    obtain ⟨rfl, htest⟩ := satisfy_reads_iff.1 hb
    rw [of_decide_eq_true htest]
  · rintro rfl
    have ht : satisfy (fun b => b = t) (t :: m) = .read t m :=
      satisfy_reads_iff.2 ⟨rfl, decide_eq_true rfl⟩
    exact bind_of_read ht

theorem items_reads_iff {l : List τ} : items l s = .read () m ↔ s = l ++ m := by
  unfold items
  constructor
  · intro h
    split at h
    · rename_i htake
      cases h
      have hsplit := List.take_append_drop l.length s
      rw [htake] at hsplit
      exact hsplit.symm
    · cases h
  · rintro rfl
    simp

theorem items_misses {l : List τ} (h : ¬ l <+: s) : (items l).Misses s := by
  refine ⟨s, if_neg fun htake => h ?_⟩
  exact List.prefix_iff_eq_take.2 htake.symm

end Decidable

/-- The longest sequence of items that pass the test is the one that none follows. -/
theorem takeWhile_eq_iff {test : τ → Bool} {l : List τ} :
    s.takeWhile test = l ∧ s.dropWhile test = m ↔
      s = l ++ m ∧ (∀ a ∈ l, test a = true) ∧ ∀ a ∈ m.head?, test a = false := by
  constructor
  · rintro ⟨rfl, rfl⟩
    refine ⟨List.takeWhile_append_dropWhile.symm, fun a ha => ?_, fun a ha => ?_⟩
    · exact List.all_eq_true.1 List.all_takeWhile a ha
    · have hnot := List.head?_dropWhile_not test s
      rw [Option.mem_def.1 ha] at hnot
      simpa using hnot
  · rintro ⟨rfl, hall, hend⟩
    rw [List.takeWhile_append_of_pos hall, List.dropWhile_append_of_pos hall]
    cases m with
    | nil => simp
    | cons b m =>
      have hb : test b = false := hend b rfl
      simp [hb]

theorem takeWhile_reads_iff {test : τ → Bool} {l : List τ} :
    takeWhile test s = .read l m ↔
      s = l ++ m ∧ (∀ a ∈ l, test a = true) ∧ ∀ a ∈ m.head?, test a = false := by
  rw [← takeWhile_eq_iff, takeWhile, Reading.read.injEq]

theorem takeWhile1_reads_iff {test : τ → Bool} {l : List τ} :
    takeWhile1 test s = .read l m ↔
      l ≠ [] ∧ s = l ++ m ∧ (∀ a ∈ l, test a = true) ∧ ∀ a ∈ m.head?, test a = false := by
  rw [← takeWhile_eq_iff]
  unfold takeWhile1
  constructor
  · intro h
    split at h
    · cases h
    · rename_i hne
      obtain ⟨rfl, rfl⟩ := Reading.read.inj h
      exact ⟨by simpa using hne, rfl, rfl⟩
  · rintro ⟨hne, rfl, rfl⟩
    rw [if_neg (by simpa using hne)]

theorem takeWhile1_misses {test : τ → Bool} (h : ∀ a ∈ s.head?, test a = false) :
    (takeWhile1 test).Misses s := by
  refine ⟨s, if_pos ?_⟩
  rw [(takeWhile_eq_iff.2 ⟨(List.nil_append s).symm, by simp, h⟩).1, List.isEmpty_nil]

/-! ## Choice -/

theorem orElse_of_read (h : p s = .read a rest) : orElse p q s = .read a rest := by
  unfold orElse
  rw [h]

theorem orElse_of_misses (h : p.Misses s) : orElse p q s = q s := by
  obtain ⟨place, hp⟩ := h
  unfold orElse
  rw [hp]

theorem orElse_of_stops (h : p.Stops s) : (orElse p q).Stops s := by
  obtain ⟨place, hp⟩ := h
  refine ⟨place, ?_⟩
  unfold orElse
  rw [hp]

/-- What a choice reads, the second rule reads where the first one misses. -/
theorem of_orElse (h : orElse p q s = .read a rest) :
    p s = .read a rest ∨ p.Misses s ∧ q s = .read a rest := by
  cases hp : p s with
  | read a' m => exact .inl (by rwa [orElse_of_read hp] at h)
  | miss place => exact .inr ⟨⟨place, hp⟩, by rwa [orElse_of_misses ⟨place, hp⟩] at h⟩
  | stop place => exact absurd h (orElse_of_stops ⟨place, hp⟩).not_read

theorem firstOf_cons_of_read {ps : List (Rule τ α)} (h : p s = .read a rest) :
    firstOf (p :: ps) s = .read a rest := by
  cases ps with
  | nil => exact h
  | cons _ _ => exact orElse_of_read h

theorem firstOf_cons_of_misses {ps : List (Rule τ α)} (h : p.Misses s) (hne : ps ≠ []) :
    firstOf (p :: ps) s = firstOf ps s := by
  cases ps with
  | nil => exact absurd rfl hne
  | cons _ _ => exact orElse_of_misses h

theorem firstOf_cons_of_stops {ps : List (Rule τ α)} (h : p.Stops s) :
    (firstOf (p :: ps)).Stops s := by
  cases ps with
  | nil => exact h
  | cons _ _ => exact orElse_of_stops h

/-- Rules that miss do not matter to a choice of them and others. -/
theorem firstOf_append_of_misses {before after : List (Rule τ α)} (h : ∀ p ∈ before, p.Misses s)
    (hne : after ≠ []) : firstOf (before ++ after) s = firstOf after s := by
  induction before with
  | nil => rfl
  | cons p before ih =>
    obtain ⟨hp, hbefore⟩ := List.forall_mem_cons.1 h
    rw [List.cons_append, firstOf_cons_of_misses hp (by simp [hne]), ih hbefore]

/-- A choice misses where all its rules do. -/
theorem firstOf_misses {ps : List (Rule τ α)} (h : ∀ p ∈ ps, p.Misses s) :
    (firstOf ps).Misses s := by
  induction ps with
  | nil => exact ⟨s, rfl⟩
  | cons p ps ih =>
    by_cases hne : ps = []
    · subst hne
      exact h p List.mem_cons_self
    · obtain ⟨place, hps⟩ := ih fun q hq => h q (List.mem_cons_of_mem _ hq)
      exact ⟨place, by rw [firstOf_cons_of_misses (h p List.mem_cons_self) hne, hps]⟩

/-- **What a choice reads, one of its rules reads**, and those before it miss. -/
theorem exists_of_firstOf {ps : List (Rule τ α)} (h : firstOf ps s = .read a rest) :
    ∃ before p after, ps = before ++ p :: after ∧ (∀ q ∈ before, q.Misses s) ∧
      p s = .read a rest := by
  induction ps with
  | nil => cases h
  | cons p ps ih =>
    by_cases hne : ps = []
    · subst hne
      exact ⟨[], p, [], rfl, by simp, h⟩
    · cases hp : p s with
      | read a' m =>
        rw [firstOf_cons_of_read hp] at h
        exact ⟨[], p, ps, rfl, by simp, hp.trans h⟩
      | miss place =>
        have hmiss : p.Misses s := ⟨place, hp⟩
        rw [firstOf_cons_of_misses hmiss hne] at h
        obtain ⟨before, r, after, rfl, hbefore, hr⟩ := ih h
        refine ⟨p :: before, r, after, rfl, fun q hq => ?_, hr⟩
        rcases List.mem_cons.1 hq with rfl | hq
        · exact hmiss
        · exact hbefore q hq
      | stop place => exact absurd h (firstOf_cons_of_stops ⟨place, hp⟩).not_read

theorem optional_of_read (h : p s = .read a rest) : optional p s = .read (some a) rest := by
  unfold optional
  rw [h]

theorem optional_of_misses (h : p.Misses s) : optional p s = .read none s := by
  obtain ⟨place, hp⟩ := h
  unfold optional
  rw [hp]

theorem optional_of_stops (h : p.Stops s) : (optional p).Stops s := by
  obtain ⟨place, hp⟩ := h
  refine ⟨place, ?_⟩
  unfold optional
  rw [hp]

theorem of_optional_stops (h : (optional p).Stops s) : p.Stops s := by
  cases hp : p s with
  | read a m =>
    obtain ⟨place, hplace⟩ := h
    rw [optional_of_read hp] at hplace
    cases hplace
  | miss place =>
    obtain ⟨place', hplace⟩ := h
    rw [optional_of_misses ⟨place, hp⟩] at hplace
    cases hplace
  | stop place => exact ⟨place, hp⟩

theorem of_optional {o : Option α} (h : optional p s = .read o rest) :
    (∃ a, o = some a ∧ p s = .read a rest) ∨ o = none ∧ s = rest ∧ p.Misses s := by
  cases hp : p s with
  | read a m =>
    rw [optional_of_read hp] at h
    cases h
    exact .inl ⟨a, rfl, rfl⟩
  | miss place =>
    rw [optional_of_misses ⟨place, hp⟩] at h
    cases h
    exact .inr ⟨rfl, rfl, place, hp⟩
  | stop place => exact absurd h (optional_of_stops ⟨place, hp⟩).not_read

/-- What is made of the value does not matter to what may be left out. -/
theorem optional_map_of_read {g : α → β} {o : Option α} (h : optional p s = .read o rest) :
    optional (do let a ← p; return g a) s = .read (o.map g) rest := by
  rcases of_optional h with ⟨a, rfl, hread⟩ | ⟨rfl, rfl, hmiss⟩
  · exact optional_of_read (bind_of_read hread)
  · exact optional_of_misses (bind_of_misses hmiss)

theorem optional_map_of_stops {g : α → β} (h : (optional p).Stops s) :
    (optional (do let a ← p; return g a)).Stops s :=
  optional_of_stops (bind_of_stops (of_optional_stops h))

theorem commit_of_read (h : p s = .read a rest) : commit p s = .read a rest := by
  unfold commit
  rw [h]

theorem commit_of_misses (h : p.Misses s) : (commit p).Stops s := by
  obtain ⟨place, hp⟩ := h
  refine ⟨place, ?_⟩
  unfold commit
  rw [hp]

theorem commit_of_stops (h : p.Stops s) : (commit p).Stops s := by
  obtain ⟨place, hp⟩ := h
  refine ⟨place, ?_⟩
  unfold commit
  rw [hp]

theorem of_commit (h : commit p s = .read a rest) : p s = .read a rest := by
  cases hp : p s with
  | read a' m => rwa [commit_of_read hp] at h
  | miss place => exact absurd h (commit_of_misses ⟨place, hp⟩).not_read
  | stop place => exact absurd h (commit_of_stops ⟨place, hp⟩).not_read

theorem notHere_of_misses (h : p.Misses s) : notHere p s = .read () s := by
  obtain ⟨place, hp⟩ := h
  unfold notHere
  rw [hp]

theorem notHere_of_read (h : p s = .read a rest) : (notHere p).Misses s := by
  refine ⟨s, ?_⟩
  unfold notHere
  rw [h]

theorem of_notHere {u : Unit} (h : notHere p s = .read u rest) : p.Misses s ∧ s = rest := by
  unfold notHere at h
  split at h
  · cases h
  · rename_i place hp
    cases h
    exact ⟨⟨place, hp⟩, rfl⟩
  · cases h

theorem refine_of_read {g : α → Option β} (h : p s = .read a rest) (hg : g a = some b) :
    refine p g s = .read b rest := by
  unfold Rule.refine
  rw [h]
  dsimp only
  rw [hg]

theorem refine_of_misses {g : α → Option β} (h : p.Misses s) : (refine p g).Misses s := by
  obtain ⟨place, hp⟩ := h
  refine ⟨place, ?_⟩
  unfold Rule.refine
  rw [hp]

theorem refine_of_none {g : α → Option β} (h : p s = .read a rest) (hg : g a = none) :
    (refine p g).Misses s := by
  refine ⟨s, ?_⟩
  unfold Rule.refine
  rw [h]
  dsimp only
  rw [hg]

theorem exists_of_refine {g : α → Option β} (h : refine p g s = .read b rest) :
    ∃ a, p s = .read a rest ∧ g a = some b := by
  unfold Rule.refine at h
  split at h
  · rename_i a m hp
    split at h
    · rename_i b' hg
      cases h
      exact ⟨a, hp, hg⟩
    · cases h
  · cases h
  · cases h

/-! ## Between -/

variable {opening : Rule τ β} {closing : Rule τ γ} {c : γ} {m' : List τ}

theorem between_of_read (ho : opening s = .read b m) (hp : p m = .read a m')
    (hc : closing m' = .read c rest) : between opening p closing s = .read a rest := by
  unfold between
  rw [bind_of_read ho, bind_of_read hp, bind_of_read hc, pure_apply]

theorem between_of_misses (h : opening.Misses s) : (between opening p closing).Misses s :=
  bind_of_misses h

theorem exists_of_between (h : between opening p closing s = .read a rest) :
    ∃ b m m' c, opening s = .read b m ∧ p m = .read a m' ∧ closing m' = .read c rest := by
  obtain ⟨b, m, ho, h⟩ := exists_of_bind h
  obtain ⟨a', m', hp, h⟩ := exists_of_bind h
  obtain ⟨c, r, hc, h⟩ := exists_of_bind h
  obtain ⟨rfl, rfl⟩ := of_pure h
  exact ⟨b, m, m', c, ho, hp, hc⟩

/-! ## Repetition -/

theorem many_of_misses (h : p.Misses s) : many p s = .read [] s := by
  obtain ⟨place, hp⟩ := h
  rw [many, hp]

theorem many_of_stops (h : p.Stops s) : (many p).Stops s := by
  obtain ⟨place, hp⟩ := h
  exact ⟨place, by rw [many, hp]⟩

theorem many_of_read {as : List α} (h : p s = .read a m) (hlt : m.length < s.length)
    (hm : many p m = .read as rest) : many p s = .read (a :: as) rest := by
  rw [many, h]
  dsimp only
  rw [if_pos hlt, hm]

theorem Stops.of_many (h : p s = .read a m) (hlt : m.length < s.length) (hm : (many p).Stops m) :
    (many p).Stops s := by
  obtain ⟨place, hp⟩ := hm
  refine ⟨place, ?_⟩
  rw [many, h]
  dsimp only
  rw [if_pos hlt, hp]

/-- A repetition either reads nothing, where the rule misses, or what the rule reads and then more. -/
theorem of_many {as : List α} (h : many p s = .read as rest) :
    (as = [] ∧ s = rest ∧ p.Misses s) ∨
      ∃ a as' m, as = a :: as' ∧ p s = .read a m ∧ m.length < s.length ∧
        many p m = .read as' rest := by
  rw [many] at h
  split at h
  · rename_i place hp
    cases h
    exact .inl ⟨rfl, rfl, place, hp⟩
  · cases h
  · rename_i a m hp
    split at h
    · rename_i hlt
      split at h
      · rename_i as' r hm
        cases h
        exact .inr ⟨a, as', m, rfl, hp, hlt, hm⟩
      · cases h
      · cases h
    · cases h

/-- **Induction on a repetition**, from its end to its start. -/
@[elab_as_elim]
theorem many_induction {motive : List α → List τ → Prop} {as : List α}
    (h : many p s = .read as rest) (nil : motive [] rest)
    (cons : ∀ {a as s m}, p s = .read a m → motive as m → motive (a :: as) s) : motive as s := by
  induction as generalizing s with
  | nil =>
    rcases of_many h with ⟨-, rfl, -⟩ | ⟨_, _, _, hnil, -⟩
    · exact nil
    · cases hnil
  | cons a as ih =>
    rcases of_many h with ⟨hnil, -⟩ | ⟨_, _, m, hall, hp, -, hm⟩
    · cases hnil
    · cases hall
      exact cons hp (ih hm)

/-- What a repetition reads, if it is something, is read by the one that has to read something. -/
theorem many1_of_many {as : List α} (h : many p s = .read (a :: as) rest) :
    many1 p s = .read (a :: as) rest := by
  rcases of_many h with ⟨hnil, -⟩ | ⟨a', as', m, hall, hp, -, hm⟩
  · cases hnil
  · cases hall
    exact (bind_of_read hp).trans (bind_of_read hm)

theorem Stops.many1 (h : (many p).Stops s) : (many1 p).Stops s := by
  cases hp : p s with
  | read a m =>
    refine .of_bind hp (bind_of_stops ?_)
    obtain ⟨place, hplace⟩ := h
    rw [many, hp] at hplace
    dsimp only at hplace
    split at hplace
    · split at hplace
      · cases hplace
      · cases hplace
      · rename_i hm
        exact ⟨_, hm⟩
    · cases hplace
  | miss place =>
    obtain ⟨place', hplace⟩ := h
    rw [many_of_misses ⟨place, hp⟩] at hplace
    cases hplace
  | stop place => exact bind_of_stops ⟨place, hp⟩

end StructQL.Rule
