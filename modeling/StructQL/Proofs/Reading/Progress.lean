import Mathlib.Data.List.Forall2
import StructQL.Proofs.Reading.Rule
import StructQL.Proofs.Recursion

/-!
# Rules that get on

What a rule leaves is an end of the text, and so is the place that did not fit. A rule that reads
something each time can be repeated without looking whether it did.

* `Stays`: the rule stays within the text.
* `Advances`: the rule reads something whenever it reads.
* `Stays.bind`, `Stays.many`, `Advances.bind`, `Advances.orElse` and others: composed rules.
* `Advances.not_misses_many`: **a repetition of such a rule does not miss**.
* `Advances.terminates_many`: **it ends, although nothing stops it but the rule**.
* `bind_congr`, `many_congr` and others: rules that agree on what their parts are given.
-/

namespace StructQL

variable {τ α β γ : Type}

/-- What an answer points at: what is left, or the place that did not fit. -/
def Reading.place : Reading τ α → List τ
  | .read _ rest => rest
  | .miss place => place
  | .stop place => place

namespace Rule

variable {p q : Rule τ α} {f g : α → Rule τ β} {s m rest : List τ} {a : α} {b : β}

/-- **The rule stays within the text**: what it leaves, or the place that did not fit, is an end
of it. -/
def Stays (p : Rule τ α) : Prop := ∀ s, (p s).place <:+ s

/-- **The rule reads something** whenever it reads. -/
def Advances (p : Rule τ α) : Prop := ∀ ⦃s a rest⦄, p s = .read a rest → rest.length < s.length

/-! ## Staying within the text -/

theorem Stays.suffix_of_read (h : p.Stays) (hp : p s = .read a rest) : rest <:+ s := by
  have hplace := h s
  rwa [hp] at hplace

theorem Stays.suffix_of_miss {place : List τ} (h : p.Stays) (hp : p s = .miss place) : place <:+ s := by
  have hplace := h s
  rwa [hp] at hplace

theorem Stays.suffix_of_stop {place : List τ} (h : p.Stays) (hp : p s = .stop place) : place <:+ s := by
  have hplace := h s
  rwa [hp] at hplace

theorem Stays.length_le (h : p.Stays) (hp : p s = .read a rest) : rest.length ≤ s.length :=
  (h.suffix_of_read hp).length_le

theorem stays_pure (a : α) : (pure a : Rule τ α).Stays := fun s => List.suffix_refl s

theorem stays_never : (never : Rule τ α).Stays := fun s => List.suffix_refl s

theorem Stays.bind (hp : p.Stays) (hf : ∀ a, (f a).Stays) : (p >>= f).Stays := by
  intro s
  cases hps : p s with
  | read a m =>
    rw [bind_of_read hps]
    exact (hf a m).trans (hp.suffix_of_read hps)
  | miss place =>
    dsimp only [Bind.bind]
    rw [hps]
    exact hp.suffix_of_miss hps
  | stop place =>
    dsimp only [Bind.bind]
    rw [hps]
    exact hp.suffix_of_stop hps

theorem stays_satisfy (test : τ → Bool) : (satisfy test).Stays := by
  intro s
  cases s with
  | nil => exact List.suffix_refl _
  | cons b s =>
    rw [satisfy]
    split
    · exact List.suffix_cons b s
    · exact List.suffix_refl _

theorem stays_items [DecidableEq τ] (l : List τ) : (items l).Stays := by
  intro s
  unfold items
  split
  · exact List.drop_suffix _ _
  · exact List.suffix_refl _

theorem stays_takeWhile (test : τ → Bool) : (takeWhile test).Stays :=
  fun _ => List.dropWhile_suffix test

theorem stays_takeWhile1 (test : τ → Bool) : (takeWhile1 test).Stays := by
  intro s
  unfold takeWhile1
  split
  · exact List.suffix_refl _
  · exact List.dropWhile_suffix test

theorem Stays.orElse (hp : p.Stays) (hq : q.Stays) : (orElse p q).Stays := by
  intro s
  unfold Rule.orElse
  split
  · exact hp.suffix_of_read ‹_›
  · exact hq s
  · exact hp.suffix_of_stop ‹_›

theorem Stays.optional (hp : p.Stays) : (optional p).Stays := by
  intro s
  unfold Rule.optional
  split
  · exact hp.suffix_of_read ‹_›
  · exact List.suffix_refl _
  · exact hp.suffix_of_stop ‹_›

theorem Stays.commit (hp : p.Stays) : (commit p).Stays := by
  intro s
  unfold Rule.commit
  split
  · exact hp.suffix_of_read ‹_›
  · exact hp.suffix_of_miss ‹_›
  · exact hp.suffix_of_stop ‹_›

theorem Stays.notHere (hp : p.Stays) : (notHere p).Stays := by
  intro s
  unfold Rule.notHere
  split
  · exact List.suffix_refl _
  · exact List.suffix_refl _
  · exact hp.suffix_of_stop ‹_›

theorem Stays.refine (hp : p.Stays) (h : α → Option β) : (refine p h).Stays := by
  intro s
  unfold Rule.refine
  split
  · split
    · exact hp.suffix_of_read ‹_›
    · exact List.suffix_refl _
  · exact hp.suffix_of_miss ‹_›
  · exact hp.suffix_of_stop ‹_›

/-- A repetition stays within the text, whether or not its rule reads something. -/
theorem Stays.many (hp : p.Stays) : (many p).Stays := by
  intro s
  induction h : s.length using Nat.strongRecOn generalizing s with
  | _ n ih =>
    subst h
    rw [Rule.many]
    split
    · exact List.suffix_refl _
    · exact hp.suffix_of_stop ‹_›
    · rename_i a m hread
      split
      · rename_i hlt
        have hm := (ih _ hlt m rfl).trans (hp.suffix_of_read hread)
        split
        · rename_i hmany
          rwa [hmany] at hm
        · rename_i hmany
          rwa [hmany] at hm
        · rename_i hmany
          rwa [hmany] at hm
      · exact List.suffix_refl _

/-! ## Reading something -/

theorem Advances.bind (hp : p.Advances) (hf : ∀ a, (f a).Stays) : (p >>= f).Advances := by
  intro s b rest h
  obtain ⟨a, m, hread, hrest⟩ := exists_of_bind h
  exact Nat.lt_of_le_of_lt ((hf a).length_le hrest) (hp hread)

theorem Stays.bind_advances (hp : p.Stays) (hf : ∀ a, (f a).Advances) : (p >>= f).Advances := by
  intro s b rest h
  obtain ⟨a, m, hread, hrest⟩ := exists_of_bind h
  exact Nat.lt_of_lt_of_le (hf a hrest) (hp.length_le hread)

theorem advances_never : (never : Rule τ α).Advances := nofun

theorem advances_satisfy (test : τ → Bool) : (satisfy test).Advances := by
  intro s a rest h
  obtain ⟨rfl, -⟩ := satisfy_reads_iff.1 h
  exact Nat.lt_succ_self _

theorem advances_items [DecidableEq τ] {l : List τ} (hne : l ≠ []) : (items l).Advances := by
  intro s a rest h
  rw [items_reads_iff.1 h, List.length_append]
  have hpos := List.length_pos_iff.2 hne
  omega

theorem advances_takeWhile1 (test : τ → Bool) : (takeWhile1 test).Advances := by
  intro s a rest h
  obtain ⟨hne, rfl, -⟩ := takeWhile1_reads_iff.1 h
  have hpos := List.length_pos_iff.2 hne
  rw [List.length_append]
  omega

theorem Advances.orElse (hp : p.Advances) (hq : q.Advances) : (orElse p q).Advances := by
  intro s a rest h
  rcases of_orElse h with hread | ⟨-, hread⟩
  · exact hp hread
  · exact hq hread

theorem Advances.commit (hp : p.Advances) : (commit p).Advances := fun _ _ _ h => hp (of_commit h)

theorem Advances.refine (hp : p.Advances) (h : α → Option β) : (refine p h).Advances := by
  intro s b rest hread
  obtain ⟨a, ha, -⟩ := exists_of_refine hread
  exact hp ha

/-! ## Repetitions that nothing stops -/

/-- One turn of a repetition: the rule and then the others, or nothing where the rule misses. It does
not look whether the rule reads something. -/
def turn (p : Rule τ α) (again : Rule τ (List α)) : Rule τ (List α) := do
  let first ← optional p
  match first with
  | none => return []
  | some a =>
    let others ← again
    return a :: others

theorem turn_of_read {again : Rule τ (List α)} (h : p s = .read a m) :
    turn p again s = (do let others ← again; return a :: others) m :=
  bind_of_read (optional_of_read h)

theorem turn_of_misses {again : Rule τ (List α)} (h : p.Misses s) : turn p again s = .read [] s :=
  bind_of_read (optional_of_misses h)

theorem turn_of_stop {again : Rule τ (List α)} {place : List τ} (h : p s = .stop place) :
    turn p again s = .stop place := by
  unfold turn Rule.optional
  dsimp only [Bind.bind]
  rw [h]

namespace Advances

variable (hp : p.Advances)

include hp

/-- **A repetition does not miss.** It would only do so where its rule reads nothing. -/
theorem not_misses_many (s : List τ) : ¬ (many p).Misses s := by
  induction h : s.length using Nat.strongRecOn generalizing s with
  | _ n ih =>
    subst h
    rintro ⟨place, hmany⟩
    cases hps : p s with
    | read a m =>
      have hlt := hp hps
      rw [many, hps] at hmany
      dsimp only at hmany
      rw [if_pos hlt] at hmany
      cases hm : many p m with
      | read as rest => simp [hm] at hmany
      | miss place => exact ih _ hlt m rfl ⟨place, hm⟩
      | stop place => simp [hm] at hmany
    | miss place => simp [many_of_misses ⟨place, hps⟩] at hmany
    | stop place => simp [many, hps] at hmany

/-- A repetition is what its turns make of it. -/
theorem turn_many : turn p (many p) = many p := by
  funext s
  cases hps : p s with
  | read a m =>
    rw [turn_of_read hps, many, hps]
    dsimp only
    rw [if_pos (hp hps)]
    dsimp only [Bind.bind]
    cases many p m <;> rfl
  | miss place => rw [turn_of_misses ⟨place, hps⟩, many_of_misses ⟨place, hps⟩]
  | stop place => rw [turn_of_stop hps, many, hps]

theorem turn_congr {again other : Rule τ (List α)}
    (h : ∀ m, m.length < s.length → again m = other m) : turn p again s = turn p other s := by
  cases hps : p s with
  | read a m =>
    rw [turn_of_read hps, turn_of_read hps]
    dsimp only [Bind.bind]
    rw [h m (hp hps)]
  | miss place => rw [turn_of_misses ⟨place, hps⟩, turn_of_misses ⟨place, hps⟩]
  | stop place => rw [turn_of_stop hps, turn_of_stop hps]

theorem turn_asksSmaller : AsksSmaller List.length (turn p) := fun _ _ _ h => hp.turn_congr h

/-- **A repetition ends on every text**, although its turns do not look whether the rule reads
something. -/
theorem terminates_many (s : List τ) : Terminates (turn p) s (many p s) :=
  hp.turn_asksSmaller.terminates_of_fixed hp.turn_many s

end Advances

/-! ## Rules that agree -/

theorem bind_congr (hp : p s = q s) (hf : ∀ a m, p s = .read a m → f a m = g a m) :
    (p >>= f) s = (q >>= g) s := by
  dsimp only [Bind.bind]
  rw [← hp]
  cases hps : p s with
  | read a m => exact hf a m hps
  | miss place => rfl
  | stop place => rfl

theorem orElse_congr {p' q' : Rule τ α} (hp : p s = p' s) (hq : q s = q' s) :
    orElse p q s = orElse p' q' s := by
  unfold Rule.orElse
  rw [hp, hq]

theorem firstOf_congr {ps qs : List (Rule τ α)} (h : List.Forall₂ (fun p q => p s = q s) ps qs) :
    firstOf ps s = firstOf qs s := by
  induction h with
  | nil => rfl
  | @cons p q ps qs hpq hps ih =>
    cases hps with
    | nil => exact hpq
    | cons _ _ => exact orElse_congr hpq ih

/-- Repetitions agree where their rules do, on the text and on all shorter ones. -/
theorem many_congr (h : ∀ m, m.length ≤ s.length → p m = q m) : many p s = many q s := by
  induction hs : s.length using Nat.strongRecOn generalizing s with
  | _ n ih =>
    subst hs
    rw [many, many, ← h s (Nat.le_refl _)]
    cases hps : p s with
    | read a m =>
      dsimp only
      split
      · rename_i hlt
        rw [ih _ hlt (fun m' hle => h m' (Nat.le_trans hle (Nat.le_of_lt hlt))) rfl]
      · rfl
    | miss place => rfl
    | stop place => rfl

theorem between_congr {opening : Rule τ β} {closing : Rule τ γ}
    (h : ∀ b m, opening s = .read b m → p m = q m) :
    between opening p closing s = between opening q closing s :=
  bind_congr rfl fun b m hopen => bind_congr (h b m hopen) fun _ _ _ => rfl

end Rule

end StructQL
