import StructQL.Proofs.Reading.Rule
import StructQL.Proofs.SDL.Written

/-!
# What stands between words is skipped

A rule for words first skips what is ignored: blanks, and at the end of the source maybe a comment
that no line feed ends.

* `skip`, `next?`: what is left after what is ignored, and its first character.
* `skip_blank`, `exists_blank`: blanks are skipped, and what is skipped is blank.
* `ending_iff`: nothing is left just where a source may end.
* `ignored_eq`, `word_eq`: **the rules skip what is ignored**.
-/

namespace StructQL.SDL

open Rule

variable {s : List Char}

/-! ## What is ignored -/

/-- What is left after what is ignored, within a comment or not. -/
def skipFrom : Bool → List Char → List Char
  | _, [] => []
  | true, c :: s => skipFrom (c ≠ '\n') s
  | false, c :: s =>
    if isSpace c || c = ',' then skipFrom false s
    else if c = '#' then skipFrom true s
    else c :: s

/-- **What is left after what is ignored.** -/
def skip (s : List Char) : List Char := skipFrom false s

/-- The character that opens the next word. -/
def next? (s : List Char) : Option Char := (skip s).head?

/-- The character opens a word. -/
def opensWord (c : Char) : Bool := !isSpace c && c ≠ ',' && c ≠ '#'

@[simp] theorem skip_nil : skip [] = [] := rfl

theorem skip_cons_of_space {c : Char} (h : isSpace c = true ∨ c = ',') : skip (c :: s) = skip s := by
  simp [skip, skipFrom, h]

theorem skip_hash (s : List Char) : skip ('#' :: s) = skipFrom true s := rfl

theorem skip_cons_of_opensWord {c : Char} (h : opensWord c = true) : skip (c :: s) = c :: s := by
  obtain ⟨⟨hspace, hcomma⟩, hhash⟩ : (isSpace c = false ∧ c ≠ ',') ∧ c ≠ '#' := by
    simpa [opensWord] using h
  simp [skip, skipFrom, hspace, hcomma, hhash]

theorem next?_cons_of_opensWord {c : Char} (h : opensWord c = true) : next? (c :: s) = some c := by
  rw [next?, skip_cons_of_opensWord h, List.head?_cons]

/-- A comment goes on to the end of its line. -/
theorem skipFrom_true_eq (s : List Char) : skipFrom true s = skip (s.dropWhile fun c => c ≠ '\n') := by
  induction s with
  | nil => rfl
  | cons c s ih =>
    by_cases hc : c = '\n'
    · subst hc
      rfl
    · rw [List.dropWhile_cons_of_pos (by simpa using hc), ← ih]
      simp [skipFrom, hc]

theorem skip_dropWhile_isSpace (s : List Char) : skip (s.dropWhile isSpace) = skip s := by
  induction s with
  | nil => rfl
  | cons c s ih =>
    by_cases hc : isSpace c = true
    · rw [List.dropWhile_cons_of_pos hc, ih, skip_cons_of_space (.inl hc)]
    · rw [List.dropWhile_cons_of_neg hc]

theorem skipFrom_append_comment {text : List Char} (h : '\n' ∉ text) :
    skipFrom true (text ++ s) = skipFrom true s := by
  induction text with
  | nil => rfl
  | cons c text ih =>
    obtain ⟨hc, htext⟩ : '\n' ≠ c ∧ '\n' ∉ text := by simpa using h
    rw [List.cons_append, skipFrom, decide_eq_true (Ne.symm hc), ih htext]

theorem skip_blank {b : List Char} (h : Blank b) : skip (b ++ s) = skip s := by
  induction h with
  | nil => rfl
  | space hc _ ih => rw [List.cons_append, skip_cons_of_space hc, ih]
  | @comment text t htext _ ih =>
    rw [List.cons_append, skip_hash, List.append_assoc, skipFrom_append_comment htext,
      List.cons_append]
    exact ih

theorem Blank.append {a b : List Char} (ha : Blank a) (hb : Blank b) : Blank (a ++ b) := by
  induction ha with
  | nil => exact hb
  | space hc _ ih => exact .space hc ih
  | comment htext _ ih =>
    rw [List.cons_append, List.append_assoc, List.cons_append]
    exact .comment htext ih

theorem Ending.append {b : List Char} (hb : Blank b) (h : Ending s) : Ending (b ++ s) := by
  cases h with
  | blank hs => exact .blank (hb.append hs)
  | comment hs htext =>
    rw [← List.append_assoc]
    exact .comment (hb.append hs) htext

/-- What is skipped is blank, unless nothing is left. -/
def SkipsBlank (s : List Char) : Prop :=
  (∃ b, Blank b ∧ s = b ++ skip s) ∨ skip s = [] ∧ Ending s

theorem SkipsBlank.append {b : List Char} (hb : Blank b) (h : SkipsBlank s) :
    SkipsBlank (b ++ s) := by
  unfold SkipsBlank
  rw [skip_blank hb]
  rcases h with ⟨b', hb', hs⟩ | ⟨hnil, hend⟩
  · exact .inl ⟨b ++ b', hb.append hb', by rw [List.append_assoc, ← hs]⟩
  · exact .inr ⟨hnil, hend.append hb⟩

theorem skipsBlank (s : List Char) : SkipsBlank s := by
  -- the text may stand in a comment that began before it
  suffices h : SkipsBlank s ∧ ∀ text, '\n' ∉ text → SkipsBlank ('#' :: (text ++ s)) from h.1
  induction s with
  | nil =>
    refine ⟨.inl ⟨[], .nil, rfl⟩, fun text htext => .inr ⟨?_, ?_⟩⟩
    · rw [skip_hash, skipFrom_append_comment htext]
      rfl
    · rw [List.append_nil]
      exact .comment (s := []) .nil htext
  | cons c s ih =>
    obtain ⟨ihs, ihcomment⟩ := ih
    constructor
    · by_cases hspace : isSpace c = true ∨ c = ','
      · exact ihs.append (.space hspace .nil)
      · by_cases hhash : c = '#'
        · exact hhash ▸ ihcomment [] (by simp)
        · have hopens : opensWord c = true := by
            simp only [not_or] at hspace
            simp [opensWord, hspace, hhash]
          exact .inl ⟨[], .nil, (skip_cons_of_opensWord hopens).symm⟩
    · intro text htext
      by_cases hc : c = '\n'
      · have hblank : Blank ('#' :: (text ++ ['\n'])) := .comment htext .nil
        simpa [hc] using ihs.append hblank
      · have hlonger : '\n' ∉ text ++ [c] := by simpa [htext] using Ne.symm hc
        simpa using ihcomment (text ++ [c]) hlonger

theorem exists_blank (h : skip s ≠ []) : ∃ b, Blank b ∧ s = b ++ skip s :=
  (skipsBlank s).resolve_right fun hnil => h hnil.1

theorem skip_ending (h : Ending s) : skip s = [] := by
  cases h with
  | blank hb => simpa using skip_blank (s := []) hb
  | @comment b text hb htext =>
    rw [skip_blank hb, skip_hash]
    simpa [skipFrom] using skipFrom_append_comment (s := []) htext

theorem ending_iff : Ending s ↔ skip s = [] := by
  refine ⟨skip_ending, fun h => ?_⟩
  rcases skipsBlank s with ⟨b, hb, hs⟩ | ⟨-, hend⟩
  · rw [h, List.append_nil] at hs
    exact hs ▸ .blank hb
  · exact hend

/-! ## Skipping is what the rules do -/

theorem ignorable_of_space {c : Char} (h : isSpace c = true) :
    ignorable (c :: s) = .read () (s.dropWhile isSpace) := by
  have hread : takeWhile1 isSpace (c :: s) =
      .read ((c :: s).takeWhile isSpace) (s.dropWhile isSpace) := by
    simp [takeWhile1, h]
  exact firstOf_cons_of_read (bind_of_read hread)

theorem ignorable_comma (s : List Char) : ignorable (',' :: s) = .read () s := by
  unfold ignorable
  rw [firstOf_cons_of_misses (bind_of_misses (takeWhile1_misses (by simp [isSpace]))) (by simp)]
  exact firstOf_cons_of_read (item_reads_iff.2 rfl)

theorem ignorable_hash (s : List Char) :
    ignorable ('#' :: s) = .read () (s.dropWhile fun c => c ≠ '\n') := by
  unfold ignorable
  rw [firstOf_cons_of_misses (bind_of_misses (takeWhile1_misses (by simp [isSpace]))) (by simp),
    firstOf_cons_of_misses (item_misses (by simp)) (by simp)]
  exact bind_of_read (item_reads_iff.2 rfl)

theorem ignorable_misses (h : ∀ c ∈ s.head?, opensWord c = true) : ignorable.Misses s := by
  have hopens : ∀ c ∈ s.head?, (isSpace c = false ∧ c ≠ ',') ∧ c ≠ '#' := fun c hc => by
    simpa [opensWord] using h c hc
  refine firstOf_misses fun p hp => ?_
  simp only [List.mem_cons, List.not_mem_nil, or_false] at hp
  rcases hp with rfl | rfl | rfl
  · exact bind_of_misses (takeWhile1_misses fun c hc => (hopens c hc).1.1)
  · exact item_misses fun hc => (hopens _ hc).1.2 rfl
  · exact bind_of_misses (item_misses fun hc => (hopens _ hc).2 rfl)

/-- What is ignored is repeated up to the next word. -/
theorem many_ignorable (s : List Char) : ∃ all, many ignorable s = .read all (skip s) := by
  induction h : s.length using Nat.strongRecOn generalizing s with
  | _ n ih =>
    subst h
    -- a first part that is ignored leaves as much to skip
    have hstep : ∀ {m}, ignorable s = .read () m → skip m = skip s → m.length < s.length →
        ∃ all, many ignorable s = .read all (skip s) := fun hread hskip hlt => by
      obtain ⟨all, hm⟩ := ih _ hlt _ rfl
      exact ⟨() :: all, many_of_read hread hlt (hskip ▸ hm)⟩
    cases s with
    | nil => exact ⟨[], many_of_misses (ignorable_misses (by simp))⟩
    | cons c s =>
      by_cases hspace : isSpace c = true
      · refine hstep (ignorable_of_space hspace) ?_ ?_
        · rw [skip_dropWhile_isSpace, skip_cons_of_space (.inl hspace)]
        · exact Nat.lt_succ_of_le (List.dropWhile_suffix _).length_le
      · by_cases hcomma : c = ','
        · subst hcomma
          exact hstep (ignorable_comma s) (skip_cons_of_space (.inr rfl)).symm (Nat.lt_succ_self _)
        · by_cases hhash : c = '#'
          · subst hhash
            refine hstep (ignorable_hash s) ?_ ?_
            · rw [skip_hash, skipFrom_true_eq]
            · exact Nat.lt_succ_of_le (List.dropWhile_suffix _).length_le
          · have hopens : opensWord c = true := by simp [opensWord, hspace, hcomma, hhash]
            rw [skip_cons_of_opensWord hopens]
            exact ⟨[], many_of_misses (ignorable_misses (by simpa using hopens))⟩

theorem ignored_eq (s : List Char) : ignored s = .read () (skip s) := by
  obtain ⟨all, h⟩ := many_ignorable s
  unfold ignored
  rw [bind_of_read h, pure_apply]

theorem word_eq {α : Type} (p : Rule Char α) (s : List Char) : word p s = p (skip s) := by
  unfold word
  rw [bind_of_read (ignored_eq s)]

theorem word_misses {α : Type} {p : Rule Char α} (h : p.Misses (skip s)) : (word p).Misses s := by
  obtain ⟨place, hp⟩ := h
  exact ⟨place, by rw [word_eq, hp]⟩

theorem skip_of_opensWord (h : ∀ c ∈ s.head?, opensWord c = true) : skip s = s := by
  cases s with
  | nil => rfl
  | cons c s => exact skip_cons_of_opensWord (h c rfl)

end StructQL.SDL
