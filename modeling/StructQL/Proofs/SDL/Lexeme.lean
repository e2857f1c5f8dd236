import StructQL.Proofs.Name
import StructQL.Proofs.SDL.Blank

/-!
# Words are read as they are spelled

A rule for words reads the characters of one word and none that follow it.

* `spelled_singleton`: a text spells a word just if the word stands after what is ignored.
* `name_reads_iff`, `punctuator_reads_iff`, `stringValue_reads_iff` and others: **each rule reads
  just the words of its kind**.
* `name_misses`, `punctuator_misses` and others: a rule misses where another word stands.
-/

namespace StructQL.SDL

open Rule

variable {s m rest : List Char}

/-! ## Words -/

/-- No blank passes the test. -/
theorem opensWord_of_passes {test : Char → Bool} {c : Char}
    (hblank : [' ', '\t', '\r', '\n', ',', '#'].any test = false) (h : test c = true) :
    opensWord c = true := by
  cases hc : opensWord c with
  | true => rfl
  | false =>
    have hmem : c ∈ [' ', '\t', '\r', '\n', ',', '#'] := by
      simp only [List.mem_cons, List.not_mem_nil, or_false]
      simp only [opensWord, isSpace] at hc
      grind
    exact absurd h (List.any_eq_false.1 hblank c hmem)

theorem opensWord_of_isNameStart {c : Char} (h : isNameStart c = true) : opensWord c = true :=
  opensWord_of_passes (by decide) h

theorem opensWord_of_isNumberChar {c : Char} (h : isNumberChar c = true) : opensWord c = true :=
  opensWord_of_passes (by decide) h

theorem opensWord_of_mem_marks {c : Char} (h : c ∈ marks) : opensWord c = true :=
  List.all_eq_true.1 (by decide : marks.all opensWord = true) c h

namespace Word

variable {w : Word}

/-- A word opens with a character that is not skipped. -/
theorem IsProper.exists_chars (h : w.IsProper) :
    ∃ c cs, w.chars = c :: cs ∧ opensWord c = true := by
  cases w with
  | name n =>
    obtain ⟨c, others, hn, hc, -⟩ := exists_of_isName n.isName_text
    exact ⟨c, others, hn, opensWord_of_isNameStart hc⟩
  | mark c => exact ⟨c, [], rfl, opensWord_of_mem_marks h⟩
  | line body => exact ⟨_, _, rfl, by decide⟩
  | block body => exact ⟨_, _, rfl, by decide⟩
  | number digits =>
    obtain ⟨hne, -, hall⟩ := h
    obtain ⟨c, cs, rfl⟩ := List.exists_cons_of_ne_nil hne
    exact ⟨c, cs, rfl, opensWord_of_isNumberChar (hall c List.mem_cons_self)⟩

theorem IsProper.skip_chars (h : w.IsProper) (s : List Char) : skip (w.chars ++ s) = w.chars ++ s := by
  obtain ⟨c, cs, hw, hc⟩ := h.exists_chars
  rw [hw]
  exact skip_cons_of_opensWord hc

end Word

/-- **A text spells a word** just if the word stands after what is ignored. -/
theorem spelled_singleton {w : Word} :
    Spelled [w] s m ↔ w.IsProper ∧ w.EndsBefore m ∧ skip s = w.chars ++ m := by
  constructor
  · intro h
    cases h with
    | cons hblank hproper hends hnil =>
      cases hnil
      exact ⟨hproper, hends, by rw [skip_blank hblank, hproper.skip_chars]⟩
  · rintro ⟨hproper, hends, hskip⟩
    obtain ⟨c, cs, hw, -⟩ := hproper.exists_chars
    obtain ⟨b, hb, hs⟩ := exists_blank (s := s) (by rw [hskip, hw]; exact List.cons_ne_nil _ _)
    rw [hs, hskip]
    exact .cons hb hproper hends .nil

theorem spelled_nil : Spelled [] s rest ↔ s = rest := by
  constructor
  · intro h
    cases h
    rfl
  · rintro rfl
    exact .nil

theorem spelled_append {ws vs : List Word} :
    Spelled (ws ++ vs) s rest ↔ ∃ m, Spelled ws s m ∧ Spelled vs m rest := by
  induction ws generalizing s with
  | nil =>
    refine ⟨fun h => ⟨s, .nil, h⟩, ?_⟩
    rintro ⟨m, h, hvs⟩
    cases h
    exact hvs
  | cons w ws ih =>
    constructor
    · intro h
      cases h with
      | cons hb hproper hends hws =>
        obtain ⟨m, hws, hvs⟩ := ih.1 hws
        exact ⟨m, .cons hb hproper hends hws, hvs⟩
    · rintro ⟨m, h, hvs⟩
      cases h with
      | cons hb hproper hends hws => exact .cons hb hproper hends (ih.2 ⟨m, hws, hvs⟩)

theorem spelled_cons {w : Word} {ws : List Word} :
    Spelled (w :: ws) s rest ↔ ∃ m, Spelled [w] s m ∧ Spelled ws m rest := by
  rw [← List.singleton_append, spelled_append]

/-- A text is no shorter than the number of words that it spells. -/
theorem Spelled.length_add_le {ws : List Word} (h : Spelled ws s rest) :
    ws.length + rest.length ≤ s.length := by
  induction h with
  | nil => simp
  | @cons w ws b s rest _ hproper _ _ ih =>
    obtain ⟨c, cs, hw, -⟩ := hproper.exists_chars
    simp only [hw, List.length_append, List.length_cons]
    omega

theorem Spelled.next?_eq {w : Word} {ws : List Word} (h : Spelled (w :: ws) s rest) :
    next? s = w.chars.head? := by
  obtain ⟨m, hw, -⟩ := spelled_cons.1 h
  obtain ⟨hproper, -, hskip⟩ := spelled_singleton.1 hw
  obtain ⟨c, cs, hc, -⟩ := hproper.exists_chars
  rw [next?, hskip, hc]
  rfl

/-- What a repetition reads is spelled if what the rule reads is. -/
theorem exists_spelled_of_many {α : Type} {one : List Word → Prop} {p : Rule Char α} {all : List α}
    (hp : ∀ ⦃a s m⦄, p s = .read a m → ∃ ws, one ws ∧ Spelled ws s m)
    (h : many p s = .read all rest) :
    ∃ items : List (List Word), (∀ ws ∈ items, one ws) ∧ Spelled items.flatten s rest := by
  refine many_induction h ⟨[], List.forall_mem_nil _, .nil⟩ fun hone ih => ?_
  obtain ⟨ws, hws, hspelled⟩ := hp hone
  obtain ⟨items, hitems, hothers⟩ := ih
  exact ⟨ws :: items, List.forall_mem_cons.2 ⟨hws, hitems⟩, spelled_append.2 ⟨_, hspelled, hothers⟩⟩

/-! ## Names, signs and keywords -/

theorem nameChars_reads_iff {cs : List Char} :
    nameChars s = .read cs m ↔
      isName cs = true ∧ s = cs ++ m ∧ ∀ c ∈ m.head?, isNameContinue c = false := by
  constructor
  · intro h
    obtain ⟨c, r, hc, h⟩ := exists_of_bind h
    obtain ⟨others, r', hothers, h⟩ := exists_of_bind h
    obtain ⟨rfl, rfl⟩ := of_pure h
    obtain ⟨rfl, hstart⟩ := satisfy_reads_iff.1 hc
    obtain ⟨rfl, hall, hend⟩ := takeWhile_reads_iff.1 hothers
    exact ⟨by simpa [isName, hstart] using hall, rfl, hend⟩
  · rintro ⟨hname, rfl, hend⟩
    obtain ⟨c, others, rfl, hc, hall⟩ := exists_of_isName hname
    unfold nameChars
    rw [List.cons_append, bind_of_read (satisfy_reads_iff.2 ⟨rfl, hc⟩),
      bind_of_read (takeWhile_reads_iff.2 ⟨rfl, hall, hend⟩), pure_apply]

/-- **The rule for names reads a name** that is spelled, and no longer one. -/
theorem name_reads_iff {n : Name} : name s = .read n m ↔ Spelled [.name n] s m := by
  rw [spelled_singleton, name, word_eq]
  constructor
  · intro h
    obtain ⟨cs, hcs, hn⟩ := exists_of_refine h
    obtain ⟨-, hs, hend⟩ := nameChars_reads_iff.1 hcs
    rw [ofChars?_eq_some_iff.1 hn] at hs
    exact ⟨trivial, hend, hs⟩
  · rintro ⟨-, hend, hs⟩
    exact refine_of_read (nameChars_reads_iff.2 ⟨n.isName_text, hs, hend⟩)
      (ofChars?_eq_some_iff.2 rfl)

theorem name_misses (h : ∀ c ∈ next? s, isNameStart c = false) : name.Misses s :=
  word_misses (refine_of_misses (bind_of_misses (satisfy_misses h)))

/-- **The rule for a sign reads the sign** that is spelled. -/
theorem punctuator_reads_iff {c : Char} (hc : c ∈ marks) :
    punctuator c s = .read () m ↔ Spelled [.mark c] s m := by
  rw [spelled_singleton, punctuator, word_eq, item_reads_iff]
  exact ⟨fun h => ⟨hc, trivial, h⟩, fun h => h.2.2⟩

theorem punctuator_misses {c : Char} (h : next? s ≠ some c) : (punctuator c).Misses s :=
  word_misses (item_misses h)

/-- **The rule for a keyword reads the name** of these characters. -/
theorem keyword_reads_iff {n : Name} : keyword n.text s = .read () m ↔ Spelled [.name n] s m := by
  rw [spelled_singleton, keyword, word_eq]
  constructor
  · intro h
    obtain ⟨u, r, hn, h⟩ := exists_of_bind h
    obtain ⟨hmiss, rfl⟩ := of_notHere h
    refine ⟨trivial, fun c hc => ?_, items_reads_iff.1 hn⟩
    cases htest : isNameContinue c with
    | false => rfl
    | true =>
      obtain ⟨t, rfl⟩ := List.head?_eq_some_iff.1 hc
      exact absurd (satisfy_reads_iff.2 ⟨rfl, htest⟩) hmiss.not_read
  · rintro ⟨-, hend, hs⟩
    have hread : items n.text.toList (skip s) = .read () m := items_reads_iff.2 hs
    rw [bind_of_read hread]
    exact notHere_of_misses (satisfy_misses hend)

theorem keyword_misses {n : Name} (h : ∀ m, ¬ Spelled [.name n] s m) :
    (keyword n.text).Misses s := by
  refine word_misses ?_
  by_cases hpre : n.text.toList <+: skip s
  · obtain ⟨r, hr⟩ := hpre
    refine .of_bind (items_reads_iff.2 hr.symm) ?_
    by_cases hend : ∀ c ∈ r.head?, isNameContinue c = false
    · exact (h r (spelled_singleton.2 ⟨trivial, hend, hr.symm⟩)).elim
    · -- the name goes on
      obtain ⟨c, hc, htest⟩ : ∃ c ∈ r.head?, isNameContinue c = true := by simpa using hend
      obtain ⟨t, rfl⟩ := List.head?_eq_some_iff.1 hc
      exact notHere_of_read (satisfy_reads_iff.2 ⟨rfl, htest⟩)
  · exact bind_of_misses (items_misses hpre)

/-! ## Numbers -/

/-- **The rule for numbers reads all characters of numbers** up to the next other one. -/
theorem number_reads_iff :
    number s = .read () m ↔ ∃ digits, Spelled [.number digits] s m := by
  simp only [spelled_singleton, number, word_eq]
  constructor
  · intro h
    obtain ⟨sign, r, hsign, h⟩ := exists_of_bind h
    obtain ⟨digits, r', hdigits, h⟩ := exists_of_bind h
    obtain ⟨-, rfl⟩ := of_pure h
    obtain ⟨hne, rfl, hall, hend⟩ := takeWhile1_reads_iff.1 hdigits
    rcases of_optional hsign with ⟨_, -, hminus⟩ | ⟨-, hs, hmiss⟩
    · refine ⟨'-' :: digits, ⟨List.cons_ne_nil _ _, by simpa using hne, ?_⟩, hend, ?_⟩
      · simpa using ⟨by decide, hall⟩
      · exact item_reads_iff.1 hminus
    · refine ⟨digits, ⟨hne, ?_, hall⟩, hend, hs⟩
      rintro rfl
      exact hmiss.not_read (item_reads_iff.2 hs)
  · rintro ⟨digits, ⟨hne, hminus, hall⟩, hend, hs⟩
    obtain ⟨c, cs, rfl⟩ := List.exists_cons_of_ne_nil hne
    replace hs : skip s = c :: (cs ++ m) := hs
    by_cases hc : c = '-'
    · subst hc
      have hcs : cs ≠ [] := by simpa using hminus
      rw [bind_of_read (optional_of_read (item_reads_iff.2 hs)),
        bind_of_read (takeWhile1_reads_iff.2 ⟨hcs, rfl, fun d hd => hall d (.tail _ hd), hend⟩),
        pure_apply]
    · have hmiss : (item '-').Misses (skip s) := item_misses (by simpa [hs] using hc)
      rw [bind_of_read (optional_of_misses hmiss),
        bind_of_read (takeWhile1_reads_iff.2 ⟨hne, hs, hall, hend⟩), pure_apply]

theorem number_misses (h : ∀ c ∈ next? s, isNumberChar c = false) : number.Misses s := by
  have hmiss : (item '-').Misses (skip s) := item_misses fun hc => absurd (h _ hc) (by decide)
  exact word_misses (.of_bind (optional_of_misses hmiss) (bind_of_misses (takeWhile1_misses h)))

/-! ## Strings -/

theorem closes_nil : Closes [] := by
  unfold Closes
  decide

/-- Three quotes stand in front of a body and its end just if they stand in front of what follows
too. -/
theorem prefix_close_iff {body : List Char} (hne : body ≠ []) :
    ['"', '"', '"'] <+: body ++ '"' :: '"' :: '"' :: m ↔ ['"', '"', '"'] <+: body ++ ['"', '"'] := by
  have hcut : body ++ ['"', '"'] <+: body ++ '"' :: '"' :: '"' :: m := ⟨'"' :: m, by simp⟩
  refine ⟨fun h => List.prefix_of_prefix_length_le h hcut ?_, fun h => h.trans hcut⟩
  have := List.length_pos_iff.2 hne
  simp only [List.length_append, List.length_cons, List.length_nil]
  omega

theorem closes_cons_iff {c : Char} {body : List Char} :
    Closes (c :: body) ↔ ¬ ['"', '"', '"'] <+: c :: (body ++ ['"', '"']) ∧ Closes body := by
  unfold Closes
  rw [List.cons_append, List.infix_cons_iff, not_or]

theorem blockEnd_go_reads_iff {start : List Char} :
    blockEnd.go start s = .read () m ↔ ∃ body, Closes body ∧ s = body ++ '"' :: '"' :: '"' :: m := by
  induction s with
  | nil =>
    constructor
    · nofun
    · rintro ⟨body, -, h⟩
      simp at h
  | cons c s ih =>
    unfold blockEnd.go
    by_cases hquotes : (c :: s).take 3 = ['"', '"', '"']
    · rw [if_pos hquotes]
      have hs : c :: s = '"' :: '"' :: '"' :: s.drop 2 := by
        have hsplit := List.take_append_drop 3 (c :: s)
        rw [hquotes] at hsplit
        exact hsplit.symm
      constructor
      · intro h
        cases h
        exact ⟨[], closes_nil, hs⟩
      · rintro ⟨body, hbody, h⟩
        cases body with
        | nil =>
          rw [hs] at h
          simpa using h
        | cons d body =>
          have hpre : ['"', '"', '"'] <+: d :: body ++ '"' :: '"' :: '"' :: m :=
            ⟨_, (h.symm.trans hs).symm⟩
          exact absurd ((prefix_close_iff (List.cons_ne_nil _ _)).1 hpre) (closes_cons_iff.1 hbody).1
    · rw [if_neg hquotes, ih]
      have hpre : ¬ ['"', '"', '"'] <+: c :: s := fun h =>
        hquotes (List.prefix_iff_eq_take.1 h).symm
      constructor
      · rintro ⟨body, hbody, rfl⟩
        refine ⟨c :: body, closes_cons_iff.2 ⟨fun h => hpre ?_, hbody⟩, rfl⟩
        exact (prefix_close_iff (List.cons_ne_nil _ _)).2 h
      · rintro ⟨body, hbody, h⟩
        cases body with
        | nil => exact absurd ⟨m, h.symm⟩ hpre
        | cons d body =>
          obtain ⟨rfl, rfl⟩ := List.cons.inj h
          exact ⟨body, (closes_cons_iff.1 hbody).2, rfl⟩

/-- Without three quotes no string ends. -/
theorem blockEnd_misses (h : ¬ ['"', '"', '"'] <:+: s) : blockEnd.Misses s := by
  suffices ∀ start, ∃ place, blockEnd.go start s = .miss place from this s
  intro start
  induction s with
  | nil => exact ⟨start, rfl⟩
  | cons c s ih =>
    rw [List.infix_cons_iff, not_or] at h
    unfold blockEnd.go
    rw [if_neg fun htake => h.1 (List.prefix_iff_eq_take.2 htake.symm)]
    exact ih h.2

theorem exists_blockEnd_reads (h : ['"', '"', '"'] <:+: s) : ∃ m, blockEnd s = .read () m := by
  suffices ∀ start, ∃ m, blockEnd.go start s = .read () m from this s
  intro start
  induction s with
  | nil => simp at h
  | cons c s ih =>
    unfold blockEnd.go
    by_cases hpre : ['"', '"', '"'] <+: c :: s
    · exact ⟨_, if_pos (List.prefix_iff_eq_take.1 hpre).symm⟩
    · rw [if_neg fun htake => hpre (List.prefix_iff_eq_take.2 htake.symm)]
      exact ih ((List.infix_cons_iff.1 h).resolve_left hpre)

theorem stringChar_escape (c : Char) (s : List Char) :
    stringChar ('\\' :: c :: s) = .read () s := by
  refine firstOf_cons_of_read ?_
  rw [bind_of_read (item_reads_iff.2 rfl), bind_of_read (satisfy_reads_iff.2 ⟨rfl, rfl⟩), pure_apply]

theorem stringChar_char {c : Char} (hback : c ≠ '\\') (hquote : c ≠ '"') (hline : c ≠ '\n') :
    stringChar (c :: s) = .read () s := by
  unfold stringChar
  rw [firstOf_cons_of_misses (bind_of_misses (item_misses (by simpa using hback))) (by simp)]
  exact bind_of_read (satisfy_reads_iff.2 ⟨rfl, by simp [hback, hquote, hline]⟩)

theorem stringChar_misses (s : List Char) : stringChar.Misses ('"' :: s) := by
  refine firstOf_misses fun p hp => ?_
  simp only [List.mem_cons, List.not_mem_nil, or_false] at hp
  rcases hp with rfl | rfl
  · exact bind_of_misses (item_misses (by simp))
  · exact bind_of_misses (satisfy_misses (by simp))

theorem of_stringChar (h : stringChar s = .read () m) :
    (∃ c, s = '\\' :: c :: m) ∨ ∃ c, c ≠ '\\' ∧ c ≠ '"' ∧ c ≠ '\n' ∧ s = c :: m := by
  rcases of_orElse h with h | ⟨-, h⟩
  · obtain ⟨_, r, hback, h⟩ := exists_of_bind h
    obtain ⟨c, r', hc, h⟩ := exists_of_bind h
    obtain ⟨-, rfl⟩ := of_pure h
    obtain ⟨rfl, -⟩ := satisfy_reads_iff.1 hc
    exact .inl ⟨c, item_reads_iff.1 hback⟩
  · obtain ⟨c, r, hc, h⟩ := exists_of_bind h
    obtain ⟨-, rfl⟩ := of_pure h
    obtain ⟨rfl, htest⟩ := satisfy_reads_iff.1 hc
    obtain ⟨⟨hback, hquote⟩, hline⟩ : (c ≠ '\\' ∧ c ≠ '"') ∧ c ≠ '\n' := by simpa using htest
    exact .inr ⟨c, hback, hquote, hline, rfl⟩

/-- The characters of a string are read up to the quote that ends it. -/
theorem many_stringChar_reads_iff :
    (∃ all, many stringChar s = .read all ('"' :: m)) ↔ ∃ body, LineBody body ∧ s = body ++ '"' :: m := by
  constructor
  · rintro ⟨all, h⟩
    refine many_induction h ⟨[], .nil, rfl⟩ fun hchar ih => ?_
    obtain ⟨body, hbody, rfl⟩ := ih
    rcases of_stringChar hchar with ⟨c, rfl⟩ | ⟨c, hback, hquote, hline, rfl⟩
    · exact ⟨'\\' :: c :: body, .escape hbody, rfl⟩
    · exact ⟨c :: body, .char hback hquote hline hbody, rfl⟩
  · rintro ⟨body, hbody, rfl⟩
    induction hbody with
    | nil => exact ⟨[], many_of_misses (stringChar_misses m)⟩
    | char hback hquote hline _ ih =>
      obtain ⟨all, hall⟩ := ih
      exact ⟨() :: all,
        many_of_read (stringChar_char hback hquote hline) (Nat.lt_succ_self _) hall⟩
    | escape _ ih =>
      obtain ⟨all, hall⟩ := ih
      exact ⟨() :: all,
        many_of_read (stringChar_escape _ _) (Nat.lt_succ_of_lt (Nat.lt_succ_self _)) hall⟩

/-- What is spelled as a string on one line is not read as one between three quotes. -/
theorem block_misses_of_line {body : List Char} (hbody : LineBody body)
    (hends : (Word.line body).EndsBefore m) :
    (do items ['"', '"', '"']; blockEnd : Rule Char Unit).Misses ('"' :: (body ++ '"' :: m)) := by
  cases hbody with
  | nil =>
    cases m with
    | nil => exact bind_of_misses (items_misses (by decide))
    | cons c rest =>
      by_cases hc : c = '"'
      · subst hc
        exact .of_bind (items_reads_iff.2 rfl) (blockEnd_misses (hends rfl rest rfl))
      · exact bind_of_misses (items_misses (by simp [Ne.symm hc]))
  | char _ hquote _ _ => exact bind_of_misses (items_misses (by simp [Ne.symm hquote]))
  | escape _ => exact bind_of_misses (items_misses (by simp))

/-- **The rule for strings reads a string** that is spelled. -/
theorem stringValue_reads_iff :
    stringValue s = .read () m ↔
      ∃ body, Spelled [.line body] s m ∨ Spelled [.block body] s m := by
  simp only [spelled_singleton, stringValue, word_eq]
  constructor
  · intro h
    rcases of_orElse h with h | ⟨hmiss, h⟩
    · obtain ⟨_, r, hopen, hend⟩ := exists_of_bind h
      obtain ⟨body, hbody, rfl⟩ := blockEnd_go_reads_iff.1 hend
      refine ⟨body, .inr ⟨hbody, trivial, ?_⟩⟩
      simpa [Word.chars] using items_reads_iff.1 hopen
    · obtain ⟨_, r, hopen, h⟩ := exists_of_bind h
      obtain ⟨all, r', hall, hclose⟩ := exists_of_bind h
      obtain rfl := item_reads_iff.1 hclose
      obtain ⟨body, hbody, rfl⟩ := many_stringChar_reads_iff.1 ⟨all, hall⟩
      have hs := item_reads_iff.1 hopen
      refine ⟨body, .inl ⟨hbody, ?_, by simpa [Word.chars] using hs⟩⟩
      -- three quotes would have been the end of the other kind of string
      rintro rfl rest rfl hinfix
      obtain ⟨r, hr⟩ := exists_blockEnd_reads hinfix
      exact hmiss.not_read ((bind_of_read (items_reads_iff.2 hs)).trans hr)
  · rintro ⟨body, ⟨hbody, hends, hs⟩ | ⟨hbody, -, hs⟩⟩
    · replace hs : skip s = '"' :: (body ++ '"' :: m) := by simpa [Word.chars] using hs
      obtain ⟨all, hall⟩ := many_stringChar_reads_iff.2 ⟨body, hbody, rfl⟩
      rw [firstOf_cons_of_misses (hs ▸ block_misses_of_line hbody hends) (by simp)]
      change (do item '"'; let _ ← many stringChar; item '"') (skip s) = _
      rw [bind_of_read (item_reads_iff.2 hs), bind_of_read hall]
      exact item_reads_iff.2 rfl
    · replace hs : skip s = ['"', '"', '"'] ++ (body ++ '"' :: '"' :: '"' :: m) := by
        simpa [Word.chars] using hs
      refine firstOf_cons_of_read ?_
      rw [bind_of_read (items_reads_iff.2 hs)]
      exact blockEnd_go_reads_iff.2 ⟨body, hbody, rfl⟩

theorem stringValue_misses (h : next? s ≠ some '"') : stringValue.Misses s := by
  refine word_misses (firstOf_misses fun p hp => ?_)
  simp only [List.mem_cons, List.not_mem_nil, or_false] at hp
  rcases hp with rfl | rfl
  · refine bind_of_misses (items_misses fun hpre => h ?_)
    obtain ⟨r, hr⟩ := hpre
    rw [next?, ← hr]
    rfl
  · exact bind_of_misses (item_misses h)

end StructQL.SDL
