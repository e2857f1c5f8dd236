import Mathlib.Data.Bool.AllAny
import StructQL.Proofs.SDL.Lexeme
import StructQL.Proofs.SDL.Progress

/-!
# Constants are read as they are spelled

The rule for numbers is tried before the one for names, and stops in the middle of a name that opens
with an `e`. In a list the rest of the name is the next item; anywhere else nothing reads it.

* `Spoils`: some name may be a value that is not read whole.
* `constant_fares`: **a constant is read whole, or the reading cannot go on behind it**.
* `constant_of_constantWithin`: what the rule for constants reads is a constant.
-/

namespace StructQL.SDL

open Rule

variable {value : Name → Prop} {ws : List Word} {s m rest : List Char} {depth : Nat}

/-! ## What comes next -/

/-- None of the characters opens what comes next. -/
def Clear (cs : List Char) (s : List Char) : Prop := ∀ c ∈ next? s, c ∉ cs

/-- A name comes next. -/
def NameNext (s : List Char) : Prop := ∃ c, next? s = some c ∧ isNameStart c = true

/-- If anything comes next, it is a name, a string or a closing sign. -/
def Fresh (s : List Char) : Prop := ∀ c ∈ next? s, isNameStart c = true ∨ c ∈ ['"', ')', ']', '}']

theorem Fresh.clear {cs : List Char} (h : Fresh s)
    (hcs : cs.all (fun c => !isNameStart c && c ∉ ['"', ')', ']', '}']) = true) : Clear cs s := by
  intro c hc hmem
  obtain ⟨hstart, hsign⟩ : isNameStart c = false ∧ c ∉ ['"', ')', ']', '}'] := by
    simpa using List.all_eq_true.1 hcs c hmem
  rcases h c hc with h | h
  · rw [hstart] at h
    cases h
  · exact hsign h

theorem Clear.ne {c : Char} {cs : List Char} (h : Clear cs s) (hc : c ∈ cs) : next? s ≠ some c :=
  fun hnext => h c hnext hc

theorem Clear.mono {cs cs' : List Char} (h : Clear cs s) (hsub : cs'.all cs.contains = true) :
    Clear cs' s :=
  fun c hc hmem => h c hc (List.contains_iff_mem.1 (List.all_eq_true.1 hsub c hmem))

theorem NameNext.ne {c : Char} (h : NameNext s) (hc : isNameStart c = false) : next? s ≠ some c := by
  obtain ⟨d, hd, hstart⟩ := h
  rintro hnext
  rw [hd] at hnext
  cases hnext
  rw [hc] at hstart
  cases hstart

theorem Spelled.nameNext {n : Name} (h : Spelled (.name n :: ws) s rest) : NameNext s := by
  obtain ⟨c, others, hn, hc, -⟩ := exists_of_isName n.isName_text
  exact ⟨c, by rw [h.next?_eq, Word.chars, hn, List.head?_cons], hc⟩

theorem NameNext.fresh (h : NameNext s) : Fresh s := by
  obtain ⟨c, hc, hstart⟩ := h
  intro d hd
  rw [hc] at hd
  cases hd
  exact .inl hstart

/-! ## The choice by what comes next -/

theorem constantWithin_of_stringValue (h : stringValue s = .read () m) :
    constantWithin (depth + 1) s = .read () m :=
  firstOf_cons_of_read h

theorem constantWithin_of_number (hnext : next? s ≠ some '"') (h : number s = .read () m) :
    constantWithin (depth + 1) s = .read () m := by
  unfold constantWithin
  rw [firstOf_cons_of_misses (stringValue_misses hnext) (by simp)]
  exact firstOf_cons_of_read h

theorem constantWithin_of_name {n : Name} (hnext : ∀ c ∈ next? s, isNumberChar c = false)
    (h : name s = .read n m) : constantWithin (depth + 1) s = .read () m := by
  have hquote : next? s ≠ some '"' := (Spelled.nameNext (name_reads_iff.1 h)).ne (by decide)
  unfold constantWithin
  rw [firstOf_cons_of_misses (stringValue_misses hquote) (by simp),
    firstOf_cons_of_misses (number_misses hnext) (by simp)]
  exact firstOf_cons_of_read (bind_of_read h)

/-- The rule for lists. -/
def listWithin (depth : Nat) : Rule Char Unit :=
  between (punctuator '[') (do let _ ← many (constantWithin depth)) (punctuator ']')

/-- The rule for objects. -/
def objectWithin (depth : Nat) : Rule Char Unit :=
  between (punctuator '\x7b') (namedConstants (constantWithin depth)) (punctuator '\x7d')

theorem constantWithin_of_opening {c : Char} (hnext : next? s = some c) (hc : c ∈ ['[', '\x7b']) :
    constantWithin (depth + 1) s = firstOf [listWithin depth, objectWithin depth] s := by
  have hother : ∀ d ∈ ['[', '\x7b'],
      d ≠ '"' ∧ isNumberChar d = false ∧ isNameStart d = false :=
    List.all_iff_forall_prop.1 (by decide)
  obtain ⟨hquote, hnumber, hname⟩ := hother c hc
  have hopen : ∀ {test : Char → Bool}, test c = false → ∀ d ∈ next? s, test d = false :=
    fun htest d hd => by
      rw [hnext] at hd
      cases hd
      exact htest
  unfold constantWithin
  rw [firstOf_cons_of_misses (stringValue_misses (by simpa [hnext] using hquote)) (by simp),
    firstOf_cons_of_misses (number_misses (hopen hnumber)) (by simp),
    firstOf_cons_of_misses (bind_of_misses (name_misses (hopen hname))) (by simp)]
  rfl

theorem constantWithin_of_list (hnext : next? s = some '[')
    (h : listWithin depth s = .read () m) : constantWithin (depth + 1) s = .read () m := by
  rw [constantWithin_of_opening hnext (by simp)]
  exact firstOf_cons_of_read h

theorem constantWithin_of_object (hnext : next? s = some '\x7b')
    (h : objectWithin depth s = .read () m) : constantWithin (depth + 1) s = .read () m := by
  have hlist : (listWithin depth).Misses s :=
    between_of_misses (punctuator_misses (by simp [hnext]))
  rw [constantWithin_of_opening hnext (by simp), firstOf_cons_of_misses hlist (by simp)]
  exact h

theorem constantWithin_misses {c : Char} (hnext : next? s = some c) (hc : c ∈ ['[', '\x7b'])
    (hlist : (listWithin depth).Misses s) (hobject : (objectWithin depth).Misses s) :
    (constantWithin (depth + 1)).Misses s := by
  unfold Misses
  rw [constantWithin_of_opening hnext hc]
  refine firstOf_misses fun p hp => ?_
  simp only [List.mem_cons, List.not_mem_nil, or_false] at hp
  rcases hp with rfl | rfl
  · exact hlist
  · exact hobject

/-! ## Names as values -/

/-- What follows the characters of numbers in a name is a name too. -/
theorem exists_name_of_split {n : Name} {digits others : List Char}
    (hn : n.text.toList = digits ++ others) (hne : others ≠ [])
    (hend : ∀ c ∈ others.head?, isNumberChar c = false) (hdigits : digits ≠ []) :
    ∃ n' : Name, n'.text.toList = others := by
  obtain ⟨c, others, rfl⟩ := List.exists_cons_of_ne_nil hne
  obtain ⟨d, digits, rfl⟩ := List.exists_cons_of_ne_nil hdigits
  obtain ⟨first, goes, hfirst, -, hgoes⟩ := exists_of_isName n.isName_text
  obtain ⟨rfl, rfl⟩ := List.cons.inj (hn.symm.trans hfirst)
  have hc : isNumberChar c = false := hend c rfl
  have hstart : isNameStart c = true := by
    have hgo := hgoes c (by simp)
    simp only [isNameContinue, Char.isAlphanum, isNumberChar, isNameStart] at hgo hc ⊢
    grind
  have hname : isName (String.ofList (c :: others)).toList = true := by
    rw [String.toList_ofList]
    simpa [isName, hstart] using fun d hd => hgoes d (by simp [hd])
  exact ⟨⟨String.ofList (c :: others), hname⟩, String.toList_ofList⟩

/-- Characters of numbers that open as a name does are a number. -/
theorem spelled_number_of_isNameStart {c : Char} {ds : List Char} (hstart : isNameStart c = true)
    (hall : ∀ d ∈ c :: ds, isNumberChar d = true) (hskip : skip s = c :: ds ++ m)
    (hend : ∀ d ∈ m.head?, isNumberChar d = false) : Spelled [.number (c :: ds)] s m := by
  refine spelled_singleton.2 ⟨⟨List.cons_ne_nil _ _, fun heq => ?_, hall⟩, hend, hskip⟩
  obtain ⟨rfl, -⟩ := List.cons.inj heq
  exact absurd hstart (by decide)

theorem exists_number {c : Char} (hnext : next? s = some c) (hc : isNumberChar c = true)
    (hstart : isNameStart c = true) : ∃ digits m, Spelled [.number digits] s m := by
  obtain ⟨t, ht⟩ := List.head?_eq_some_iff.1 hnext
  obtain ⟨ds, m, hsplit, hall, hend⟩ : ∃ ds m, t = ds ++ m ∧
      (∀ d ∈ ds, isNumberChar d = true) ∧ ∀ d ∈ m.head?, isNumberChar d = false :=
    ⟨_, _, takeWhile_eq_iff.1 ⟨rfl, rfl⟩⟩
  exact ⟨c :: ds, m, spelled_number_of_isNameStart hstart (List.forall_mem_cons.2 ⟨hc, hall⟩)
    (by rw [ht, hsplit]; rfl) hend⟩

/-- A name of characters of numbers is read as a number, which goes on after the name. -/
theorem constantWithin_of_numberName {n : Name} {c : Char} {digits : List Char}
    (h : Spelled [.name n] s rest) (hn : n.text.toList = c :: digits)
    (hstart : isNameStart c = true) (hall : ∀ d ∈ c :: digits, isNumberChar d = true) :
    constantWithin (depth + 1) s = .read () (rest.dropWhile isNumberChar) := by
  have hquote : next? s ≠ some '"' := h.nameNext.ne (by decide)
  have hskip : skip s = n.text.toList ++ rest := (spelled_singleton.1 h).2.2
  obtain ⟨more, stop, hrest, hmore, hstop⟩ : ∃ more stop, rest = more ++ stop ∧
      (∀ d ∈ more, isNumberChar d = true) ∧ ∀ d ∈ stop.head?, isNumberChar d = false :=
    ⟨_, _, takeWhile_eq_iff.1 ⟨rfl, rfl⟩⟩
  have hspelled : Spelled [.number (c :: (digits ++ more))] s stop := by
    refine spelled_number_of_isNameStart hstart ?_ (by simp [hskip, hn, hrest]) hstop
    rw [← List.cons_append]
    exact List.forall_mem_append.2 ⟨hall, hmore⟩
  rw [(takeWhile_eq_iff.2 ⟨hrest, hmore, hstop⟩).2]
  exact constantWithin_of_number hquote (number_reads_iff.2 ⟨_, hspelled⟩)

/-- A name that opens with characters of numbers is read as a number up to a rest of the name, which is
a name too. -/
theorem exists_rest_of_numberChars {n : Name} {c d : Char} {digits after : List Char}
    (h : Spelled [.name n] s rest) (hn : n.text.toList = (c :: digits) ++ d :: after)
    (hstart : isNameStart c = true) (hall : ∀ e ∈ c :: digits, isNumberChar e = true)
    (hd : isNumberChar d = false) :
    ∃ n' m, constantWithin (depth + 1) s = .read () m ∧ Spelled [.name n'] m rest ∧
      m.length < s.length := by
  have hquote : next? s ≠ some '"' := h.nameNext.ne (by decide)
  obtain ⟨-, hend, hskip⟩ := spelled_singleton.1 h
  replace hskip : skip s = n.text.toList ++ rest := hskip
  have hafter : ∀ e ∈ (d :: after).head?, isNumberChar e = false := by simpa using hd
  obtain ⟨n', hn'⟩ := exists_name_of_split hn (List.cons_ne_nil _ _) hafter (List.cons_ne_nil _ _)
  have hnumber : Spelled [.number (c :: digits)] s (d :: after ++ rest) :=
    spelled_number_of_isNameStart hstart hall (by simp [hskip, hn]) hafter
  have hname : Spelled [.name n'] (d :: after ++ rest) rest := by
    refine spelled_singleton.2 ⟨trivial, hend, ?_⟩
    rw [← hn']
    exact Word.IsProper.skip_chars (w := .name n') trivial rest
  refine ⟨n', _, constantWithin_of_number hquote (number_reads_iff.2 ⟨_, hnumber⟩), hname, ?_⟩
  have hlen := hnumber.length_add_le
  simp only [List.length_cons, List.length_nil] at hlen
  omega

/-- **How a name is read as a value.** It is read whole if it does not open as numbers do. Otherwise a
number is read, up to a rest of the name that is a name too, or to its end and maybe further. -/
theorem constantWithin_name {n : Name} (h : Spelled [.name n] s rest) :
    (ReadWhole n ∧ constantWithin (depth + 1) s = .read () rest) ∨
    (ReadWhole n ∧ constantWithin (depth + 1) s = .read () (rest.dropWhile isNumberChar)) ∨
    (¬ ReadWhole n ∧ ∃ n' m, constantWithin (depth + 1) s = .read () m ∧ Spelled [.name n'] m rest ∧
      m.length < s.length) := by
  have hskip : skip s = n.text.toList ++ rest := (spelled_singleton.1 h).2.2
  obtain ⟨c, others, hn, hstart, -⟩ := exists_of_isName n.isName_text
  cases hc : isNumberChar c with
  | false =>
    refine .inl ⟨.inl (by simpa [hn] using hc), ?_⟩
    refine constantWithin_of_name ?_ (name_reads_iff.2 h)
    simpa [next?, hskip, hn] using hc
  | true =>
    right
    obtain ⟨digits, after, hothers, hdigits, hafter⟩ : ∃ digits after, others = digits ++ after ∧
        (∀ d ∈ digits, isNumberChar d = true) ∧ ∀ d ∈ after.head?, isNumberChar d = false :=
      ⟨_, _, takeWhile_eq_iff.1 ⟨rfl, rfl⟩⟩
    have hall : ∀ d ∈ c :: digits, isNumberChar d = true := List.forall_mem_cons.2 ⟨hc, hdigits⟩
    subst hothers
    cases after with
    | nil =>
      rw [List.append_nil] at hn
      exact .inl ⟨.inr (hn ▸ hall), constantWithin_of_numberName h hn hstart hall⟩
    | cons d after =>
      have hd : isNumberChar d = false := hafter d rfl
      refine .inr ⟨?_, exists_rest_of_numberChars h hn hstart hall hd⟩
      rintro (hopen | hwhole)
      · exact absurd (hopen c (by simp [hn])) (by simp [hc])
      · exact absurd (hwhole d (by simp [hn])) (by simp [hd])

/-! ## Lists -/

/-- Some name may be a value that is not read whole. -/
def Spoils (value : Name → Prop) : Prop := ∃ n, value n ∧ ¬ ReadWhole n

/-- What may stand in a list. -/
def IsItem (value : Name → Prop) (item : List Word) : Prop :=
  (∃ n, item = [.name n]) ∨ Constant value item

/-- An item that opens with a character of numbers, but not as a name does, is a number. -/
theorem IsItem.eq_number {item : List Word} {c : Char} (h : IsItem value item)
    (hs : Spelled item s m) (hnext : next? s = some c) (hc : isNumberChar c = true)
    (hname : isNameContinue c = false) : ∃ digits, item = [.number digits] := by
  have hstart : ∀ {n : Name}, item ≠ [.name n] := by
    rintro n rfl
    obtain ⟨d, hd, hstart⟩ := hs.nameNext
    rw [hnext] at hd
    cases hd
    rw [isNameContinue_of_isNameStart hstart] at hname
    cases hname
  rcases h with ⟨n, hn⟩ | h
  · exact absurd hn hstart
  · have hopen : ∀ {w : Word} {ws : List Word}, item = w :: ws → ∀ d ∈ w.chars.head?,
        isNumberChar d = true := by
      rintro w ws rfl d hd
      rw [← hs.next?_eq, hnext] at hd
      cases hd
      exact hc
    cases h with
    | line => exact absurd (hopen rfl _ rfl) (by decide)
    | block => exact absurd (hopen rfl _ rfl) (by decide)
    | number => exact ⟨_, rfl⟩
    | name => exact absurd rfl hstart
    | list => exact absurd (hopen rfl _ rfl) (by decide)
    | object => exact absurd (hopen rfl _ rfl) (by decide)

/-- A number may be read on into the next item, if that is a number. -/
theorem exists_items_dropWhile {items : List (List Word)}
    (hitems : ∀ item ∈ items, IsItem value item) (h : Spelled items.flatten s rest)
    (hend : ∀ c ∈ s.head?, isNameContinue c = false) (hrest : next? rest = some ']') :
    ∃ items', items' <:+ items ∧ Spelled items'.flatten (s.dropWhile isNumberChar) rest := by
  by_cases hstop : ∀ c ∈ s.head?, isNumberChar c = false
  · refine ⟨items, List.suffix_rfl, ?_⟩
    rwa [(takeWhile_eq_iff.2 ⟨(List.nil_append s).symm, by simp, hstop⟩).2]
  · obtain ⟨c, hc, hnumber⟩ : ∃ c ∈ s.head?, isNumberChar c = true := by simpa using hstop
    have hskip : skip s = s := skip_of_opensWord fun d hd => by
      rw [Option.mem_def.1 hc] at hd
      cases hd
      exact opensWord_of_isNumberChar hnumber
    have hnext : next? s = some c := by rw [next?, hskip, Option.mem_def.1 hc]
    cases items with
    | nil =>
      cases h
      rw [hrest] at hnext
      cases hnext
      exact absurd hnumber (by decide)
    | cons item items =>
      obtain ⟨m, hitem, htail⟩ := spelled_append.1 h
      obtain ⟨digits, rfl⟩ :=
        (hitems item List.mem_cons_self).eq_number hitem hnext hnumber (hend c hc)
      obtain ⟨⟨-, -, hall⟩, hm, hs⟩ := spelled_singleton.1 hitem
      rw [hskip] at hs
      refine ⟨items, List.suffix_cons _ _, ?_⟩
      rwa [(takeWhile_eq_iff.2 ⟨hs, hall, hm⟩).2]

theorem Constant.next?_ne (h : Constant value ws) (hs : Spelled ws s m) : next? s ≠ some ']' := by
  cases h with
  | line => simp [hs.next?_eq, Word.chars]
  | block => simp [hs.next?_eq, Word.chars]
  | number =>
    obtain ⟨⟨hne, -, hall⟩, -⟩ := spelled_singleton.1 hs
    intro hnext
    rw [hs.next?_eq] at hnext
    exact absurd (hall ']' (List.mem_of_head? hnext)) (by decide)
  | name => exact hs.nameNext.ne (by decide)
  | list => simp [hs.next?_eq, Word.chars]
  | object => simp [hs.next?_eq, Word.chars]

theorem constantWithin_misses_of_closing (h : next? s = some ']') :
    (constantWithin depth).Misses s := by
  cases depth with
  | zero => exact ⟨s, rfl⟩
  | succ depth =>
    refine firstOf_misses fun p hp => ?_
    simp only [List.mem_cons, List.not_mem_nil, or_false] at hp
    rcases hp with rfl | rfl | rfl | rfl | rfl
    · exact stringValue_misses (by simp [h])
    · exact number_misses (by simp [h]; decide)
    · exact bind_of_misses (name_misses (by simp [h]; decide))
    · exact between_of_misses (punctuator_misses (by simp [h]))
    · exact between_of_misses (punctuator_misses (by simp [h]))

/-- The rule reads what spells the words, or it misses because of a name in them. -/
def ReadOrMissed (value : Name → Prop) (p : Rule Char Unit) (ws : List Word) : Prop :=
  ∀ ⦃s m⦄, Spelled ws s m → p s = .read () m ∨ Spoils value ∧ p.Misses s

/-- **The items of a list are read**, whatever names they are, or an item misses. -/
theorem many_items {items : List (List Word)}
    (hitems : ∀ item ∈ items, IsItem value item ∧
      ((∀ n, item ≠ [.name n]) → ReadOrMissed value (constantWithin (depth + 1)) item))
    (h : Spelled items.flatten s rest) (hrest : next? rest = some ']') :
    ∃ all m, many (constantWithin (depth + 1)) s = .read all m ∧
      (m = rest ∨ Spoils value ∧ next? m ≠ some ']') := by
  induction hlen : s.length using Nat.strongRecOn generalizing items s with
  | _ n ih =>
    subst hlen
    -- what is left behind a first item is shorter
    have hstep : ∀ {items' : List (List Word)} {m}, constantWithin (depth + 1) s = .read () m →
        (∀ item ∈ items', IsItem value item ∧ ((∀ n, item ≠ [.name n]) →
          ReadOrMissed value (constantWithin (depth + 1)) item)) →
        Spelled items'.flatten m rest → ∃ all m, many (constantWithin (depth + 1)) s = .read all m ∧
          (m = rest ∨ Spoils value ∧ next? m ≠ some ']') := fun hread hitems' hspelled => by
      have hlt := (IsComposed.constantWithin _).advances hread
      obtain ⟨all, m, hmany, hm⟩ := ih _ hlt hitems' hspelled rfl
      exact ⟨() :: all, m, many_of_read hread hlt hmany, hm⟩
    cases items with
    | nil =>
      cases h
      exact ⟨[], _, many_of_misses (constantWithin_misses_of_closing hrest), .inl rfl⟩
    | cons item items =>
      obtain ⟨m, hitem, htail⟩ := spelled_append.1 h
      obtain ⟨⟨hisItem, hreads⟩, hothers⟩ := List.forall_mem_cons.1 hitems
      by_cases hname : ∃ n, item = [.name n]
      · obtain ⟨n, rfl⟩ := hname
        rcases constantWithin_name hitem with ⟨-, hread⟩ | ⟨-, hread⟩ | ⟨-, n', m', hread, hrest', -⟩
        · exact hstep hread hothers htail
        · obtain ⟨items', hsuffix, htail'⟩ := exists_items_dropWhile (fun i hi => (hothers i hi).1) htail
            (spelled_singleton.1 hitem).2.1 hrest
          exact hstep hread (fun i hi => hothers i (hsuffix.subset hi)) htail'
        · -- the rest of the name is an item of its own
          refine hstep hread (List.forall_mem_cons.2 ⟨⟨.inl ⟨n', rfl⟩, ?_⟩, hothers⟩)
            (spelled_append.2 ⟨m, hrest', htail⟩)
          exact fun hne => absurd rfl (hne n')
      · have hconstant : Constant value item := hisItem.resolve_left hname
        rcases hreads (not_exists.1 hname) hitem with hread | ⟨hspoils, hmiss⟩
        · exact hstep hread hothers htail
        · exact ⟨[], s, many_of_misses hmiss, .inr ⟨hspoils, hconstant.next?_ne hitem⟩⟩

/-! ## Entries -/

/-- The rule reads up to the rest, or a name that is not read whole lets it miss, or read up to a
name in front of the rest. -/
def Fares (value : Name → Prop) (p : Rule Char Unit) (s rest : List Char) : Prop :=
  p s = .read () rest ∨
    Spoils value ∧ (p.Misses s ∨
      ∃ n m, p s = .read () m ∧ Spelled [.name n] m rest ∧ m.length < s.length)

/-- **The entries of an object are read**, or the reading ends in front of a name. -/
theorem namedConstants_fares {entries : List (Name × List Word)} {p : Rule Char Unit} {c : Char}
    (hvalues : ∀ e ∈ entries, ∀ ⦃s m⦄, Spelled e.2 s m → Clear ['.', '+', '-'] m →
      Fares value p s m)
    (h : Spelled (entryWords entries) s rest) (hrest : next? rest = some c) (hc : c ∈ [')', '\x7d']) :
    ∃ m, namedConstants p s = .read () m ∧ (m = rest ∨ Spoils value ∧ NameNext m) := by
  have hother : ∀ d ∈ [')', '\x7d'], isNameStart d = false ∧ d ∈ ['"', ')', ']', '\x7d'] :=
    List.all_iff_forall_prop.1 (by decide)
  obtain ⟨hclosing, hsign⟩ := hother c hc
  suffices hmany : ∃ all m, (many do let _ ← name; punctuator ':'; p) s = .read all m ∧
      (m = rest ∨ Spoils value ∧ NameNext m) by
    obtain ⟨all, m, hmany, hm⟩ := hmany
    exact ⟨m, bind_of_read hmany, hm⟩
  induction entries generalizing s with
  | nil =>
    obtain rfl := spelled_nil.1 h
    have hmiss : name.Misses s := name_misses (by simpa [hrest] using hclosing)
    exact ⟨[], s, many_of_misses (bind_of_misses hmiss), .inl rfl⟩
  | cons e entries ih =>
    obtain ⟨hvalue, hothers⟩ := List.forall_mem_cons.1 hvalues
    obtain ⟨m₁, hname, h⟩ := spelled_cons.1 h
    obtain ⟨m₂, hcolon, h⟩ := spelled_cons.1 h
    obtain ⟨m₃, hspelled, h⟩ := spelled_append.1 h
    -- behind the value there is another entry, or the end
    have hfresh : Fresh m₃ := by
      cases entries with
      | nil =>
        cases h
        intro d hd
        rw [hrest] at hd
        cases hd
        exact .inr hsign
      | cons => exact Spelled.nameNext h |>.fresh
    have hread : ∀ {m}, p m₂ = .read () m →
        (do let _ ← name; punctuator ':'; p : Rule Char Unit) s = .read () m := fun hp => by
      rw [bind_of_read (name_reads_iff.2 hname),
        bind_of_read ((punctuator_reads_iff (by decide)).2 hcolon), hp]
    have hlt : ∀ {m : List Char}, m.length ≤ m₂.length → m.length < s.length := fun hle => by
      have hlen := (spelled_cons.2 ⟨m₁, hname, hcolon⟩).length_add_le
      simp only [List.length_cons, List.length_nil] at hlen
      omega
    rcases hvalue hspelled (hfresh.clear (by decide)) with hp | ⟨hspoils, hmiss | ⟨n, m, hp, hn, hle⟩⟩
    · obtain ⟨all, m, hmany, hm⟩ := ih hothers h
      have hle := hspelled.length_add_le
      exact ⟨() :: all, m, many_of_read (hread hp) (hlt (by omega)) hmany, hm⟩
    · refine ⟨[], s, many_of_misses ?_, .inr ⟨hspoils, hname.nameNext⟩⟩
      exact .of_bind (name_reads_iff.2 hname)
        (.of_bind ((punctuator_reads_iff (by decide)).2 hcolon) hmiss)
    · -- what is left of the name would have to be a name in front of a colon
      have hcolon' : Clear [':'] m₃ := hfresh.clear (by decide)
      have hend : (do let _ ← name; punctuator ':'; p : Rule Char Unit).Misses m :=
        .of_bind (name_reads_iff.2 hn) (bind_of_misses (punctuator_misses (hcolon'.ne (by simp))))
      exact ⟨[()], m, many_of_read (hread hp) (hlt (Nat.le_of_lt hle)) (many_of_misses hend),
        .inr ⟨hspoils, hn.nameNext⟩⟩

/-! ## Constants -/

/-- A character of numbers goes on with a name, unless it is a dot or a sign. -/
theorem isNumberChar_cases {c : Char} (h : isNumberChar c = true) :
    isNameContinue c = true ∨ c ∈ ['.', '+', '-'] := by
  simp only [isNumberChar, Bool.or_eq_true, decide_eq_true_eq] at h
  rcases h with ((((h | rfl) | rfl) | rfl) | rfl) | rfl
  · left
    simp [isNameContinue, Char.isAlphanum, h]
  all_goals decide

/-- No character of numbers follows a name, unless a dot or a sign comes next. -/
theorem Clear.not_isNumberChar {n : Name} (h : Clear ['.', '+', '-'] rest)
    (hend : (Word.name n).EndsBefore rest) : ∀ c ∈ rest.head?, isNumberChar c = false := by
  intro c hc
  cases hnumber : isNumberChar c with
  | false => rfl
  | true =>
    obtain ⟨t, rfl⟩ := List.head?_eq_some_iff.1 hc
    rcases isNumberChar_cases hnumber with hgo | hsign
    · rw [hend c hc] at hgo
      cases hgo
    · exact absurd hsign (h c (next?_cons_of_opensWord (opensWord_of_isNumberChar hnumber)))

/-- A constant fares well if it does not have to be read as a name. -/
theorem Constant.fares (h : Constant value ws)
    (hreads : (∀ n, ws ≠ [.name n]) → ReadOrMissed value (constantWithin (depth + 1)) ws)
    (hs : Spelled ws s rest) (hclear : Clear ['.', '+', '-'] rest) :
    Fares value (constantWithin (depth + 1)) s rest := by
  by_cases hname : ∃ n, ws = [.name n]
  · obtain ⟨n, rfl⟩ := hname
    have hvalue : value n := by
      cases h with
      | name hn => exact hn
    rcases constantWithin_name hs with ⟨-, hread⟩ | ⟨-, hread⟩ | ⟨hsplit, n', m, hread, hn', hlt⟩
    · exact .inl hread
    · have hstop := hclear.not_isNumberChar (spelled_singleton.1 hs).2.1
      rw [(takeWhile_eq_iff.2 ⟨(List.nil_append rest).symm, by simp, hstop⟩).2] at hread
      exact .inl hread
    · exact .inr ⟨⟨n, hvalue, hsplit⟩, .inr ⟨n', m, hread, hn', hlt⟩⟩
  · rcases hreads (not_exists.1 hname) hs with hread | ⟨hspoils, hmiss⟩
    · exact .inl hread
    · exact .inr ⟨hspoils, .inl hmiss⟩

theorem listWithin_reads {items : List (List Word)}
    (hitems : ∀ item ∈ items, IsItem value item ∧
      ((∀ n, item ≠ [.name n]) → ReadOrMissed value (constantWithin (depth + 1)) item))
    (h : Spelled (.mark '[' :: (items.flatten ++ [.mark ']'])) s rest) :
    listWithin (depth + 1) s = .read () rest ∨ Spoils value ∧ (listWithin (depth + 1)).Misses s := by
  obtain ⟨m₁, hopen, h⟩ := spelled_cons.1 h
  obtain ⟨m₂, hflat, hclose⟩ := spelled_append.1 h
  have hopen' := (punctuator_reads_iff (by decide)).2 hopen
  obtain ⟨all, m, hmany, rfl | ⟨hspoils, hnext⟩⟩ := many_items hitems hflat hclose.next?_eq
  · exact .inl (between_of_read hopen' (bind_of_read hmany)
      ((punctuator_reads_iff (by decide)).2 hclose))
  · refine .inr ⟨hspoils, .of_bind hopen' (.of_bind (bind_of_read hmany) ?_)⟩
    exact bind_of_misses (punctuator_misses hnext)

/-- The entries between an opening and a closing sign. -/
theorem between_entries {entries : List (Name × List Word)} {p : Rule Char Unit} {o c : Char}
    (ho : o ∈ marks) (hc : c ∈ [')', '\x7d'])
    (hvalues : ∀ e ∈ entries, ∀ ⦃s m⦄, Spelled e.2 s m → Clear ['.', '+', '-'] m →
      Fares value p s m)
    (h : Spelled (.mark o :: (entryWords entries ++ [.mark c])) s rest) :
    between (punctuator o) (namedConstants p) (punctuator c) s = .read () rest ∨
      Spoils value ∧ (between (punctuator o) (namedConstants p) (punctuator c)).Misses s := by
  have hother : ∀ d ∈ [')', '\x7d'], isNameStart d = false ∧ d ∈ marks :=
    List.all_iff_forall_prop.1 (by decide)
  obtain ⟨hclosing, hmark⟩ := hother c hc
  obtain ⟨m₁, hopen, h⟩ := spelled_cons.1 h
  obtain ⟨m₂, hentries, hclose⟩ := spelled_append.1 h
  have hopen' := (punctuator_reads_iff ho).2 hopen
  obtain ⟨m, hread, rfl | ⟨hspoils, hname⟩⟩ :=
    namedConstants_fares hvalues hentries hclose.next?_eq hc
  · exact .inl (between_of_read hopen' hread ((punctuator_reads_iff hmark).2 hclose))
  · refine .inr ⟨hspoils, .of_bind hopen' (.of_bind hread ?_)⟩
    exact bind_of_misses (punctuator_misses (hname.ne hclosing))

theorem entry_length_le {entries : List (Name × List Word)} {e : Name × List Word}
    (h : e ∈ entries) : e.2.length ≤ (entryWords entries).length := by
  have hsub : (.name e.1 :: .mark ':' :: e.2).Sublist (entryWords entries) :=
    List.sublist_flatten_of_mem (List.mem_map_of_mem h)
  have hle := hsub.length_le
  simp only [List.length_cons] at hle
  omega

/-- **A constant that is not a name** is read, or misses because of a name in it. -/
theorem Constant.readOrMissed (h : Constant value ws) (hname : ∀ n, ws ≠ [.name n])
    (hdepth : ws.length ≤ depth) : ReadOrMissed value (constantWithin depth) ws := by
  induction h generalizing depth with
  | @line body =>
    intro s m hs
    obtain ⟨depth, rfl⟩ := Nat.exists_eq_add_of_le' hdepth
    exact .inl (constantWithin_of_stringValue (stringValue_reads_iff.2 ⟨body, .inl hs⟩))
  | @block body =>
    intro s m hs
    obtain ⟨depth, rfl⟩ := Nat.exists_eq_add_of_le' hdepth
    exact .inl (constantWithin_of_stringValue (stringValue_reads_iff.2 ⟨body, .inr hs⟩))
  | @number digits =>
    intro s m hs
    obtain ⟨depth, rfl⟩ := Nat.exists_eq_add_of_le' hdepth
    have hquote : next? s ≠ some '"' := by
      obtain ⟨⟨-, -, hall⟩, -⟩ := spelled_singleton.1 hs
      rw [hs.next?_eq]
      exact fun hnext => absurd (hall '"' (List.mem_of_head? hnext)) (by decide)
    exact .inl (constantWithin_of_number hquote (number_reads_iff.2 ⟨digits, hs⟩))
  | name => exact absurd rfl (hname _)
  | @list items hitems ih =>
    intro s m hs
    simp only [List.length_cons, List.length_append, List.length_nil] at hdepth
    obtain ⟨depth, rfl⟩ := Nat.exists_eq_add_of_le' (show 2 ≤ depth by omega)
    have hnext := hs.next?_eq
    have hinside : ∀ item ∈ items, IsItem value item ∧ ((∀ n, item ≠ [.name n]) →
        ReadOrMissed value (constantWithin (depth + 1)) item) := fun item hmem => by
      have hle := (List.sublist_flatten_of_mem hmem).length_le
      refine ⟨?_, fun hne => ih item hmem hne hne (by omega)⟩
      by_cases hn : ∃ n, item = [.name n]
      · exact .inl hn
      · exact .inr (hitems item hmem (not_exists.1 hn))
    rcases listWithin_reads hinside hs with hread | ⟨hspoils, hmiss⟩
    · exact .inl (constantWithin_of_list hnext hread)
    · refine .inr ⟨hspoils, constantWithin_misses hnext (by simp) hmiss ?_⟩
      exact between_of_misses (punctuator_misses (by simp [hnext, Word.chars]))
  | @object entries hentries ih =>
    intro s m hs
    simp only [List.length_cons, List.length_append, List.length_nil] at hdepth
    obtain ⟨depth, rfl⟩ := Nat.exists_eq_add_of_le' (show 2 ≤ depth by omega)
    have hnext := hs.next?_eq
    have hinside : ∀ e ∈ entries, ∀ ⦃s m⦄, Spelled e.2 s m → Clear ['.', '+', '-'] m →
        Fares value (constantWithin (depth + 1)) s m := fun e hmem _ _ hspelled hclear => by
      have hle := entry_length_le hmem
      exact (hentries e hmem).fares (fun hne => ih e hmem hne (by omega)) hspelled hclear
    rcases between_entries (by decide) (by simp) hinside hs with hread | ⟨hspoils, hmiss⟩
    · exact .inl (constantWithin_of_object hnext hread)
    · refine .inr ⟨hspoils, constantWithin_misses hnext (by simp) ?_ hmiss⟩
      exact between_of_misses (punctuator_misses (by simp [hnext, Word.chars]))

/-- **A constant is read whole**, or a name in it lets the rule miss or stop early. -/
theorem constant_fares (h : Constant value ws) (hs : Spelled ws s rest)
    (hclear : Clear ['.', '+', '-'] rest) : Fares value constant s rest := by
  have hlen := hs.length_add_le
  have hfares : Fares value (constantWithin (s.length + 1)) s rest :=
    h.fares (fun hname => h.readOrMissed hname (by omega)) hs hclear
  exact hfares

/-! ## What the rules read -/

theorem exists_entries_of_namedConstants {p : Rule Char Unit}
    (hp : ∀ ⦃s m⦄, p s = .read () m → ∃ ws, Constant ReadWhole ws ∧ Spelled ws s m)
    (h : namedConstants p s = .read () rest) :
    ∃ entries : List (Name × List Word), (∀ e ∈ entries, Constant ReadWhole e.2) ∧
      Spelled (entryWords entries) s rest := by
  obtain ⟨all, m, hmany, hpure⟩ := exists_of_bind h
  obtain ⟨-, rfl⟩ := of_pure hpure
  refine many_induction hmany ⟨[], List.forall_mem_nil _, .nil⟩ fun hone ih => ?_
  obtain ⟨n, m₁, hn, hone⟩ := exists_of_bind hone
  obtain ⟨_, m₂, hcolon, hvalue⟩ := exists_of_bind hone
  obtain ⟨ws, hws, hspelled⟩ := hp hvalue
  obtain ⟨entries, hentries, hothers⟩ := ih
  refine ⟨(n, ws) :: entries, List.forall_mem_cons.2 ⟨hws, hentries⟩, ?_⟩
  exact spelled_cons.2 ⟨m₁, name_reads_iff.1 hn, spelled_cons.2 ⟨m₂,
    (punctuator_reads_iff (by decide)).1 hcolon, spelled_append.2 ⟨_, hspelled, hothers⟩⟩⟩

/-- The rule for entries between an opening and a closing sign reads these. -/
theorem exists_entries_of_between {p : Rule Char Unit} {o c : Char} (ho : o ∈ marks) (hc : c ∈ marks)
    (hp : ∀ ⦃s m⦄, p s = .read () m → ∃ ws, Constant ReadWhole ws ∧ Spelled ws s m)
    (h : between (punctuator o) (namedConstants p) (punctuator c) s = .read () rest) :
    ∃ entries : List (Name × List Word), (∀ e ∈ entries, Constant ReadWhole e.2) ∧
      Spelled (.mark o :: (entryWords entries ++ [.mark c])) s rest := by
  obtain ⟨_, m₁, m₂, _, hopen, hmany, hclose⟩ := exists_of_between h
  obtain ⟨entries, hentries, hspelled⟩ := exists_entries_of_namedConstants hp hmany
  refine ⟨entries, hentries, spelled_cons.2 ⟨m₁, (punctuator_reads_iff ho).1 hopen, ?_⟩⟩
  exact spelled_append.2 ⟨m₂, hspelled, (punctuator_reads_iff hc).1 hclose⟩

/-- **What is read is a constant**, and its names are read whole. -/
theorem constant_of_constantWithin (h : constantWithin depth s = .read () rest) :
    ∃ ws, Constant ReadWhole ws ∧ Spelled ws s rest := by
  induction depth generalizing s rest with
  | zero => cases h
  | succ depth ih =>
    rcases of_orElse h with h | ⟨-, h⟩
    · obtain ⟨body, h | h⟩ := stringValue_reads_iff.1 h
      · exact ⟨_, .line, h⟩
      · exact ⟨_, .block, h⟩
    rcases of_orElse h with h | ⟨hmiss, h⟩
    · obtain ⟨digits, h⟩ := number_reads_iff.1 h
      exact ⟨_, .number, h⟩
    rcases of_orElse h with h | ⟨-, h⟩
    · obtain ⟨n, m, hn, h⟩ := exists_of_bind h
      obtain ⟨-, rfl⟩ := of_pure h
      have hspelled := name_reads_iff.1 hn
      refine ⟨_, .name (n := n) (.inl fun c hc => ?_), hspelled⟩
      -- a character of numbers would have been read as one
      cases hnumber : isNumberChar c with
      | false => rfl
      | true =>
        have hnext : next? s = some c := hspelled.next?_eq.trans hc
        obtain ⟨_, hstart, hopens⟩ := hspelled.nameNext
        rw [hnext] at hstart
        cases hstart
        obtain ⟨digits, m, hdigits⟩ := exists_number hnext hnumber hopens
        exact absurd (number_reads_iff.2 ⟨digits, hdigits⟩) hmiss.not_read
    rcases of_orElse h with h | ⟨-, h⟩
    · obtain ⟨_, m₁, m₂, _, hopen, hinside, hclose⟩ := exists_of_between h
      obtain ⟨all, m, hmany, hpure⟩ := exists_of_bind hinside
      obtain ⟨-, rfl⟩ := of_pure hpure
      obtain ⟨items, hitems, hspelled⟩ := exists_spelled_of_many (fun _ _ _ => ih) hmany
      refine ⟨_, .list fun item hmem _ => hitems item hmem, spelled_cons.2 ⟨m₁, ?_, ?_⟩⟩
      · exact (punctuator_reads_iff (by decide)).1 hopen
      · exact spelled_append.2 ⟨m, hspelled, (punctuator_reads_iff (by decide)).1 hclose⟩
    · obtain ⟨entries, hentries, hspelled⟩ :=
        exists_entries_of_between (by decide) (by decide) (fun _ _ => ih) h
      exact ⟨_, .object hentries, hspelled⟩

end StructQL.SDL
