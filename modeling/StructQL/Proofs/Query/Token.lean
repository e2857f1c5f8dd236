import StructQL.Proofs.Name
import StructQL.Proofs.Reading.Rule
import StructQL.Query.Token

/-!
# Texts that are read as tokens

A token is read off the front of a text together with the blanks behind it. So a text is read as
tokens chunk by chunk, each the spelling of a token that blanks or the end follow.

* `Spelling`: how names, braces and points are spelled.
* `Lexes`: a text that is read as tokens.
* `token_of_spelling`: **a spelling and the blanks behind it are read as one token.**
* `Lexes.word`, `Lexes.ofSource?`: chunk by chunk, up to the whole source.
-/

namespace StructQL.Query.Token

open Rule

/-- **How a token is spelled**: a name, a brace, or three points. -/
inductive Spelling : String → Token → Prop where
  | name (n : Name) : Spelling n.text (.name n)
  | brace {c : Char} : c = '\x7b' ∨ c = '\x7d' → Spelling (String.singleton c) (.punctuator c)
  | spread : Spelling "..." .spread

/-- Characters that separate tokens, and nothing else. -/
def IsBlank (cs : List Char) : Prop := ∀ c ∈ cs, isSeparator c = true

/-- No separator and no comment comes next. -/
def IsSettled (cs : List Char) : Prop := ∀ c ∈ cs.head?, isSeparator c = false ∧ c ≠ '#'

variable {cs blank rest : List Char} {text : String} {t : Token} {ts : List Token}

/-! ## Blanks -/

/-- A run of separators, or a comment. -/
def blankRule : Rule Char Unit :=
  firstOf [
    (do let _ ← takeWhile1 isSeparator),
    (do item '#'; let _ ← takeWhile fun c => !isLineEnd c)]

theorem ignored_eq : ignored = (do let _ ← many blankRule) := rfl

theorem many_blankRule (h : IsSettled rest) : many blankRule rest = .read [] rest := by
  refine many_of_misses (firstOf_misses ?_)
  intro p hp
  simp only [List.mem_cons, List.not_mem_nil, or_false] at hp
  obtain rfl | rfl := hp
  · refine bind_of_misses (takeWhile1_misses ?_)
    intro c hc
    exact (h c hc).1
  · refine bind_of_misses (item_misses ?_)
    intro hc
    exact (h '#' hc).2 rfl

/-- **Blanks are skipped.** -/
theorem ignored_append (hblank : IsBlank blank) (hrest : IsSettled rest) :
    ignored (blank ++ rest) = .read () rest := by
  have hmany : ∃ l, many blankRule (blank ++ rest) = .read l rest := by
    by_cases hnil : blank = []
    · subst hnil
      exact ⟨[], many_blankRule hrest⟩
    · have htake : takeWhile1 isSeparator (blank ++ rest) = .read blank rest :=
        takeWhile1_reads_iff.2 ⟨hnil, rfl, hblank, fun c hc => (hrest c hc).1⟩
      have hfirst : blankRule (blank ++ rest) = .read () rest :=
        firstOf_cons_of_read (bind_of_read htake)
      have hlength : 0 < blank.length := List.length_pos_iff.2 hnil
      refine ⟨[()], many_of_read hfirst ?_ (many_blankRule hrest)⟩
      rw [List.length_append]
      omega
  obtain ⟨l, hl⟩ := hmany
  rw [ignored_eq]
  exact bind_of_read hl

/-! ## One token -/

/-- The rules for tokens, one for each kind. -/
def tokenRules : List (Rule Char Token) :=
  [nameToken, (do let c ← satisfy punctuators.contains; return punctuator c),
    (do items ['.', '.', '.']; return spread), numberToken, stringToken]

theorem token_eq : token = (do let t ← firstOf tokenRules; ignored; return t) := rfl

theorem nameToken_append (n : Name) (h : ∀ c ∈ rest.head?, isNameContinue c = false) :
    nameToken (n.text.toList ++ rest) = .read (.name n) rest := by
  obtain ⟨first, others, heq, hfirst, hothers⟩ := exists_of_isName n.isName_text
  have hread : Name.ofChars? (first :: others) = some n := ofChars?_eq_some_iff.2 heq.symm
  unfold nameToken
  rw [heq, List.cons_append, bind_of_read (satisfy_reads_iff.2 ⟨rfl, hfirst⟩),
    bind_of_read (takeWhile_reads_iff.2 ⟨rfl, hothers, h⟩), hread]
  rfl

theorem nameToken_misses (h : ∀ c ∈ cs.head?, isNameStart c = false) : nameToken.Misses cs :=
  bind_of_misses (satisfy_misses h)

theorem isNameContinue_of_isSeparator {c : Char} (h : isSeparator c = true) :
    isNameContinue c = false := by
  simp only [isSeparator, isLineEnd, Bool.or_eq_true, decide_eq_true_eq] at h
  obtain ((rfl | rfl) | rfl) | rfl | rfl := h <;> decide

/-- **A spelling is read as its token**, if no character of a name follows it. -/
theorem tokenRules_of_spelling (h : Spelling text t)
    (hrest : ∀ c ∈ rest.head?, isNameContinue c = false) :
    firstOf tokenRules (text.toList ++ rest) = .read t rest := by
  cases h with
  | name n => exact firstOf_cons_of_read (nameToken_append n hrest)
  | @brace c hc =>
    have hname : nameToken.Misses ((String.singleton c).toList ++ rest) := by
      refine nameToken_misses ?_
      intro d hd
      obtain rfl : c = d := by simpa using hd
      rcases hc with rfl | rfl <;> decide
    have hmark : punctuators.contains c = true := by
      rcases hc with rfl | rfl <;> decide
    rw [tokenRules, firstOf_cons_of_misses hname (by simp)]
    exact firstOf_cons_of_read (bind_of_read (satisfy_reads_iff.2 ⟨by simp, hmark⟩))
  | spread =>
    have hname : nameToken.Misses ("...".toList ++ rest) := by
      refine nameToken_misses ?_
      intro d hd
      obtain rfl : '.' = d := by simpa using hd
      decide
    have hmark : (do let c ← satisfy punctuators.contains; return punctuator c : Rule Char Token).Misses
        ("...".toList ++ rest) := by
      refine bind_of_misses (satisfy_misses ?_)
      intro d hd
      obtain rfl : '.' = d := by simpa using hd
      decide
    rw [tokenRules, firstOf_cons_of_misses hname (by simp), firstOf_cons_of_misses hmark (by simp)]
    exact firstOf_cons_of_read (bind_of_read (items_reads_iff.2 rfl))

/-- **A spelling and the blanks behind it are read as one token.** -/
theorem token_of_spelling (h : Spelling text t) (hblank : IsBlank blank) (hrest : IsSettled rest)
    (hends : blank = [] → rest = []) :
    token (text.toList ++ (blank ++ rest)) = .read t rest := by
  have hnext : ∀ c ∈ (blank ++ rest).head?, isNameContinue c = false := by
    intro c hc
    cases blank with
    | nil =>
      rw [hends rfl] at hc
      cases hc
    | cons d ds =>
      obtain rfl : d = c := by simpa using hc
      exact isNameContinue_of_isSeparator (hblank d List.mem_cons_self)
  rw [token_eq, bind_of_read (tokenRules_of_spelling h hnext),
    bind_of_read (ignored_append hblank hrest), pure_apply]

/-- A token opens with a character that is not skipped. -/
theorem Spelling.exists_cons (h : Spelling text t) :
    ∃ c others, text.toList = c :: others ∧ isSeparator c = false ∧ c ≠ '#' := by
  have hnotComment : ∀ {c}, isNameStart c = true → c ≠ '#' := by
    rintro c hc rfl
    revert hc
    decide
  cases h with
  | name n =>
    obtain ⟨c, others, heq, hc, -⟩ := exists_of_isName n.isName_text
    refine ⟨c, others, heq, ?_, hnotComment hc⟩
    rw [Bool.eq_false_iff]
    intro hseparator
    have hnot := isNameContinue_of_isSeparator hseparator
    rw [isNameContinue_of_isNameStart hc] at hnot
    cases hnot
  | @brace c hc =>
    refine ⟨c, [], by simp, ?_⟩
    rcases hc with rfl | rfl <;> decide
  | spread => exact ⟨'.', ['.', '.'], rfl, by decide, by decide⟩

/-! ## A text -/

/-- The text is read as the tokens, to its end. -/
def Lexes (cs : List Char) (ts : List Token) : Prop := many token cs = .read ts []

theorem Lexes.nil : Lexes [] [] := many_of_misses ⟨[], by rfl⟩

/-- **One more spelling in front**, with the blanks behind it. -/
theorem Lexes.word (h : Spelling text t) (hblank : IsBlank blank) (hrest : IsSettled rest)
    (hends : blank = [] → rest = []) (hlexes : Lexes rest ts) :
    Lexes (text.toList ++ (blank ++ rest)) (t :: ts) := by
  obtain ⟨c, others, heq, -⟩ := h.exists_cons
  refine many_of_read (token_of_spelling h hblank hrest hends) ?_ hlexes
  rw [heq, List.length_append, List.length_append, List.length_cons]
  omega

/-- **Blanks in front of a text that is read** are skipped, and it is a source of its tokens. -/
theorem Lexes.ofSource? {source : String} (h : Lexes rest ts) (hsource : source.toList = blank ++ rest)
    (hblank : IsBlank blank) (hrest : IsSettled rest) : ofSource? source = some ts := by
  unfold Token.ofSource? readAll?
  rw [hsource, bind_of_read (ignored_append hblank hrest), h]

end StructQL.Query.Token
