import StructQL.Proofs.SDL.Slot

/-!
# Fields are read as they are spelled

* `typeRef_reads_iff`: the rule for types reads just the types.
* `many_fares`: **a listing is read item by item, or the reading ends early**.
* `inputValue_fares`, `fieldDefinition_fares`: arguments and fields with what may be dropped.
* `FieldsRule`: what is asked of a rule for the fields of a type.
* `fieldsDefinition_fieldsRule`, `inputFieldsDefinition_fieldsRule`: both rules for fields.
-/

namespace StructQL.SDL

open Rule

variable {α : Type} {value : Name → Prop} {ws : List Word} {ps qs : List Piece} {s m rest : List Char}

/-! ## Types -/

/-- The rule for a type without its mark. -/
def typeHead (depth : Nat) : Rule Char (Bool → TypeRef) :=
  orElse
    (do
      let item ← between (punctuator '[') (typeRefWithin depth) (punctuator ']')
      return TypeRef.list item)
    (do
      let n ← name
      return TypeRef.named n)

/-- The mark of a type without null, or none. -/
def markWords (nonNull : Bool) : List Word := if nonNull then [.mark '!'] else []

theorem typeRefWithin_of_head {build : Bool → TypeRef} {depth : Nat} {nonNull : Bool}
    (hhead : typeHead depth s = .read build m) (hmark : Spelled (markWords nonNull) m rest)
    (hnext : next? rest ≠ some '!') : typeRefWithin (depth + 1) s = .read (build nonNull) rest := by
  refine (bind_of_read hhead).trans ?_
  cases nonNull with
  | true => exact bind_of_read (optional_of_read ((punctuator_reads_iff (by decide)).2 hmark))
  | false =>
    obtain rfl := spelled_nil.1 hmark
    exact bind_of_read (optional_of_misses (punctuator_misses hnext))

theorem exists_of_typeRefWithin {type : TypeRef} {depth : Nat}
    (h : typeRefWithin (depth + 1) s = .read type rest) :
    ∃ build m nonNull, typeHead depth s = .read build m ∧ Spelled (markWords nonNull) m rest ∧
      type = build nonNull := by
  obtain ⟨build, m, hhead, h⟩ := exists_of_bind h
  obtain ⟨mark, r, hmark, hpure⟩ := exists_of_bind h
  obtain ⟨rfl, rfl⟩ := of_pure hpure
  refine ⟨build, m, mark.isSome, hhead, ?_, rfl⟩
  rcases of_optional hmark with ⟨_, rfl, hread⟩ | ⟨rfl, rfl, -⟩
  · exact (punctuator_reads_iff (by decide)).1 hread
  · exact .nil

/-- **A type is read** up to what is no mark. -/
theorem typeRefWithin_of_spelled {type : TypeRef} {depth : Nat} (hs : Spelled (typeWords type) s rest)
    (hdepth : (typeWords type).length ≤ depth) (hnext : next? rest ≠ some '!') :
    typeRefWithin depth s = .read type rest := by
  induction type generalizing depth s rest with
  | named n nonNull =>
    simp only [typeWords, List.length_cons] at hdepth
    obtain ⟨depth, rfl⟩ := Nat.exists_eq_add_of_le' (show 1 ≤ depth by omega)
    obtain ⟨m, hn, hmark⟩ := spelled_cons.1 hs
    have hlist : (between (punctuator '[') (typeRefWithin depth) (punctuator ']')).Misses s :=
      between_of_misses (punctuator_misses (hn.nameNext.ne (by decide)))
    have hhead : typeHead depth s = .read (TypeRef.named n) m :=
      (orElse_of_misses (bind_of_misses hlist)).trans (bind_of_read (name_reads_iff.2 hn))
    exact typeRefWithin_of_head hhead hmark hnext
  | list item nonNull ih =>
    simp only [typeWords, List.length_cons, List.length_append] at hdepth
    obtain ⟨depth, rfl⟩ := Nat.exists_eq_add_of_le' (show 1 ≤ depth by omega)
    obtain ⟨m₁, hopen, hs⟩ := spelled_cons.1 hs
    obtain ⟨m₂, hitem, hs⟩ := spelled_append.1 hs
    obtain ⟨m₃, hclose, hmark⟩ := spelled_cons.1 hs
    have hread : typeRefWithin depth m₁ = .read item m₂ :=
      ih hitem (by omega) (by simp [hclose.next?_eq, Word.chars])
    have hlist := between_of_read ((punctuator_reads_iff (by decide)).2 hopen) hread
      ((punctuator_reads_iff (by decide)).2 hclose)
    have hhead : typeHead depth s = .read (TypeRef.list item) m₃ :=
      orElse_of_read (bind_of_read hlist)
    exact typeRefWithin_of_head hhead hmark hnext

theorem spelled_of_typeRefWithin {type : TypeRef} {depth : Nat}
    (h : typeRefWithin depth s = .read type rest) : Spelled (typeWords type) s rest := by
  induction depth generalizing type s rest with
  | zero => cases h
  | succ depth ih =>
    obtain ⟨build, m, nonNull, hhead, hmark, rfl⟩ := exists_of_typeRefWithin h
    rcases of_orElse hhead with hlist | ⟨-, hname⟩
    · obtain ⟨item, r, hbetween, hpure⟩ := exists_of_bind hlist
      obtain ⟨rfl, rfl⟩ := of_pure hpure
      obtain ⟨_, m₁, m₂, _, hopen, hitem, hclose⟩ := exists_of_between hbetween
      exact spelled_cons.2 ⟨m₁, (punctuator_reads_iff (by decide)).1 hopen, spelled_append.2 ⟨m₂, ih hitem,
        spelled_cons.2 ⟨r, (punctuator_reads_iff (by decide)).1 hclose, hmark⟩⟩⟩
    · obtain ⟨n, r, hn, hpure⟩ := exists_of_bind hname
      obtain ⟨rfl, rfl⟩ := of_pure hpure
      exact spelled_cons.2 ⟨r, name_reads_iff.1 hn, hmark⟩

theorem typeRef_of_read {type : TypeRef} (h : typeRef s = .read type rest) :
    Dressed (Slot.Holds ReadWhole) (typePieces type) s rest :=
  dressed_words.2 (spelled_of_typeRefWithin h)

theorem typeRef_readsAs {type : TypeRef} (h : Spelled (typeWords type) s rest)
    (hnext : next? rest ≠ some '!') : ReadsAs typeRef (typePieces type) type s rest := by
  have hlen := h.length_add_le
  have hread : typeRef s = .read type rest := typeRefWithin_of_spelled h (by omega) hnext
  exact ⟨hread, typeRef_of_read hread⟩

/-! ## Listings -/

section Listings

variable {one : α → List Piece → Prop} {p : Rule Char α} {jammed : List Char → Prop}

/-- **A listing is read item by item**, or the reading stops, or it ends where the rule misses. -/
theorem many_fares {xs : List α} (follows : List Char → Prop) (h : Listed one xs ps)
    (hone : ∀ {x qs s m}, one x qs → Dressed (Slot.Holds value) qs s m → follows m →
      ReadsOrJams value jammed p qs x s m)
    (hp : p.Advances)
    (hfollows : ∀ {x qs s m}, one x qs → Dressed (Slot.Holds value) qs s m → follows s)
    (hjammed : ∀ {m}, jammed m → p.Misses m)
    (hs : Dressed (Slot.Holds value) ps s rest) (hrest : follows rest) (hend : p.Misses rest) :
    ReadsOrJams value jammed (many p) ps xs s rest := by
  induction h generalizing s with
  | nil =>
    obtain rfl := dressed_nil.1 hs
    exact .inl ⟨many_of_misses hend, .nil⟩
  | cons hx hxs ih =>
    obtain ⟨m, hfirst, hothers⟩ := dressed_append.1 hs
    have hm : follows m := by
      cases hxs with
      | nil => exact dressed_nil.1 hothers ▸ hrest
      | cons hy _ =>
        obtain ⟨r, hnext, -⟩ := dressed_append.1 hothers
        exact hfollows hy hnext
    rcases hone hx hfirst hm with hread | ⟨hspoils, hstop | ⟨y, r, hread, hr⟩⟩
    · rcases ih hothers with hall | ⟨hspoils, hstop | ⟨ys, r, hall, hr⟩⟩
      · exact .reads ⟨many_of_read hread.read (hp hread.read) hall.read,
          dressed_append.2 ⟨m, hread.dressed, hall.dressed⟩⟩
      · exact .stops hspoils (.of_many hread.read (hp hread.read) hstop)
      · exact .ends hspoils (many_of_read hread.read (hp hread.read) hall) hr
    · exact .stops hspoils (many_of_stops hstop)
    · exact .ends hspoils (many_of_read hread (hp hread) (many_of_misses (hjammed hr))) hr

/-- What a repetition reads is a listing. -/
theorem listed_of_many {xs : List α}
    (hp : ∀ {x s m}, p s = .read x m → ∃ qs, one x qs ∧ Dressed (Slot.Holds ReadWhole) qs s m)
    (h : many p s = .read xs rest) :
    ∃ ps, Listed one xs ps ∧ Dressed (Slot.Holds ReadWhole) ps s rest := by
  refine many_induction h ⟨[], .nil, .nil⟩ fun hone ih => ?_
  obtain ⟨ps, hps, hdressed⟩ := hp hone
  obtain ⟨qs, hqs, hothers⟩ := ih
  exact ⟨ps ++ qs, .cons hps hqs, dressed_append.2 ⟨_, hdressed, hothers⟩⟩

/-- **A list between two signs is read**, or the reading stops in front of the closing one. -/
theorem enclosed_fares {o c : Char} {xs : List α} (ho : o ∈ marks) (hc : c ∈ marks)
    (h : Enclosed o c one xs ps)
    (hmany : ∀ {ps s m}, Listed one xs ps → Dressed (Slot.Holds value) ps s m → next? m = some c →
      ReadsOrJams value (fun m => next? m ≠ some c) (many p) ps xs s m)
    (hs : Dressed (Slot.Holds value) ps s rest) (hnext : next? rest ≠ some o) :
    (∃ got, ReadsAs (optional (between (punctuator o) (many p) (commit (punctuator c)))) ps got s rest ∧
        got.getD [] = xs) ∨
      Spoils value ∧ (optional (between (punctuator o) (many p) (commit (punctuator c)))).Stops s := by
  cases h with
  | absent =>
    obtain rfl := dressed_nil.1 hs
    exact .inl ⟨none, .optional_none (between_of_misses (punctuator_misses hnext)), rfl⟩
  | present hlisted =>
    obtain ⟨m₁, hopen, hs⟩ := dressed_word_cons.1 hs
    obtain ⟨m₂, hinside, hclose⟩ := dressed_append.1 hs
    have hopen' := (punctuator_reads_iff ho).2 hopen
    replace hclose := dressed_sign.1 hclose
    have hclose' := (punctuator_reads_iff hc).2 hclose
    rcases hmany hlisted hinside hclose.next?_eq with hread | ⟨hspoils, hstop | ⟨ys, r, hread, hr⟩⟩
    · refine .inl ⟨some xs, .optional ?_, rfl⟩
      exact ⟨between_of_read hopen' hread.read (commit_of_read hclose'),
        .word hopen (dressed_append.2 ⟨m₂, hread.dressed, dressed_sign.2 hclose⟩)⟩
    · exact .inr ⟨hspoils, optional_of_stops (.of_bind hopen' (bind_of_stops hstop))⟩
    · exact .inr ⟨hspoils, optional_of_stops (.of_bind hopen' (.of_bind hread
        (bind_of_stops (commit_of_misses (punctuator_misses hr)))))⟩

/-- What is read between two signs is a list between them. -/
theorem enclosed_of_between {o c : Char} {xs : List α} {q : Rule Char Unit} (ho : o ∈ marks)
    (hq : ∀ {s m}, q s = .read () m → Spelled [.mark c] s m)
    (hp : ∀ {x s m}, p s = .read x m → ∃ qs, one x qs ∧ Dressed (Slot.Holds ReadWhole) qs s m)
    (h : between (punctuator o) (many p) q s = .read xs rest) :
    ∃ ps, Enclosed o c one xs ps ∧ Dressed (Slot.Holds ReadWhole) ps s rest := by
  obtain ⟨_, m₁, m₂, _, hopen, hmany, hclose⟩ := exists_of_between h
  obtain ⟨ps, hps, hdressed⟩ := listed_of_many hp hmany
  refine ⟨_, .present hps, .word ((punctuator_reads_iff ho).1 hopen) ?_⟩
  exact dressed_append.2 ⟨m₂, hdressed, dressed_sign.2 (hq hclose)⟩

/-- What may be left out is a list that may be left out. -/
theorem enclosed_of_optional {o c : Char} {got : Option (List α)} {q : Rule Char (List α)}
    (hq : ∀ {xs s m}, q s = .read xs m →
      ∃ ps, Enclosed o c one xs ps ∧ Dressed (Slot.Holds ReadWhole) ps s m)
    (h : optional q s = .read got rest) :
    ∃ ps, Enclosed o c one (got.getD []) ps ∧ Dressed (Slot.Holds ReadWhole) ps s rest := by
  rcases of_optional h with ⟨xs, rfl, hread⟩ | ⟨rfl, rfl, -⟩
  · exact hq hread
  · exact ⟨[], .absent, .nil⟩

end Listings

/-! ## Arguments -/

/-- **Where an input value ended too early**: in front of arguments or a default value that were not
read, or of a name without a type. -/
def Stuck (s : List Char) : Prop :=
  next? s = some '(' ∨ next? s = some '=' ∨ ∃ n r, Spelled [.name n] s r ∧ next? r ≠ some ':'

theorem Stuck.next?_ne {c : Char} (h : Stuck s) (hc : c ∈ ['"', ')', '\x7d']) : next? s ≠ some c := by
  have hother : ∀ d ∈ ['"', ')', '\x7d'], d ≠ '(' ∧ d ≠ '=' ∧ isNameStart d = false :=
    List.all_iff_forall_prop.1 (by decide)
  obtain ⟨hparen, hequals, hname⟩ := hother c hc
  rcases h with h | h | ⟨n, r, hn, -⟩
  · simpa [h] using hparen.symm
  · simpa [h] using hequals.symm
  · exact hn.nameNext.ne hname

/-- What opens a place without meaning. -/
def Slot.opening : Slot → Char
  | .description => '"'
  | .directives => '@'
  | .defaultValue => '='

/-- A place is empty, or something that is told by its first character stands there. -/
theorem Slot.Holds.eq_or_opens {kind : Slot} (h : kind.Holds value ws) (hs : Spelled ws s rest) :
    s = rest ∨ next? s = some kind.opening := by
  cases h with
  | noDescription | noDefault => exact .inl (spelled_nil.1 hs)
  | line | block | default => exact .inr hs.next?_eq
  | @directives all hall =>
    cases all with
    | nil => exact .inl (spelled_nil.1 hs)
    | cons ws all =>
      obtain ⟨ws, rfl⟩ := (hall _ List.mem_cons_self).exists_cons
      exact .inr hs.next?_eq

/-- What opens no place without meaning is not in front of one if it is not behind it. -/
theorem Clear.slot {kind : Slot} {cs : List Char} (h : Clear cs rest) (hholds : kind.Holds value ws)
    (hs : Spelled ws s rest) (hopening : kind.opening ∉ cs) : Clear cs s := by
  rcases hholds.eq_or_opens hs with rfl | hnext
  · exact h
  · intro c hc
    rw [hnext] at hc
    cases hc
    exact hopening

theorem inputValue_of_read {v : InputValue} (h : inputValue s = .read v rest) :
    Dressed (Slot.Holds ReadWhole) (inputPieces v) s rest := by
  obtain ⟨_, m₁, hdescription, h⟩ := exists_of_bind h
  obtain ⟨n, m₂, hn, h⟩ := exists_of_bind h
  obtain ⟨_, m₃, hcolon, h⟩ := exists_of_bind h
  obtain ⟨type, m₄, htype, h⟩ := exists_of_bind h
  obtain ⟨o, m₅, hdefault, h⟩ := exists_of_bind h
  obtain ⟨_, m₆, hdirectives, hpure⟩ := exists_of_bind h
  obtain ⟨rfl, rfl⟩ := of_pure hpure
  have hplaces : Dressed (Slot.Holds ReadWhole) ([.slot .defaultValue] ++ [.slot .directives]) m₄ m₆ :=
    dressed_append.2 ⟨m₅, default_of_read hdefault, directives_of_read hdirectives⟩
  refine dressed_append.2 ⟨m₁, description_of_read hdescription, ?_⟩
  refine .word (name_reads_iff.1 hn) (.word ((punctuator_reads_iff (by decide)).1 hcolon) ?_)
  exact dressed_append.2 ⟨m₄, typeRef_of_read htype, hplaces⟩

theorem isInput_of_read {v : InputValue} (h : inputValue s = .read v rest) :
    ∃ ps, IsInput v ps ∧ Dressed (Slot.Holds ReadWhole) ps s rest :=
  ⟨_, rfl, inputValue_of_read h⟩

/-- **An input value is read**, or the reading gets stuck behind it. -/
theorem inputValue_fares {v : InputValue} (h : Dressed (Slot.Holds value) (inputPieces v) s rest)
    (hfresh : Fresh rest) : ReadsOrJams value Stuck inputValue (inputPieces v) v s rest := by
  obtain ⟨_, m₁, hholds, hspelled, h⟩ := dressed_slot_cons.1 h
  obtain ⟨m₂, hn, h⟩ := dressed_word_cons.1 h
  obtain ⟨m₃, hcolon, h⟩ := dressed_word_cons.1 h
  obtain ⟨m₄, htype, h⟩ := dressed_append.1 h
  obtain ⟨_, m₅, hdefault, hdefault', h⟩ := dressed_slot_cons.1 h
  obtain ⟨_, hdirectives, hdirectives'⟩ := dressed_slot.1 h
  have hclear₅ : Clear ['.', '+', '-', '=', '!', ':'] m₅ :=
    (hfresh.clear (by decide)).slot hdirectives hdirectives' (by decide)
  have hclear₄ : Clear ['!'] m₄ :=
    (hclear₅.mono (by decide)).slot hdefault hdefault' (by decide)
  have hdescription := description_readsAs hholds hspelled (hn.nameNext.ne (by decide))
  have htype' := typeRef_readsAs (dressed_words.1 htype) (hclear₄.ne (by simp))
  refine .bind hdescription (.bind (.name hn) (.bind (.punctuator (by decide) hcolon) ?_))
  refine .bind htype' ?_
  rcases default_fares hdefault hdefault' (hclear₅.mono (by decide)) with
    ⟨o, hread⟩ | ⟨hspoils, o, m, hread, hm⟩
  · rcases directives_fare hdirectives hdirectives' (hfresh.clear (by decide)) with
      hlast | ⟨hspoils, m, hlast, hm⟩
    · exact .reads (hread.bind (hlast.bind (.pure v _)))
    · exact .ends hspoils ((bind_of_read hread.read).trans (bind_of_read hlast)) (.inl hm)
  · -- no directive comes next
    have hstuck : Stuck m := by
      rcases hm with hm | ⟨n, hn⟩
      · exact .inr (.inl hm)
      · exact .inr (.inr ⟨n, m₅, hn, hclear₅.ne (by simp)⟩)
    have hat : next? m ≠ some '@' := by
      rcases hm with hm | ⟨n, hn⟩
      · simp [hm]
      · exact hn.nameNext.ne (by decide)
    exact .ends hspoils ((bind_of_read hread).trans (bind_of_read (directives_none hat))) hstuck

theorem inputValue_misses (h : Stuck s) : inputValue.Misses s := by
  have hdescription : description s = .read () s :=
    bind_of_read (optional_of_misses (stringValue_misses (h.next?_ne (by simp))))
  refine .of_bind hdescription ?_
  rcases h with h | h | ⟨n, r, hn, hcolon⟩
  · exact bind_of_misses (name_misses (by simp [h]; decide))
  · exact bind_of_misses (name_misses (by simp [h]; decide))
  · exact .of_bind (name_reads_iff.2 hn) (bind_of_misses (punctuator_misses hcolon))

/-- A rule that begins with a description and a name misses at a closing sign. -/
theorem described_misses {f : Name → Rule Char α} {c : Char} (h : next? s = some c)
    (hc : c ∈ [')', '\x7d']) : (description >>= fun _ => name >>= f).Misses s := by
  have hother : ∀ d ∈ [')', '\x7d'], d ≠ '"' ∧ isNameStart d = false :=
    List.all_iff_forall_prop.1 (by decide)
  obtain ⟨hquote, hname⟩ := hother c hc
  have hdescription : description s = .read () s :=
    bind_of_read (optional_of_misses (stringValue_misses (by simpa [h] using hquote)))
  exact .of_bind hdescription (bind_of_misses (name_misses (by simpa [h] using hname)))

/-- What begins with the place for a description and a name is fresh. -/
theorem fresh_of_described {n : Name}
    (h : Dressed (Slot.Holds value) (.slot .description :: label n :: ps) s rest) : Fresh s := by
  obtain ⟨ws, m, hholds, hws, h⟩ := dressed_slot_cons.1 h
  obtain ⟨m', hn, -⟩ := dressed_word_cons.1 h
  rcases hholds.eq_or_opens hws with rfl | hnext
  · exact hn.nameNext.fresh
  · intro c hc
    rw [hnext] at hc
    cases hc
    exact .inr (by simp [Slot.opening])

theorem fresh_of_next? {c : Char} (h : next? s = some c) (hc : c ∈ [')', '\x7d']) : Fresh s := by
  intro d hd
  rw [h] at hd
  cases hd
  have hother : ∀ e ∈ [')', '\x7d'], e ∈ ['"', ')', ']', '\x7d'] :=
    List.all_iff_forall_prop.1 (by decide)
  exact .inr (hother c hc)

theorem many_inputValue_fares {vs : List InputValue} {c : Char} (h : Listed IsInput vs ps)
    (hs : Dressed (Slot.Holds value) ps s rest) (hnext : next? rest = some c)
    (hc : c ∈ [')', '\x7d']) :
    ReadsOrJams value (fun m => next? m ≠ some c) (many inputValue) ps vs s rest := by
  have hquote : c ∈ ['"', ')', '\x7d'] := List.mem_cons_of_mem _ hc
  refine .mono (many_fares Fresh h ?_ IsComposed.inputValue.advances ?_ inputValue_misses hs
    (fresh_of_next? hnext hc) (described_misses hnext hc)) fun m hm => hm.next?_ne hquote
  · rintro v qs s m rfl hv hm
    exact inputValue_fares hv hm
  · rintro v qs s m rfl hv
    exact fresh_of_described hv

theorem optional_arguments_fares {vs : List InputValue} (h : IsArguments vs ps)
    (hs : Dressed (Slot.Holds value) ps s rest) (hnext : next? rest ≠ some '(') :
    (∃ got, ReadsAs (optional argumentsDefinition) ps got s rest ∧ got.getD [] = vs) ∨
      Spoils value ∧ (optional argumentsDefinition).Stops s :=
  enclosed_fares (by decide) (by decide) h
    (fun hlisted hinside hclose => many_inputValue_fares hlisted hinside hclose (by simp)) hs hnext

theorem arguments_of_optional {got : Option (List InputValue)}
    (h : optional argumentsDefinition s = .read got rest) :
    ∃ ps, IsArguments (got.getD []) ps ∧ Dressed (Slot.Holds ReadWhole) ps s rest := by
  refine enclosed_of_optional (fun hread => ?_) h
  exact enclosed_of_between (by decide)
    (fun hclose => (punctuator_reads_iff (by decide)).1 (of_commit hclose))
    isInput_of_read hread

/-! ## Fields -/

theorem fieldDefinition_of_read {field : Field} (h : fieldDefinition s = .read field rest) :
    ∃ ps, IsField field ps ∧ Dressed (Slot.Holds ReadWhole) ps s rest := by
  obtain ⟨_, m₁, hdescription, h⟩ := exists_of_bind h
  obtain ⟨n, m₂, hn, h⟩ := exists_of_bind h
  obtain ⟨got, m₃, harguments, h⟩ := exists_of_bind h
  obtain ⟨_, m₄, hcolon, h⟩ := exists_of_bind h
  obtain ⟨type, m₅, htype, h⟩ := exists_of_bind h
  obtain ⟨_, m₆, hdirectives, hpure⟩ := exists_of_bind h
  obtain ⟨rfl, rfl⟩ := of_pure hpure
  obtain ⟨ps, hps, hdressed⟩ := arguments_of_optional harguments
  refine ⟨_, .mk hps, ?_⟩
  refine dressed_append.2 ⟨m₁, description_of_read hdescription, .word (name_reads_iff.1 hn) ?_⟩
  refine dressed_append.2 ⟨m₃, hdressed, .word ((punctuator_reads_iff (by decide)).1 (of_commit hcolon)) ?_⟩
  exact dressed_append.2 ⟨m₅, typeRef_of_read (of_commit htype), directives_of_read hdirectives⟩

/-- **A field is read**, or the reading stops in its arguments, or it ends in front of the arguments of
a directive. -/
theorem fieldDefinition_fares {field : Field} (hfield : IsField field ps)
    (h : Dressed (Slot.Holds value) ps s rest) (hfresh : Fresh rest) :
    ReadsOrJams value (fun m => next? m = some '(') fieldDefinition ps field s rest := by
  obtain ⟨harguments⟩ := hfield
  rename_i arguments
  obtain ⟨_, m₁, hholds, hspelled, h⟩ := dressed_slot_cons.1 h
  obtain ⟨m₂, hn, h⟩ := dressed_word_cons.1 h
  obtain ⟨m₃, hinside, h⟩ := dressed_append.1 h
  obtain ⟨m₄, hcolon, h⟩ := dressed_word_cons.1 h
  obtain ⟨m₅, htype, h⟩ := dressed_append.1 h
  obtain ⟨_, hdirectives, hdirectives'⟩ := dressed_slot.1 h
  have hclear : Clear ['!'] m₅ := (hfresh.clear (by decide)).slot hdirectives hdirectives' (by decide)
  have hdescription := description_readsAs hholds hspelled (hn.nameNext.ne (by decide))
  have hcolon' := ReadsAs.punctuator (by decide) hcolon
  have htype' := typeRef_readsAs (dressed_words.1 htype) (hclear.ne (by simp))
  refine .bind hdescription (.bind (.name hn) ?_)
  rcases optional_arguments_fares harguments hinside (by simp [hcolon.next?_eq, Word.chars]) with
    ⟨got, hread, hgot⟩ | ⟨hspoils, hstop⟩
  · refine .bind hread (.bind hcolon'.commit (.bind htype'.commit ?_))
    rw [hgot]
    rcases directives_fare hdirectives hdirectives' (hfresh.clear (by decide)) with
      hlast | ⟨hspoils, m, hlast, hm⟩
    · exact .reads (hlast.bind (.pure field _))
    · exact .ends hspoils (bind_of_read hlast) hm
  · exact .stops hspoils (bind_of_stops hstop)

theorem fieldDefinition_misses (h : next? s = some '(') : fieldDefinition.Misses s := by
  have hdescription : description s = .read () s :=
    bind_of_read (optional_of_misses (stringValue_misses (by simp [h])))
  exact .of_bind hdescription (bind_of_misses (name_misses (by simp [h]; decide)))

theorem many_fieldDefinition_fares {fields : List Field} (h : Listed IsField fields ps)
    (hs : Dressed (Slot.Holds value) ps s rest) (hnext : next? rest = some '\x7d') :
    ReadsOrJams value (fun m => next? m ≠ some '\x7d') (many fieldDefinition) ps fields s rest := by
  refine .mono (many_fares Fresh h fieldDefinition_fares IsComposed.fieldDefinition.advances ?_
    fieldDefinition_misses hs (fresh_of_next? hnext (by simp)) (described_misses hnext (by simp)))
    fun m hm => by simp [hm]
  · rintro field qs s m ⟨-⟩ hs
    exact fresh_of_described hs

/-- **A rule for the fields of a type**, between braces or left out. -/
structure FieldsRule (value : Name → Prop) (one : Field → List Piece → Prop)
    (fields : Rule Char (List Field)) : Prop where
  /-- Fields are read, or the reading stops among them. -/
  fares : ∀ {xs ps s rest}, Enclosed '\x7b' '\x7d' one xs ps → Dressed (Slot.Holds value) ps s rest →
    next? rest ≠ some '\x7b' →
    (∃ got, ReadsAs (optional fields) ps got s rest ∧ got.getD [] = xs) ∨
      Spoils value ∧ (optional fields).Stops s
  /-- Without an opening brace there are none. -/
  misses : ∀ {s}, next? s ≠ some '\x7b' → fields.Misses s
  /-- What is read are fields. -/
  of_read : ∀ {got s rest}, optional fields s = .read got rest →
    ∃ ps, Enclosed '\x7b' '\x7d' one (got.getD []) ps ∧ Dressed (Slot.Holds ReadWhole) ps s rest

theorem fieldsDefinition_fieldsRule (value : Name → Prop) :
    FieldsRule value IsField fieldsDefinition where
  fares h hs hnext := enclosed_fares (by decide) (by decide) h many_fieldDefinition_fares hs hnext
  misses h := between_of_misses (punctuator_misses h)
  of_read h := by
    refine enclosed_of_optional (fun hread => ?_) h
    exact enclosed_of_between (by decide)
      (fun hclose => (punctuator_reads_iff (by decide)).1 (of_commit hclose)) fieldDefinition_of_read hread

/-! ## Fields of input objects -/

/-- A field of an input object as an input value. -/
def inputOf (field : Field) : InputValue := ⟨field.name, field.type⟩

/-- An input value as a field of an input object. -/
def inputField (v : InputValue) : Field := ⟨v.name, v.type, []⟩

theorem inputField_inputOf {field : Field} (h : field.arguments = []) :
    inputField (inputOf field) = field := by
  cases field
  cases h
  rfl

theorem listed_inputOf {fields : List Field} (h : Listed IsInputField fields ps) :
    Listed IsInput (fields.map inputOf) ps ∧ (fields.map inputOf).map inputField = fields := by
  induction h with
  | nil => exact ⟨.nil, rfl⟩
  | cons hfield _ ih =>
    obtain ⟨hnone, rfl⟩ := hfield
    exact ⟨.cons rfl ih.1, by rw [List.map_cons, List.map_cons, ih.2, inputField_inputOf hnone]⟩

theorem listed_inputField {vs : List InputValue} (h : Listed IsInput vs ps) :
    Listed IsInputField (vs.map inputField) ps := by
  induction h with
  | nil => exact .nil
  | cons hv _ ih => exact .cons ⟨rfl, hv⟩ ih

theorem enclosed_inputOf {fields : List Field} (h : Enclosed '\x7b' '\x7d' IsInputField fields ps) :
    Enclosed '\x7b' '\x7d' IsInput (fields.map inputOf) ps ∧
      (fields.map inputOf).map inputField = fields := by
  cases h with
  | absent => exact ⟨.absent, rfl⟩
  | present hlisted => exact ⟨.present (listed_inputOf hlisted).1, (listed_inputOf hlisted).2⟩

theorem enclosed_inputField {vs : List InputValue} (h : Enclosed '\x7b' '\x7d' IsInput vs ps) :
    Enclosed '\x7b' '\x7d' IsInputField (vs.map inputField) ps := by
  cases h with
  | absent => exact .absent
  | present hlisted => exact .present (listed_inputField hlisted)

theorem inputFieldsDefinition_fieldsRule (value : Name → Prop) :
    FieldsRule value IsInputField inputFieldsDefinition where
  fares h hs hnext := by
    obtain ⟨hinputs, hfields⟩ := enclosed_inputOf h
    rcases enclosed_fares (by decide) (by decide) hinputs
      (fun hlisted hinside hclose => many_inputValue_fares hlisted hinside hclose (by simp)) hs hnext with
      ⟨got, hread, hgot⟩ | ⟨hspoils, hstop⟩
    · refine .inl ⟨got.map (List.map inputField), ⟨?_, hread.dressed⟩, ?_⟩
      · exact optional_map_of_read hread.read
      · rw [← hfields, ← hgot]
        cases got <;> rfl
    · exact .inr ⟨hspoils, optional_map_of_stops hstop⟩
  misses h := bind_of_misses (between_of_misses (punctuator_misses h))
  of_read h := by
    refine enclosed_of_optional (fun hread => ?_) h
    obtain ⟨vs, m, hbetween, hpure⟩ := exists_of_bind hread
    obtain ⟨rfl, rfl⟩ := of_pure hpure
    obtain ⟨ps, hps, hdressed⟩ := enclosed_of_between (by decide)
      (fun hclose => (punctuator_reads_iff (by decide)).1 (of_commit hclose))
      isInput_of_read hbetween
    exact ⟨ps, enclosed_inputField hps, hdressed⟩

end StructQL.SDL
