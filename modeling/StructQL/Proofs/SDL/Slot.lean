import StructQL.Proofs.SDL.Constant

/-!
# Descriptions, directives and default values

Words with places between them are read word by word. What stands in a place is read and dropped,
unless a name in it is not read whole. Then the reading ends early, in front of what no rule reads.

* `ReadsAs`: a rule reads a text that spells pieces.
* `ReadsOrJams`: it does, or the reading jams because of a name that is not read whole.
* `ReadsAs.bind`, `ReadsOrJams.bind` and others: what composed rules read.
* `description_readsAs`, `directives_fare`, `default_fares`: **what stands in a place is read and
  dropped, or the reading ends early**.
* `directives_of_read` and others: what was dropped may stand there.
-/

namespace StructQL.SDL

open Rule

variable {α β γ : Type} {value : Name → Prop} {holds holds' : Slot → List Word → Prop}
  {ws : List Word} {ps qs rs : List Piece} {s m rest : List Char}

/-! ## Pieces -/

theorem dressed_nil : Dressed holds [] s rest ↔ s = rest := by
  constructor
  · intro h
    cases h
    rfl
  · rintro rfl
    exact .nil

theorem dressed_word_cons {w : Word} :
    Dressed holds (.word w :: ps) s rest ↔ ∃ m, Spelled [w] s m ∧ Dressed holds ps m rest := by
  constructor
  · intro h
    cases h with
    | word hw hps => exact ⟨_, hw, hps⟩
  · rintro ⟨m, hw, hps⟩
    exact .word hw hps

theorem dressed_slot_cons {kind : Slot} :
    Dressed holds (.slot kind :: ps) s rest ↔
      ∃ ws m, holds kind ws ∧ Spelled ws s m ∧ Dressed holds ps m rest := by
  constructor
  · intro h
    cases h with
    | slot hholds hws hps => exact ⟨_, _, hholds, hws, hps⟩
  · rintro ⟨ws, m, hholds, hws, hps⟩
    exact .slot hholds hws hps

theorem dressed_append :
    Dressed holds (ps ++ qs) s rest ↔ ∃ m, Dressed holds ps s m ∧ Dressed holds qs m rest := by
  induction ps generalizing s with
  | nil => simp [dressed_nil]
  | cons p ps ih =>
    cases p with
    | word w =>
      simp only [List.cons_append, dressed_word_cons, ih]
      exact ⟨fun ⟨m, hw, m', hps, hqs⟩ => ⟨m', ⟨m, hw, hps⟩, hqs⟩,
        fun ⟨m', ⟨m, hw, hps⟩, hqs⟩ => ⟨m, hw, m', hps, hqs⟩⟩
    | slot kind =>
      simp only [List.cons_append, dressed_slot_cons, ih]
      exact ⟨fun ⟨ws, m, hh, hws, m', hps, hqs⟩ => ⟨m', ⟨ws, m, hh, hws, hps⟩, hqs⟩,
        fun ⟨m', ⟨ws, m, hh, hws, hps⟩, hqs⟩ => ⟨ws, m, hh, hws, m', hps, hqs⟩⟩

theorem dressed_words : Dressed holds (ws.map .word) s rest ↔ Spelled ws s rest := by
  induction ws generalizing s with
  | nil =>
    rw [List.map_nil, dressed_nil]
    exact ⟨fun h => h ▸ .nil, fun h => by cases h; rfl⟩
  | cons w ws ih =>
    rw [List.map_cons, dressed_word_cons, spelled_cons]
    simp only [ih]

theorem dressed_word {w : Word} : Dressed holds [.word w] s rest ↔ Spelled [w] s rest := by
  simp only [dressed_word_cons, dressed_nil]
  exact ⟨fun ⟨m, hw, hm⟩ => hm ▸ hw, fun hw => ⟨_, hw, rfl⟩⟩

theorem dressed_sign {c : Char} : Dressed holds [sign c] s rest ↔ Spelled [.mark c] s rest :=
  dressed_word

theorem dressed_label {n : Name} : Dressed holds [label n] s rest ↔ Spelled [.name n] s rest :=
  dressed_word

theorem dressed_slot {kind : Slot} :
    Dressed holds [.slot kind] s rest ↔ ∃ ws, holds kind ws ∧ Spelled ws s rest := by
  simp only [dressed_slot_cons, dressed_nil]
  exact ⟨fun ⟨ws, m, hh, hws, hm⟩ => ⟨ws, hh, hm ▸ hws⟩, fun ⟨ws, hh, hws⟩ => ⟨ws, _, hh, hws, rfl⟩⟩

theorem Dressed.mono (hle : ∀ kind ws, holds kind ws → holds' kind ws)
    (h : Dressed holds ps s rest) : Dressed holds' ps s rest := by
  induction h with
  | nil => exact .nil
  | word hw _ ih => exact .word hw ih
  | slot hholds hws _ ih => exact .slot (hle _ _ hholds) hws ih

theorem Constant.mono {value' : Name → Prop} (hle : ∀ n, value n → value' n)
    (h : Constant value ws) : Constant value' ws := by
  induction h with
  | line => exact .line
  | block => exact .block
  | number => exact .number
  | name hn => exact .name (hle _ hn)
  | list _ ih => exact .list ih
  | object _ ih => exact .object ih

theorem AppliedDirective.mono {value' : Name → Prop} (hle : ∀ n, value n → value' n)
    (h : AppliedDirective value ws) : AppliedDirective value' ws := by
  cases h with
  | bare => exact .bare
  | arguments hentries => exact .arguments fun e he => (hentries e he).mono hle

theorem Slot.Holds.mono {value' : Name → Prop} {kind : Slot} (hle : ∀ n, value n → value' n)
    (h : kind.Holds value ws) : kind.Holds value' ws := by
  cases h with
  | noDescription => exact .noDescription
  | line => exact .line
  | block => exact .block
  | directives hall => exact .directives fun ws hws => (hall ws hws).mono hle
  | noDefault => exact .noDefault
  | default hconstant => exact .default (hconstant.mono hle)

/-! ## Rules that read pieces -/

/-- **The rule reads the value from a text that spells the pieces**, where the names in places without
meaning are read whole. -/
structure ReadsAs (p : Rule Char α) (ps : List Piece) (a : α) (s rest : List Char) : Prop where
  read : p s = .read a rest
  dressed : Dressed (Slot.Holds ReadWhole) ps s rest

namespace ReadsAs

variable {p : Rule Char α} {a : α} {b : β}

protected theorem pure (a : α) (s : List Char) : ReadsAs (pure a : Rule Char α) [] a s s :=
  ⟨pure_apply a s, .nil⟩

theorem bind {f : α → Rule Char β} (hp : ReadsAs p ps a s m) (hf : ReadsAs (f a) qs b m rest) :
    ReadsAs (p >>= f) (ps ++ qs) b s rest :=
  ⟨(bind_of_read hp.read).trans hf.read, dressed_append.2 ⟨m, hp.dressed, hf.dressed⟩⟩

/-- What is made of the value does not matter to the reading. -/
protected theorem map (h : ReadsAs p ps a s rest) (g : α → β) :
    ReadsAs (do let a ← p; return g a) ps (g a) s rest :=
  ⟨bind_of_read h.read, h.dressed⟩

protected theorem optional (h : ReadsAs p ps a s rest) : ReadsAs (optional p) ps (some a) s rest :=
  ⟨optional_of_read h.read, h.dressed⟩

theorem optional_none (h : p.Misses s) : ReadsAs (Rule.optional p) [] none s s :=
  ⟨optional_of_misses h, .nil⟩

protected theorem commit (h : ReadsAs p ps a s rest) : ReadsAs (commit p) ps a s rest :=
  ⟨commit_of_read h.read, h.dressed⟩

protected theorem punctuator {c : Char} (hc : c ∈ marks) (h : Spelled [.mark c] s m) :
    ReadsAs (punctuator c) [sign c] () s m :=
  ⟨(punctuator_reads_iff hc).2 h, dressed_sign.2 h⟩

protected theorem name {n : Name} (h : Spelled [.name n] s m) : ReadsAs name [label n] n s m :=
  ⟨name_reads_iff.2 h, dressed_label.2 h⟩

protected theorem keyword {n : Name} (h : Spelled [.name n] s m) :
    ReadsAs (keyword n.text) [label n] () s m :=
  ⟨keyword_reads_iff.2 h, dressed_label.2 h⟩

/-- What stands between an opening and a closing sign. -/
protected theorem between {o c : Char} {m' : List Char} (ho : o ∈ marks) (hc : c ∈ marks)
    (hopen : Spelled [.mark o] s m) (hp : ReadsAs p ps a m m') (hclose : Spelled [.mark c] m' rest) :
    ReadsAs (between (punctuator o) p (punctuator c)) (sign o :: (ps ++ [sign c])) a s rest :=
  ⟨between_of_read ((punctuator_reads_iff ho).2 hopen) hp.read ((punctuator_reads_iff hc).2 hclose),
    .word hopen (dressed_append.2 ⟨m', hp.dressed, dressed_sign.2 hclose⟩)⟩

end ReadsAs

/-- **The rule reads the value, or the reading jams** because of a name that is not read whole: it
stops, or it ends early in front of what no rule goes on with. -/
def ReadsOrJams (value : Name → Prop) (jammed : List Char → Prop) (p : Rule Char α) (ps : List Piece)
    (a : α) (s rest : List Char) : Prop :=
  ReadsAs p ps a s rest ∨ Spoils value ∧ (p.Stops s ∨ ∃ b m, p s = .read b m ∧ jammed m)

namespace ReadsOrJams

variable {jammed jammed' : List Char → Prop} {p : Rule Char α} {a : α} {b : β}

theorem reads (h : ReadsAs p ps a s rest) : ReadsOrJams value jammed p ps a s rest := .inl h

theorem stops (hspoils : Spoils value) (h : p.Stops s) : ReadsOrJams value jammed p ps a s rest :=
  .inr ⟨hspoils, .inl h⟩

theorem ends {a' : α} (hspoils : Spoils value) (h : p s = .read a' m) (hm : jammed m) :
    ReadsOrJams value jammed p ps a s rest :=
  .inr ⟨hspoils, .inr ⟨a', m, h, hm⟩⟩

theorem mono (h : ReadsOrJams value jammed p ps a s rest) (hle : ∀ m, jammed m → jammed' m) :
    ReadsOrJams value jammed' p ps a s rest := by
  rcases h with hread | ⟨hspoils, hstop | ⟨b, m, hread, hm⟩⟩
  · exact reads hread
  · exact stops hspoils hstop
  · exact ends hspoils hread (hle m hm)

theorem bind {f : α → Rule Char β} (hp : ReadsAs p ps a s m)
    (hf : ReadsOrJams value jammed (f a) qs b m rest) :
    ReadsOrJams value jammed (p >>= f) (ps ++ qs) b s rest := by
  rcases hf with hread | ⟨hspoils, hstop | ⟨c, r, hread, hr⟩⟩
  · exact reads (hp.bind hread)
  · exact stops hspoils (.of_bind hp.read hstop)
  · exact ends hspoils ((bind_of_read hp.read).trans hread) hr

protected theorem commit (h : ReadsOrJams value jammed p ps a s rest) :
    ReadsOrJams value jammed (commit p) ps a s rest := by
  rcases h with hread | ⟨hspoils, hstop | ⟨b, m, hread, hm⟩⟩
  · exact reads hread.commit
  · exact stops hspoils (commit_of_stops hstop)
  · exact ends hspoils (commit_of_read hread) hm

/-- What is made of the value does not matter to the reading. -/
protected theorem map (h : ReadsOrJams value jammed p ps a s rest) (g : α → β) :
    ReadsOrJams value jammed (do let a ← p; return g a) ps (g a) s rest := by
  rcases h with hread | ⟨hspoils, hstop | ⟨b, m, hread, hm⟩⟩
  · exact reads (hread.map g)
  · exact stops hspoils (bind_of_stops hstop)
  · exact ends hspoils (bind_of_read (f := fun a => pure (g a)) hread) hm

/-- A choice reads what one of its rules reads, where those before it miss. -/
protected theorem firstOf {before after : List (Rule Char α)} (hmiss : ∀ q ∈ before, q.Misses s)
    (h : ReadsOrJams value jammed p ps a s rest) :
    ReadsOrJams value jammed (firstOf (before ++ p :: after)) ps a s rest := by
  have heq : firstOf (before ++ p :: after) s = firstOf (p :: after) s :=
    firstOf_append_of_misses hmiss (List.cons_ne_nil _ _)
  rcases h with hread | ⟨hspoils, hstop | ⟨b, m, hread, hm⟩⟩
  · exact reads ⟨heq.trans (firstOf_cons_of_read hread.read), hread.dressed⟩
  · obtain ⟨place, hplace⟩ := firstOf_cons_of_stops hstop
    exact stops hspoils ⟨place, heq.trans hplace⟩
  · exact ends hspoils (heq.trans (firstOf_cons_of_read hread)) hm

end ReadsOrJams

/-! ## Descriptions -/

theorem description_of_read (h : description s = .read () rest) :
    Dressed (Slot.Holds ReadWhole) [.slot .description] s rest := by
  obtain ⟨o, m, hstring, hpure⟩ := exists_of_bind h
  obtain ⟨-, rfl⟩ := of_pure hpure
  rw [dressed_slot]
  rcases of_optional hstring with ⟨_, -, h⟩ | ⟨-, rfl, -⟩
  · obtain ⟨body, h | h⟩ := stringValue_reads_iff.1 h
    · exact ⟨_, .line, h⟩
    · exact ⟨_, .block, h⟩
  · exact ⟨_, .noDescription, .nil⟩

/-- **A description is read**, if no other string comes next. -/
theorem description_readsAs (h : Slot.Holds value .description ws) (hs : Spelled ws s rest)
    (hnext : next? rest ≠ some '"') : ReadsAs description [.slot .description] () s rest := by
  suffices hread : description s = .read () rest from ⟨hread, description_of_read hread⟩
  cases h with
  | noDescription =>
    cases hs
    exact bind_of_read (optional_of_misses (stringValue_misses hnext))
  | @line body =>
    exact bind_of_read (optional_of_read (stringValue_reads_iff.2 ⟨body, .inl hs⟩))
  | @block body =>
    exact bind_of_read (optional_of_read (stringValue_reads_iff.2 ⟨body, .inr hs⟩))

/-! ## Directives -/

theorem appliedDirective_of_read (h : appliedDirective s = .read () rest) :
    ∃ ws, AppliedDirective ReadWhole ws ∧ Spelled ws s rest := by
  obtain ⟨_, m₁, hat, h⟩ := exists_of_bind h
  obtain ⟨n, m₂, hn, h⟩ := exists_of_bind h
  obtain ⟨o, m₃, harguments, hpure⟩ := exists_of_bind h
  obtain ⟨-, rfl⟩ := of_pure hpure
  have hhead : Spelled [.mark '@', .name n] s m₂ :=
    spelled_cons.2 ⟨m₁, (punctuator_reads_iff (by decide)).1 hat, name_reads_iff.1 hn⟩
  rcases of_optional harguments with ⟨_, -, h⟩ | ⟨-, rfl, -⟩
  · obtain ⟨entries, hentries, hspelled⟩ := exists_entries_of_between (by decide) (by decide)
      (fun _ _ hc => constant_of_constantWithin hc) h
    exact ⟨_, .arguments hentries, spelled_append.2 ⟨m₂, hhead, hspelled⟩⟩
  · exact ⟨_, .bare, hhead⟩

theorem AppliedDirective.exists_cons (h : AppliedDirective value ws) :
    ∃ ws', ws = .mark '@' :: ws' := by
  cases h <;> exact ⟨_, rfl⟩

theorem directives_of_read (h : appliedDirectives s = .read () rest) :
    Dressed (Slot.Holds ReadWhole) [.slot .directives] s rest := by
  obtain ⟨all, m, hmany, hpure⟩ := exists_of_bind h
  obtain ⟨-, rfl⟩ := of_pure hpure
  obtain ⟨all, hall, hspelled⟩ := exists_spelled_of_many (fun _ _ _ => appliedDirective_of_read) hmany
  exact dressed_slot.2 ⟨_, .directives hall, hspelled⟩

theorem appliedDirective_misses (h : next? s ≠ some '@') : appliedDirective.Misses s :=
  bind_of_misses (punctuator_misses h)

theorem directives_none (h : next? s ≠ some '@') : appliedDirectives s = .read () s :=
  bind_of_read (many_of_misses (appliedDirective_misses h))

/-- A directive is read, or it is read up to its arguments. -/
theorem appliedDirective_fares (h : AppliedDirective value ws) (hs : Spelled ws s rest)
    (hnext : next? rest ≠ some '(') : appliedDirective s = .read () rest ∨
      Spoils value ∧ ∃ m, appliedDirective s = .read () m ∧ next? m = some '(' := by
  cases h with
  | bare =>
    obtain ⟨m₁, hat, hn⟩ := spelled_cons.1 hs
    have hmiss : (between (punctuator '(') (namedConstants constant) (punctuator ')')).Misses rest :=
      between_of_misses (punctuator_misses hnext)
    left
    unfold appliedDirective
    rw [bind_of_read ((punctuator_reads_iff (by decide)).2 hat), bind_of_read (name_reads_iff.2 hn),
      bind_of_read (optional_of_misses hmiss), pure_apply]
  | arguments hentries =>
    obtain ⟨m₁, hat, hs⟩ := spelled_cons.1 hs
    obtain ⟨m₂, hn, hs⟩ := spelled_cons.1 hs
    unfold appliedDirective
    rw [bind_of_read ((punctuator_reads_iff (by decide)).2 hat), bind_of_read (name_reads_iff.2 hn)]
    rcases between_entries (by decide) (by simp) (fun e he _ _ => constant_fares (hentries e he)) hs with
      hread | ⟨hspoils, hmiss⟩
    · left
      rw [bind_of_read (optional_of_read hread), pure_apply]
    · refine .inr ⟨hspoils, m₂, ?_, hs.next?_eq⟩
      rw [bind_of_read (optional_of_misses hmiss), pure_apply]

/-- **Directives are read**, or they are read up to the arguments of one. -/
theorem directives_fare (h : Slot.Holds value .directives ws) (hs : Spelled ws s rest)
    (hclear : Clear ['@', '('] rest) :
    ReadsAs appliedDirectives [.slot .directives] () s rest ∨
      Spoils value ∧ ∃ m, appliedDirectives s = .read () m ∧ next? m = some '(' := by
  suffices hmany : ∃ us m, many appliedDirective s = .read us m ∧
      (m = rest ∨ Spoils value ∧ next? m = some '(') by
    obtain ⟨us, m, hmany, hm⟩ := hmany
    have hread : appliedDirectives s = .read () m := bind_of_read hmany
    rcases hm with rfl | ⟨hspoils, hnext⟩
    · exact .inl ⟨hread, directives_of_read hread⟩
    · exact .inr ⟨hspoils, m, hread, hnext⟩
  obtain ⟨all, hall, rfl⟩ : ∃ all : List (List Word), (∀ ws ∈ all, AppliedDirective value ws) ∧
      ws = all.flatten := by
    cases h with
    | directives hall => exact ⟨_, hall, rfl⟩
  clear h
  induction all generalizing s with
  | nil =>
    obtain rfl := spelled_nil.1 hs
    exact ⟨[], s, many_of_misses (appliedDirective_misses (hclear.ne (by simp))), .inl rfl⟩
  | cons ws all ih =>
    obtain ⟨m₁, hfirst, hothers⟩ := spelled_append.1 hs
    obtain ⟨hdirective, hall⟩ := List.forall_mem_cons.1 hall
    have hnext : next? m₁ ≠ some '(' := by
      cases all with
      | nil =>
        obtain rfl := spelled_nil.1 hothers
        exact hclear.ne (by simp)
      | cons ws' all =>
        obtain ⟨ws', rfl⟩ := (hall ws' List.mem_cons_self).exists_cons
        simp [hothers.next?_eq, Word.chars]
    rcases appliedDirective_fares hdirective hfirst hnext with hread | ⟨hspoils, m, hread, hm⟩
    · obtain ⟨us, m, hmany, hm⟩ := ih hall hothers
      have hlt := IsComposed.appliedDirective.advances hread
      exact ⟨() :: us, m, many_of_read hread hlt hmany, hm⟩
    · have hend : many appliedDirective m = .read [] m :=
        many_of_misses (appliedDirective_misses (by simp [hm]))
      have hlt := IsComposed.appliedDirective.advances hread
      exact ⟨[()], m, many_of_read hread hlt hend, .inr ⟨hspoils, hm⟩⟩

/-! ## Default values -/

/-- The rule for a default value, or none. -/
def defaultValue : Rule Char (Option Unit) := optional (do punctuator '='; constant)

theorem default_of_read {o : Option Unit} (h : defaultValue s = .read o rest) :
    Dressed (Slot.Holds ReadWhole) [.slot .defaultValue] s rest := by
  rw [dressed_slot]
  rcases of_optional h with ⟨_, -, h⟩ | ⟨-, rfl, -⟩
  · obtain ⟨_, m, hequals, hconstant⟩ := exists_of_bind h
    obtain ⟨ws, hws, hspelled⟩ := constant_of_constantWithin hconstant
    exact ⟨_, .default hws,
      spelled_cons.2 ⟨m, (punctuator_reads_iff (by decide)).1 hequals, hspelled⟩⟩
  · exact ⟨_, .noDefault, .nil⟩

/-- **A default value is read**, or the reading ends in front of it or in the middle of its name. -/
theorem default_fares (h : Slot.Holds value .defaultValue ws) (hs : Spelled ws s rest)
    (hclear : Clear ['.', '+', '-', '='] rest) :
    (∃ o, ReadsAs defaultValue [.slot .defaultValue] o s rest) ∨
      Spoils value ∧ ∃ o m, defaultValue s = .read o m ∧
        (next? m = some '=' ∨ ∃ n, Spelled [.name n] m rest) := by
  cases h with
  | noDefault =>
    obtain rfl := spelled_nil.1 hs
    have hread : defaultValue s = .read none s :=
      optional_of_misses (bind_of_misses (punctuator_misses (hclear.ne (by simp))))
    exact .inl ⟨none, hread, default_of_read hread⟩
  | default hconstant =>
    obtain ⟨m₁, hequals, hspelled⟩ := spelled_cons.1 hs
    have hequals' := (punctuator_reads_iff (by decide)).2 hequals
    rcases constant_fares hconstant hspelled (hclear.mono (by decide)) with
      hread | ⟨hspoils, hmiss | ⟨n, m, hread, hn, -⟩⟩
    · have hdefault : defaultValue s = .read (some ()) rest :=
        optional_of_read ((bind_of_read hequals').trans hread)
      exact .inl ⟨some (), hdefault, default_of_read hdefault⟩
    · exact .inr ⟨hspoils, none, s, optional_of_misses (.of_bind hequals' hmiss), .inl hequals.next?_eq⟩
    · exact .inr ⟨hspoils, some (), m, optional_of_read ((bind_of_read hequals').trans hread),
        .inr ⟨n, hn⟩⟩

end StructQL.SDL
