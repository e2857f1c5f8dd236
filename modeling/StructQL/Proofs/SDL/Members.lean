import StructQL.Proofs.SDL.Fields

/-!
# Interfaces, members and locations are read as they are spelled

* `Begins`: what may stand behind a definition.
* `separated1_readsAs`, `led_readsAs`: names with a sign between them, and maybe in front.
* `implementsInterfaces_readsAs`, `unionMembers_readsAs`, `locations_readsAs`: the three kinds of them.
* `isImplements_of_read`, `isMembers_of_read`, `locations_of_read`: nothing else is read.
-/

namespace StructQL.SDL

open Rule

variable {α : Type} {holds : Slot → List Word → Prop} {ps : List Piece} {s m rest : List Char}

/-! ## Behind a definition -/

/-- **What may stand behind a definition**: the end, a description, or a word that opens a definition. -/
def Begins (s : List Char) : Prop :=
  next? s = none ∨ next? s = some '"' ∨ ∃ n m, Spelled [.name n] s m ∧ n.text ∈ definitionKeywords

theorem Begins.fresh (h : Begins s) : Fresh s := by
  rcases h with h | h | ⟨n, m, hn, -⟩
  · intro c hc
    rw [h] at hc
    cases hc
  · intro c hc
    rw [h] at hc
    cases hc
    exact .inr (by simp)
  · exact hn.nameNext.fresh

/-- A text begins with one name only. -/
theorem Spelled.name_inj {n n' : Name} {m' : List Char} (h : Spelled [.name n] s m)
    (h' : Spelled [.name n'] s m') : n = n' ∧ m = m' := by
  have heq := (name_reads_iff.2 h).symm.trans (name_reads_iff.2 h')
  exact ⟨(Reading.read.inj heq).1, (Reading.read.inj heq).2⟩

section Keyword

variable {text : String}

theorem keyword_misses_of_name {n : Name} (htext : isName text.toList = true)
    (h : Spelled [.name n] s m) (hne : text ≠ n.text) : (keyword text).Misses s :=
  keyword_misses (n := ⟨text, htext⟩) fun _ hk => hne (congrArg Name.text (hk.name_inj h).1)

theorem keyword_misses_of_next? (htext : isName text.toList = true)
    (h : ∀ c ∈ next? s, isNameStart c = false) : (keyword text).Misses s := by
  refine keyword_misses (n := ⟨text, htext⟩) fun m hk => ?_
  obtain ⟨c, hc, hstart⟩ := hk.nameNext
  rw [h c hc] at hstart
  cases hstart

/-- No other keyword stands behind a definition. -/
theorem Begins.keyword_misses (htext : isName text.toList = true) (h : Begins s)
    (hnot : text ∉ definitionKeywords) : (keyword text).Misses s := by
  rcases h with h | h | ⟨n, m, hn, hmem⟩
  · exact keyword_misses_of_next? htext (by simp [h])
  · exact keyword_misses_of_next? htext (by simp [h]; decide)
  · exact keyword_misses_of_name htext hn fun heq => hnot (heq ▸ hmem)

end Keyword

/-! ## Names with signs between -/

theorem joined_cons (separator : Char) (n : Name) (ns : List Name) :
    joined separator (n :: ns) = label n :: ns.flatMap fun n => [sign separator, label n] := by
  induction ns generalizing n with
  | nil => rfl
  | cons n' ns ih =>
    rw [joined, ih, List.flatMap_cons]
    · rfl
    · simp

section Separated

variable {p : Rule Char α} {nameOf : α → Name} {separator : Char}

/-- **Names with signs between them are read**, as what the rule makes of them. -/
theorem separated1_readsAs {x : α} {xs : List α} (hsep : separator ∈ marks)
    (hp : ∀ y ∈ x :: xs, ∀ ⦃s m⦄, Spelled [.name (nameOf y)] s m → p s = .read y m)
    (hs : Dressed holds (joined separator ((x :: xs).map nameOf)) s rest)
    (hnext : next? rest ≠ some separator) :
    ReadsAs (separated1 (punctuator separator) p) (joined separator ((x :: xs).map nameOf)) (x :: xs)
      s rest := by
  rw [List.map_cons, joined_cons] at hs ⊢
  obtain ⟨m, hx, hxs⟩ := dressed_word_cons.1 hs
  obtain ⟨hpx, hpxs⟩ := List.forall_mem_cons.1 hp
  suffices hmany : ReadsAs (many (do let _ ← punctuator separator; p))
      ((xs.map nameOf).flatMap fun n => [sign separator, label n]) xs m rest from
    ⟨(bind_of_read (hpx hx)).trans (bind_of_read hmany.read), .word hx hmany.dressed⟩
  clear hx hpx hs hp
  induction xs generalizing m with
  | nil =>
    obtain rfl := dressed_nil.1 hxs
    exact ⟨many_of_misses (bind_of_misses (punctuator_misses hnext)), .nil⟩
  | cons y ys ih =>
    obtain ⟨hpy, hpys⟩ := List.forall_mem_cons.1 hpxs
    obtain ⟨m₁, hsign, hxs⟩ := dressed_word_cons.1 hxs
    obtain ⟨m₂, hy, hxs⟩ := dressed_word_cons.1 hxs
    have hothers := ih m₂ hxs hpys
    have hread : (do let _ ← punctuator separator; p) m = .read y m₂ :=
      (bind_of_read ((punctuator_reads_iff hsep).2 hsign)).trans (hpy hy)
    have hlt := (spelled_cons.2 ⟨m₁, hsign, hy⟩).length_add_le
    simp only [List.length_cons, List.length_nil] at hlt
    exact ⟨many_of_read hread (by omega) hothers.read, .word hsign (.word hy hothers.dressed)⟩

/-- What is read is names with signs between them, each read by the rule. -/
theorem of_separated1 {xs : List α} (hsep : separator ∈ marks)
    (hp : ∀ ⦃y s m⦄, p s = .read y m → Spelled [.name (nameOf y)] s m)
    (h : separated1 (punctuator separator) p s = .read xs rest) :
    xs ≠ [] ∧ (∀ x ∈ xs, ∃ s m, p s = .read x m) ∧
      Dressed (Slot.Holds ReadWhole) (joined separator (xs.map nameOf)) s rest := by
  obtain ⟨x, m, hx, hothers⟩ := exists_of_bind h
  obtain ⟨ys, m', hmany, hpure⟩ := exists_of_bind hothers
  obtain ⟨rfl, rfl⟩ := of_pure hpure
  suffices hys : (∀ y ∈ ys, ∃ s m, p s = .read y m) ∧ Dressed (Slot.Holds ReadWhole)
      ((ys.map nameOf).flatMap fun n => [sign separator, label n]) m m' by
    refine ⟨List.cons_ne_nil _ _, List.forall_mem_cons.2 ⟨⟨s, m, hx⟩, hys.1⟩, ?_⟩
    rw [List.map_cons, joined_cons]
    exact .word (hp hx) hys.2
  refine many_induction hmany ⟨List.forall_mem_nil _, .nil⟩ fun hone ih => ?_
  obtain ⟨_, m₁, hsign, hy⟩ := exists_of_bind hone
  refine ⟨List.forall_mem_cons.2 ⟨⟨m₁, _, hy⟩, ih.1⟩, ?_⟩
  exact .word ((punctuator_reads_iff hsep).1 hsign) (.word (hp hy) ih.2)

theorem next?_ne_of_joined {names : List Name} (hname : isNameStart separator = false)
    (hs : Dressed holds (joined separator names) s rest) (hnext : next? rest ≠ some separator) :
    next? s ≠ some separator := by
  cases names with
  | nil => exact dressed_nil.1 hs ▸ hnext
  | cons n ns =>
    rw [joined_cons] at hs
    obtain ⟨m, hn, -⟩ := dressed_word_cons.1 hs
    exact hn.nameNext.ne hname

variable {q : Rule Char (List α)} {lead : Bool} {names : List Name} {xs : List α}

/-- **A sign may stand in front** of the names. -/
theorem led_readsAs (hsep : separator ∈ marks) (hname : isNameStart separator = false)
    (hs : Dressed holds (led lead separator names) s rest) (hnext : next? rest ≠ some separator)
    (hq : ∀ {s}, Dressed holds (joined separator names) s rest →
      ReadsAs q (joined separator names) xs s rest) :
    ReadsAs (do let _ ← optional (punctuator separator); q) (led lead separator names) xs s rest := by
  cases lead with
  | true =>
    obtain ⟨m, hsign, hnames⟩ := dressed_word_cons.1 hs
    exact ReadsAs.bind (ReadsAs.punctuator hsep hsign).optional (hq hnames)
  | false =>
    have hmiss := punctuator_misses (next?_ne_of_joined hname hs hnext)
    exact ReadsAs.bind (.optional_none hmiss) (hq hs)

/-- In front of what the rule reads there may be a sign. -/
theorem exists_of_led (hsep : separator ∈ marks)
    (h : (do let _ ← optional (punctuator separator); q : Rule Char (List α)) s = .read xs rest) :
    ∃ m, q m = .read xs rest ∧ ∀ names,
      Dressed (Slot.Holds ReadWhole) (joined separator names) m rest →
        ∃ lead, Dressed (Slot.Holds ReadWhole) (led lead separator names) s rest := by
  obtain ⟨o, m, hlead, hread⟩ := exists_of_bind h
  refine ⟨m, hread, fun names hnames => ?_⟩
  rcases of_optional hlead with ⟨_, -, hsign⟩ | ⟨-, rfl, -⟩
  · exact ⟨true, .word ((punctuator_reads_iff hsep).1 hsign) hnames⟩
  · exact ⟨false, hnames⟩

end Separated

/-- Names that are read as themselves. -/
theorem separated1_names {p : Rule Char Name} {separator : Char} {names : List Name}
    (hsep : separator ∈ marks) (hne : names ≠ [])
    (hp : ∀ n ∈ names, ∀ ⦃s m⦄, Spelled [.name n] s m → p s = .read n m)
    (hs : Dressed holds (joined separator names) s rest) (hnext : next? rest ≠ some separator) :
    ReadsAs (separated1 (punctuator separator) p) (joined separator names) names s rest := by
  obtain ⟨n, ns, rfl⟩ := List.exists_cons_of_ne_nil hne
  have hread := separated1_readsAs hsep hp (by rwa [List.map_id']) hnext
  rwa [List.map_id'] at hread

theorem of_separated1_names {p : Rule Char Name} {separator : Char} {names : List Name}
    (hsep : separator ∈ marks) (hp : ∀ ⦃n s m⦄, p s = .read n m → Spelled [.name n] s m)
    (h : separated1 (punctuator separator) p s = .read names rest) :
    names ≠ [] ∧ (∀ n ∈ names, ∃ s m, p s = .read n m) ∧
      Dressed (Slot.Holds ReadWhole) (joined separator names) s rest := by
  have hdressed := of_separated1 hsep hp h
  rwa [List.map_id'] at hdressed

/-! ## Interfaces -/

/-- **The interfaces of a type are read**, if no other word for them stands behind them. -/
theorem implementsInterfaces_readsAs {names : List Name} (h : IsImplements names ps)
    (hs : Dressed holds ps s rest) (hnext : next? rest ≠ some '&')
    (hmiss : (keyword "implements").Misses rest) :
    ReadsAs implementsInterfaces ps names s rest := by
  cases h with
  | absent =>
    obtain rfl := dressed_nil.1 hs
    exact (ReadsAs.optional_none (bind_of_misses hmiss)).map fun o => o.getD []
  | present hne =>
    obtain ⟨m, hkeyword, hnames⟩ := dressed_word_cons.1 hs
    have hled := led_readsAs (by decide) (by decide) hnames hnext fun hjoined =>
      separated1_names (by decide) hne (fun _ _ _ _ hn => name_reads_iff.2 hn) hjoined hnext
    exact ((ReadsAs.keyword hkeyword).bind hled).optional.map fun o => o.getD []

theorem isImplements_of_read {names : List Name} (h : implementsInterfaces s = .read names rest) :
    ∃ ps, IsImplements names ps ∧ Dressed (Slot.Holds ReadWhole) ps s rest := by
  obtain ⟨o, m, hopt, hpure⟩ := exists_of_bind h
  obtain ⟨rfl, rfl⟩ := of_pure hpure
  rcases of_optional hopt with ⟨names, rfl, hread⟩ | ⟨rfl, rfl, -⟩
  · obtain ⟨_, m₁, hkeyword, hnames⟩ := exists_of_bind hread
    obtain ⟨m₂, hseparated, hled⟩ := exists_of_led (by decide) hnames
    obtain ⟨hne, -, hjoined⟩ :=
      of_separated1_names (by decide) (fun _ _ _ hn => name_reads_iff.1 hn) hseparated
    obtain ⟨lead, hdressed⟩ := hled _ hjoined
    exact ⟨_, .present hne, .word (keyword_reads_iff.1 hkeyword) hdressed⟩
  · exact ⟨[], .absent, .nil⟩

/-! ## Members -/

theorem memberName_reads_iff {n : Name} :
    memberName s = .read n m ↔ Spelled [.name n] s m ∧ n.text ∉ definitionKeywords := by
  constructor
  · intro h
    obtain ⟨n', hn', heq⟩ := exists_of_refine h
    split at heq
    · cases heq
    · rename_i hnot
      cases heq
      exact ⟨name_reads_iff.1 hn', by simpa using hnot⟩
  · rintro ⟨hn, hnot⟩
    exact refine_of_read (name_reads_iff.2 hn) (if_neg (by simpa using hnot))

theorem Begins.memberName_misses (h : Begins s) : memberName.Misses s := by
  rcases h with h | h | ⟨n, m, hn, hmem⟩
  · exact refine_of_misses (name_misses (by simp [h]))
  · exact refine_of_misses (name_misses (by simp [h]; decide))
  · exact refine_of_none (name_reads_iff.2 hn) (if_pos (by simpa using hmem))

/-- The members themselves, maybe none. -/
theorem separated_members_readsAs {names : List Name} (hnot : ∀ n ∈ names, n.text ∉ definitionKeywords)
    (hs : Dressed holds (joined '|' names) s rest) (hbegins : Begins rest) :
    ReadsAs (separated (punctuator '|') memberName) (joined '|' names) names s rest := by
  have hclear : Clear ['|'] rest := hbegins.fresh.clear (by decide)
  by_cases hnil : names = []
  · subst hnil
    obtain rfl := dressed_nil.1 hs
    exact (ReadsAs.optional_none (bind_of_misses hbegins.memberName_misses)).map fun o => o.getD []
  · refine (ReadsAs.optional ?_).map fun o => o.getD []
    exact separated1_names (by decide) hnil
      (fun n hmem _ _ hn => memberName_reads_iff.2 ⟨hn, hnot n hmem⟩) hs (hclear.ne (by simp))

/-- **The members of a union are read**, up to the next definition. -/
theorem unionMembers_readsAs {names : List Name} (h : IsMembers names ps)
    (hs : Dressed holds ps s rest) (hbegins : Begins rest) :
    ReadsAs unionMembers ps names s rest := by
  have hclear : Clear ['=', '|'] rest := hbegins.fresh.clear (by decide)
  cases h with
  | absent =>
    obtain rfl := dressed_nil.1 hs
    have hmiss : (punctuator '=').Misses s := punctuator_misses (hclear.ne (by simp))
    exact (ReadsAs.optional_none (bind_of_misses hmiss)).map fun o => o.getD []
  | present hnot =>
    obtain ⟨m, hequals, hnames⟩ := dressed_word_cons.1 hs
    have hled := led_readsAs (by decide) (by decide) hnames (hclear.ne (by simp)) fun hjoined =>
      separated_members_readsAs hnot hjoined hbegins
    exact ((ReadsAs.punctuator (by decide) hequals).bind hled).optional.map fun o => o.getD []

theorem isMembers_of_read {names : List Name} (h : unionMembers s = .read names rest) :
    ∃ ps, IsMembers names ps ∧ Dressed (Slot.Holds ReadWhole) ps s rest := by
  obtain ⟨o, m, hopt, hpure⟩ := exists_of_bind h
  obtain ⟨rfl, rfl⟩ := of_pure hpure
  rcases of_optional hopt with ⟨names, rfl, hread⟩ | ⟨rfl, rfl, -⟩
  · obtain ⟨_, m₁, hequals, hnames⟩ := exists_of_bind hread
    obtain ⟨m₂, hseparated, hled⟩ := exists_of_led (by decide) hnames
    obtain ⟨o, m₃, hinside, hpure⟩ := exists_of_bind hseparated
    obtain ⟨rfl, rfl⟩ := of_pure hpure
    have hequals' := (punctuator_reads_iff (by decide)).1 hequals
    rcases of_optional hinside with ⟨names, rfl, hall⟩ | ⟨rfl, rfl, -⟩
    · obtain ⟨-, hmembers, hjoined⟩ := of_separated1_names (by decide)
        (fun _ _ _ hn => (memberName_reads_iff.1 hn).1) hall
      obtain ⟨lead, hdressed⟩ := hled _ hjoined
      refine ⟨_, .present fun n hmem => ?_, .word hequals' hdressed⟩
      obtain ⟨_, _, hn⟩ := hmembers n hmem
      exact (memberName_reads_iff.1 hn).2
    · obtain ⟨lead, hdressed⟩ := hled [] .nil
      exact ⟨_, .present (by simp), .word hequals' hdressed⟩
  · exact ⟨[], .absent, .nil⟩

/-! ## Locations -/

theorem ofText?_text (location : DirectiveLocation) :
    DirectiveLocation.ofText? location.text = some location := by
  cases location <;> decide

theorem directiveLocation_reads_iff {location : DirectiveLocation} :
    directiveLocation s = .read location m ↔ Spelled [.name (locationName location)] s m := by
  constructor
  · intro h
    obtain ⟨n, hn, heq⟩ := exists_of_refine h
    have htext : location.text = n.text := by
      simpa using List.find?_some heq
    have hname : locationName location = n := Name.ext_text htext
    exact hname ▸ name_reads_iff.1 hn
  · intro h
    exact refine_of_read (name_reads_iff.2 h) (ofText?_text location)

/-- The rule for the places of a directive. -/
def locations : Rule Char (List DirectiveLocation) := do
  let _ ← optional (punctuator '|')
  separated1 (punctuator '|') directiveLocation

/-- **The places of a directive are read.** -/
theorem locations_readsAs {lead : Bool} {all : List DirectiveLocation} (hne : all ≠ [])
    (hs : Dressed holds (led lead '|' (all.map locationName)) s rest) (hnext : next? rest ≠ some '|') :
    ReadsAs locations (led lead '|' (all.map locationName)) all s rest := by
  obtain ⟨location, others, rfl⟩ := List.exists_cons_of_ne_nil hne
  exact led_readsAs (by decide) (by decide) hs hnext fun hjoined =>
    separated1_readsAs (by decide) (fun _ _ _ _ hl => directiveLocation_reads_iff.2 hl) hjoined hnext

theorem locations_of_read {all : List DirectiveLocation} (h : locations s = .read all rest) :
    all ≠ [] ∧
      ∃ lead, Dressed (Slot.Holds ReadWhole) (led lead '|' (all.map locationName)) s rest := by
  obtain ⟨m, hseparated, hled⟩ := exists_of_led (by decide) h
  obtain ⟨hne, -, hjoined⟩ :=
    of_separated1 (by decide) (fun _ _ _ hl => directiveLocation_reads_iff.1 hl) hseparated
  exact ⟨hne, hled _ hjoined⟩

end StructQL.SDL
