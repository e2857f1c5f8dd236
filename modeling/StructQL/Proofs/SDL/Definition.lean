import StructQL.Proofs.SDL.Members

/-!
# Definitions are read as they are spelled

Each definition opens with a keyword of its own. Behind it a miss stops the reading, so that no other
rule for definitions is tried.

* `Blocked`: where a definition ended too early.
* `writtenFields_fares`, `writtenUnion_fares`, `enumDefinition_fares` and others: each kind of
  definition.
* `definition_fares`: **a definition is read, or the reading jams** because of a name that is not read
  whole.
* `isDescribed_of_read`: what is read is a definition.
-/

namespace StructQL.SDL

open Rule

variable {α : Type} {value : Name → Prop} {ps : List Piece} {s m rest : List Char} {k : Name}

/-- **Where a definition ended too early**: in front of an opening sign that nothing reads. -/
def Blocked (s : List Char) : Prop := next? s = some '(' ∨ next? s = some '\x7b'

/-! ## Types with fields -/

/-- Where fields may be left out, a brace or the next definition comes next. -/
theorem Enclosed.next?_eq {one : α → List Piece → Prop} {xs : List α}
    (h : Enclosed '\x7b' '\x7d' one xs ps) (hs : Dressed (Slot.Holds value) ps s rest) :
    s = rest ∨ next? s = some '\x7b' := by
  cases h with
  | absent => exact .inl (dressed_nil.1 hs)
  | present =>
    obtain ⟨m, hopen, -⟩ := dressed_word_cons.1 hs
    exact .inr hopen.next?_eq

theorem clear_of_eq_or_brace {cs : List Char} (h : s = rest ∨ next? s = some '\x7b') (hrest : Clear cs rest)
    (hbrace : '\x7b' ∉ cs) : Clear cs s := by
  rcases h with rfl | h
  · exact hrest
  · intro c hc
    rw [h] at hc
    cases hc
    exact hbrace

/-- **A type with fields is read**, or the reading stops among its fields, or it ends at a directive. -/
theorem writtenFields_fares {one : Field → List Piece → Prop} {fields : Rule Char (List Field)}
    {type : WrittenFields} (hrule : FieldsRule value one fields) (h : IsWrittenFields one type ps)
    (hs : Dressed (Slot.Holds value) (label k :: ps) s rest) (hbegins : Begins rest) :
    ReadsOrJams value Blocked (writtenFields k.text fields) (label k :: ps) type s rest := by
  obtain ⟨himplements, hfields⟩ := h
  obtain ⟨m₁, hk, hs⟩ := dressed_word_cons.1 hs
  obtain ⟨m₂, hn, hs⟩ := dressed_word_cons.1 hs
  obtain ⟨m₃, hnames, hs⟩ := dressed_append.1 hs
  obtain ⟨_, m₄, hdirectives, hdirectives', hinside⟩ := dressed_slot_cons.1 hs
  have hafter := hfields.next?_eq hinside
  have hclear₄ : Clear ['@', '(', '&'] m₄ :=
    clear_of_eq_or_brace hafter (hbegins.fresh.clear (by decide)) (by decide)
  have hclear₃ : Clear ['&'] m₃ := (hclear₄.mono (by decide)).slot hdirectives hdirectives' (by decide)
  have hmiss : (keyword "implements").Misses m₃ := by
    rcases hdirectives.eq_or_opens hdirectives' with rfl | hat
    · rcases hafter with rfl | hbrace
      · exact hbegins.keyword_misses (by decide) (by decide)
      · exact keyword_misses_of_next? (by decide) (by simp [hbrace]; decide)
    · exact keyword_misses_of_next? (by decide) (by simp [hat, Slot.opening]; decide)
  have himplements' := implementsInterfaces_readsAs himplements hnames (hclear₃.ne (by simp)) hmiss
  have hclear : Clear ['\x7b'] rest := hbegins.fresh.clear (by decide)
  refine .bind (.keyword hk) (.commit (.bind (.name hn) (.bind himplements' ?_)))
  rcases directives_fare hdirectives hdirectives' (hclear₄.mono (by decide)) with
    hread | ⟨hspoils, m, hread, hm⟩
  · refine .bind hread ?_
    rcases hrule.fares hfields hinside (hclear.ne (by simp)) with ⟨got, hread, hgot⟩ | ⟨hspoils, hstop⟩
    · have htype := hread.map fun got => (⟨type.name, type.implements, got.getD []⟩ : WrittenFields)
      rw [hgot] at htype
      exact .reads htype
    · exact .stops hspoils (bind_of_stops hstop)
  · have hnone := optional_of_misses (hrule.misses (s := m) (by simp [hm]))
    exact .ends hspoils ((bind_of_read hread).trans (bind_of_read hnone)) (.inl hm)

theorem isWrittenFields_of_read {one : Field → List Piece → Prop} {fields : Rule Char (List Field)}
    {type : WrittenFields} (hrule : FieldsRule value one fields)
    (h : writtenFields k.text fields s = .read type rest) :
    ∃ ps, IsWrittenFields one type ps ∧ Dressed (Slot.Holds ReadWhole) (label k :: ps) s rest := by
  obtain ⟨_, m₁, hk, hbody⟩ := exists_of_bind h
  obtain ⟨n, m₂, hn, hbody⟩ := exists_of_bind (of_commit hbody)
  obtain ⟨names, m₃, hnames, hbody⟩ := exists_of_bind hbody
  obtain ⟨_, m₄, hdirectives, hbody⟩ := exists_of_bind hbody
  obtain ⟨got, m₅, hfields, hpure⟩ := exists_of_bind hbody
  obtain ⟨rfl, rfl⟩ := of_pure hpure
  obtain ⟨ps, hps, himplements⟩ := isImplements_of_read hnames
  obtain ⟨qs, hqs, hinside⟩ := hrule.of_read hfields
  have hplaces := dressed_append.2 ⟨m₄, directives_of_read hdirectives, hinside⟩
  refine ⟨_, .mk hps hqs, .word (keyword_reads_iff.1 hk) (.word (name_reads_iff.1 hn) ?_)⟩
  exact dressed_append.2 ⟨m₃, himplements, hplaces⟩

/-! ## Unions -/

/-- Where members may be left out, an equals sign or the next definition comes next. -/
theorem IsMembers.next?_eq {names : List Name} (h : IsMembers names ps)
    (hs : Dressed (Slot.Holds value) ps s rest) : s = rest ∨ next? s = some '=' := by
  cases h with
  | absent => exact .inl (dressed_nil.1 hs)
  | present =>
    obtain ⟨m, hequals, -⟩ := dressed_word_cons.1 hs
    exact .inr hequals.next?_eq

/-- **A union is read**, or the reading ends at a directive. -/
theorem writtenUnion_fares {type : UnionType} (h : IsWrittenUnion type ps)
    (hs : Dressed (Slot.Holds value) (label k :: ps) s rest) (hbegins : Begins rest) :
    ReadsOrJams value Blocked (writtenUnion k.text) (label k :: ps) type s rest := by
  obtain ⟨hmembers⟩ := h
  obtain ⟨m₁, hk, hs⟩ := dressed_word_cons.1 hs
  obtain ⟨m₂, hn, hs⟩ := dressed_word_cons.1 hs
  obtain ⟨_, m₃, hdirectives, hdirectives', hnames⟩ := dressed_slot_cons.1 hs
  have hclear : Clear ['@', '('] m₃ := by
    rcases hmembers.next?_eq hnames with rfl | hnext
    · exact hbegins.fresh.clear (by decide)
    · intro c hc
      rw [hnext] at hc
      cases hc
      decide
  refine .bind (.keyword hk) (.commit (.bind (.name hn) ?_))
  rcases directives_fare hdirectives hdirectives' hclear with hread | ⟨hspoils, m, hread, hm⟩
  · have hmembers' := unionMembers_readsAs hmembers hnames hbegins
    exact .bind hread (.reads (hmembers'.map (UnionType.mk type.name)))
  · have hnone : unionMembers m = .read [] m :=
      bind_of_read (optional_of_misses (bind_of_misses (punctuator_misses (by simp [hm]))))
    exact .ends hspoils ((bind_of_read hread).trans (bind_of_read hnone)) (.inl hm)

theorem isWrittenUnion_of_read {type : UnionType} (h : writtenUnion k.text s = .read type rest) :
    ∃ ps, IsWrittenUnion type ps ∧ Dressed (Slot.Holds ReadWhole) (label k :: ps) s rest := by
  obtain ⟨_, m₁, hk, hbody⟩ := exists_of_bind h
  obtain ⟨n, m₂, hn, hbody⟩ := exists_of_bind (of_commit hbody)
  obtain ⟨_, m₃, hdirectives, hbody⟩ := exists_of_bind hbody
  obtain ⟨members, m₄, hmembers, hpure⟩ := exists_of_bind hbody
  obtain ⟨rfl, rfl⟩ := of_pure hpure
  obtain ⟨ps, hps, hnames⟩ := isMembers_of_read hmembers
  have hplaces := dressed_append.2 ⟨m₃, directives_of_read hdirectives, hnames⟩
  exact ⟨_, .mk hps, .word (keyword_reads_iff.1 hk) (.word (name_reads_iff.1 hn) hplaces)⟩

/-! ## Schema definitions and scalars -/

theorem operationDefinition_readsAs {operation : Name × Name} (h : IsOperation operation ps)
    (hs : Dressed (Slot.Holds value) ps s rest) :
    ReadsAs operationDefinition ps operation s rest := by
  subst h
  obtain ⟨m₁, hoperation, hs⟩ := dressed_word_cons.1 hs
  obtain ⟨m₂, hcolon, hs⟩ := dressed_word_cons.1 hs
  have htype := dressed_label.1 hs
  exact ReadsAs.bind (.name hoperation) (.bind (.punctuator (by decide) hcolon)
    ((ReadsAs.name htype).map fun type => (operation.1, type)))

theorem isOperation_of_read {operation : Name × Name} (h : operationDefinition s = .read operation rest) :
    ∃ ps, IsOperation operation ps ∧ Dressed (Slot.Holds ReadWhole) ps s rest := by
  obtain ⟨n, m₁, hn, h⟩ := exists_of_bind h
  obtain ⟨_, m₂, hcolon, h⟩ := exists_of_bind h
  obtain ⟨type, m₃, htype, hpure⟩ := exists_of_bind h
  obtain ⟨rfl, rfl⟩ := of_pure hpure
  exact ⟨_, rfl, .word (name_reads_iff.1 hn) (.word ((punctuator_reads_iff (by decide)).1 hcolon)
    (dressed_label.2 (name_reads_iff.1 htype)))⟩

/-- The types of operations are read, and there is one. -/
theorem many1_operations_fares {operations : List (Name × Name)} (hne : operations ≠ [])
    (h : Listed IsOperation operations ps) (hs : Dressed (Slot.Holds value) ps s rest)
    (hnext : next? rest = some '\x7d') :
    ReadsAs (many1 operationDefinition) ps operations s rest ∨
      Spoils value ∧ (many1 operationDefinition).Stops s := by
  obtain ⟨operation, others, rfl⟩ := List.exists_cons_of_ne_nil hne
  have hend : operationDefinition.Misses rest :=
    bind_of_misses (name_misses (by simp [hnext]; decide))
  have hmany : ReadsOrJams value (fun _ => False) (many operationDefinition) ps (operation :: others)
      s rest :=
    many_fares (fun _ => True) h
      (fun hone hs _ => .reads (operationDefinition_readsAs hone hs))
      IsComposed.operationDefinition.advances (fun _ _ => trivial) (fun hfalse => hfalse.elim) hs
      trivial hend
  rcases hmany with hread | ⟨hspoils, hstop | ⟨_, _, -, hfalse⟩⟩
  · exact .inl ⟨many1_of_many hread.read, hread.dressed⟩
  · exact .inr ⟨hspoils, hstop.many1⟩
  · exact hfalse.elim

/-- **A schema definition is read**, or the reading stops at a directive. -/
theorem schemaDefinition_fares {operations : List (Name × Name)} (hk : k.text = "schema")
    (hne : operations ≠ []) (h : Listed IsOperation operations ps)
    (hs : Dressed (Slot.Holds value)
      (label k :: .slot .directives :: sign '\x7b' :: (ps ++ [sign '\x7d'])) s rest) :
    ReadsOrJams value Blocked schemaDefinition
      (label k :: .slot .directives :: sign '\x7b' :: (ps ++ [sign '\x7d'])) (.schema operations)
      s rest := by
  obtain ⟨m₁, hkeyword, hs⟩ := dressed_word_cons.1 hs
  obtain ⟨_, m₂, hdirectives, hdirectives', hs⟩ := dressed_slot_cons.1 hs
  obtain ⟨m₃, hopen, hs⟩ := dressed_word_cons.1 hs
  obtain ⟨m₄, hoperations, hclose⟩ := dressed_append.1 hs
  replace hclose := dressed_sign.1 hclose
  have hclear : Clear ['@', '('] m₂ := fun c hc => by
    rw [hopen.next?_eq] at hc
    cases hc
    decide
  unfold schemaDefinition
  rw [← hk]
  refine .bind (.keyword hkeyword) ?_
  rcases directives_fare hdirectives hdirectives' hclear with hread | ⟨hspoils, m, hread, hm⟩
  · refine .commit (.bind hread ?_)
    rcases many1_operations_fares hne h hoperations hclose.next?_eq with hmany | ⟨hspoils, hstop⟩
    · exact .reads ((ReadsAs.between (by decide) (by decide) hopen hmany hclose).map Definition.schema)
    · exact .stops hspoils (bind_of_stops
        (.of_bind ((punctuator_reads_iff (by decide)).2 hopen) (bind_of_stops hstop)))
  · have hmiss : (punctuator '\x7b').Misses m := punctuator_misses (by simp [hm])
    exact .stops hspoils
      (commit_of_misses (.of_bind hread (bind_of_misses (between_of_misses hmiss))))

theorem isDefinition_of_schemaDefinition {d : Definition} (h : schemaDefinition s = .read d rest) :
    ∃ ps, IsDefinition d ps ∧ Dressed (Slot.Holds ReadWhole) ps s rest := by
  obtain ⟨_, m₁, hk, hbody⟩ := exists_of_bind h
  obtain ⟨_, m₂, hdirectives, hbody⟩ := exists_of_bind (of_commit hbody)
  obtain ⟨operations, m₃, hbetween, hpure⟩ := exists_of_bind hbody
  obtain ⟨rfl, rfl⟩ := of_pure hpure
  obtain ⟨_, m₄, m₅, _, hopen, hmany, hclose⟩ := exists_of_between hbetween
  obtain ⟨operation, m₆, hfirst, hmany⟩ := exists_of_bind hmany
  obtain ⟨others, m₇, hothers, hpure⟩ := exists_of_bind hmany
  obtain ⟨rfl, rfl⟩ := of_pure hpure
  obtain ⟨ps, hps, hfirst'⟩ := isOperation_of_read hfirst
  obtain ⟨qs, hqs, hothers'⟩ := listed_of_many isOperation_of_read hothers
  have hinside := dressed_append.2 ⟨m₆, hfirst', hothers'⟩
  refine ⟨_, .schema (List.cons_ne_nil _ _) (.cons hps hqs), .word (keyword_reads_iff.1 hk) ?_⟩
  refine dressed_append.2 ⟨m₂, directives_of_read hdirectives, ?_⟩
  refine .word ((punctuator_reads_iff (by decide)).1 hopen) (dressed_append.2 ⟨m₇, hinside, ?_⟩)
  exact dressed_sign.2 ((punctuator_reads_iff (by decide)).1 hclose)

/-- **A scalar is read**, or the reading ends at a directive. -/
theorem scalarDefinition_fares {n : Name} (hk : k.text = "scalar")
    (hs : Dressed (Slot.Holds value) [label k, label n, .slot .directives] s rest)
    (hbegins : Begins rest) :
    ReadsOrJams value Blocked scalarDefinition [label k, label n, .slot .directives] (.scalar n) s
      rest := by
  obtain ⟨m₁, hkeyword, hs⟩ := dressed_word_cons.1 hs
  obtain ⟨m₂, hn, hs⟩ := dressed_word_cons.1 hs
  obtain ⟨_, hdirectives, hdirectives'⟩ := dressed_slot.1 hs
  unfold scalarDefinition
  rw [← hk]
  refine .bind (.keyword hkeyword) (.commit (.bind (.name hn) ?_))
  rcases directives_fare hdirectives hdirectives' (hbegins.fresh.clear (by decide)) with
    hread | ⟨hspoils, m, hread, hm⟩
  · exact .reads (hread.bind (.pure _ _))
  · exact .ends hspoils (bind_of_read hread) (.inl hm)

theorem isDefinition_of_scalarDefinition {d : Definition} (h : scalarDefinition s = .read d rest) :
    ∃ ps, IsDefinition d ps ∧ Dressed (Slot.Holds ReadWhole) ps s rest := by
  obtain ⟨_, m₁, hk, hbody⟩ := exists_of_bind h
  obtain ⟨n, m₂, hn, hbody⟩ := exists_of_bind (of_commit hbody)
  obtain ⟨_, m₃, hdirectives, hpure⟩ := exists_of_bind hbody
  obtain ⟨rfl, rfl⟩ := of_pure hpure
  exact ⟨_, .scalar, .word (keyword_reads_iff.1 hk) (.word (name_reads_iff.1 hn)
    (directives_of_read hdirectives))⟩

/-! ## Enums -/

theorem isEnumValue_of_read {n : Name} (h : enumValueDefinition s = .read n rest) :
    ∃ ps, IsEnumValue n ps ∧ Dressed (Slot.Holds ReadWhole) ps s rest := by
  obtain ⟨_, m₁, hdescription, h⟩ := exists_of_bind h
  obtain ⟨n, m₂, hn, h⟩ := exists_of_bind h
  obtain ⟨_, m₃, hdirectives, hpure⟩ := exists_of_bind h
  obtain ⟨rfl, rfl⟩ := of_pure hpure
  exact ⟨_, rfl, dressed_append.2 ⟨m₁, description_of_read hdescription, .word (name_reads_iff.1 hn)
    (directives_of_read hdirectives)⟩⟩

theorem enumValueDefinition_fares {n : Name} (h : IsEnumValue n ps)
    (hs : Dressed (Slot.Holds value) ps s rest) (hfresh : Fresh rest) :
    ReadsOrJams value (fun m => next? m = some '(') enumValueDefinition ps n s rest := by
  subst h
  obtain ⟨_, m₁, hholds, hspelled, hs⟩ := dressed_slot_cons.1 hs
  obtain ⟨m₂, hn, hs⟩ := dressed_word_cons.1 hs
  obtain ⟨_, hdirectives, hdirectives'⟩ := dressed_slot.1 hs
  refine .bind (description_readsAs hholds hspelled (hn.nameNext.ne (by decide))) ?_
  refine .bind (.name hn) ?_
  rcases directives_fare hdirectives hdirectives' (hfresh.clear (by decide)) with
    hread | ⟨hspoils, m, hread, hm⟩
  · exact .reads (hread.bind (.pure _ _))
  · exact .ends hspoils (bind_of_read hread) hm

theorem enumValueDefinition_misses (h : next? s = some '(') : enumValueDefinition.Misses s := by
  have hdescription : description s = .read () s :=
    bind_of_read (optional_of_misses (stringValue_misses (by simp [h])))
  exact .of_bind hdescription (bind_of_misses (name_misses (by simp [h]; decide)))

/-- The rule for the values of an enum. -/
def enumValuesDefinition : Rule Char (List Name) :=
  between (punctuator '\x7b') (many enumValueDefinition) (punctuator '\x7d')

/-- **The values of an enum are read**, or none of them is because of a name that is not read whole. -/
theorem optional_enumValues_fares {values : List Name}
    (h : Enclosed '\x7b' '\x7d' IsEnumValue values ps) (hs : Dressed (Slot.Holds value) ps s rest)
    (hbegins : Begins rest) :
    (∃ got, ReadsAs (optional enumValuesDefinition) ps got s rest ∧ got.getD [] = values) ∨
      Spoils value ∧ ((optional enumValuesDefinition).Stops s ∨
        optional enumValuesDefinition s = .read none s ∧ next? s = some '\x7b') := by
  cases h with
  | absent =>
    obtain rfl := dressed_nil.1 hs
    have hclear : Clear ['\x7b'] s := hbegins.fresh.clear (by decide)
    have hmiss : enumValuesDefinition.Misses s :=
      between_of_misses (punctuator_misses (hclear.ne (by simp)))
    exact .inl ⟨none, .optional_none hmiss, rfl⟩
  | present hlisted =>
    obtain ⟨m₁, hopen, hs⟩ := dressed_word_cons.1 hs
    obtain ⟨m₂, hinside, hclose⟩ := dressed_append.1 hs
    replace hclose := dressed_sign.1 hclose
    have hopen' := (punctuator_reads_iff (by decide)).2 hopen
    have hnext : next? m₂ = some '\x7d' := hclose.next?_eq
    have hmany : ReadsOrJams value (fun m => next? m = some '(') (many enumValueDefinition) _ _ m₁ m₂ :=
      many_fares Fresh hlisted enumValueDefinition_fares IsComposed.enumValueDefinition.advances
        (fun hone hs => by subst hone; exact fresh_of_described hs) enumValueDefinition_misses hinside
        (fresh_of_next? hnext (by simp)) (described_misses hnext (by simp))
    rcases hmany with hread | ⟨hspoils, hstop | ⟨others, m, hread, hm⟩⟩
    · exact .inl ⟨_, (ReadsAs.between (by decide) (by decide) hopen hread hclose).optional, rfl⟩
    · exact .inr ⟨hspoils, .inl (optional_of_stops (.of_bind hopen' (bind_of_stops hstop)))⟩
    · have hmiss : (punctuator '\x7d').Misses m := punctuator_misses (by simp [hm])
      exact .inr ⟨hspoils, .inr ⟨optional_of_misses (.of_bind hopen' (.of_bind hread
        (bind_of_misses hmiss))), hopen.next?_eq⟩⟩

/-- **An enum is read**, or the reading ends at a directive or in front of the values. -/
theorem enumDefinition_fares {type : EnumType} (hk : k.text = "enum")
    (h : Enclosed '\x7b' '\x7d' IsEnumValue type.values ps)
    (hs : Dressed (Slot.Holds value) (label k :: label type.name :: .slot .directives :: ps) s rest)
    (hbegins : Begins rest) :
    ReadsOrJams value Blocked enumDefinition (label k :: label type.name :: .slot .directives :: ps)
      (.enum type) s rest := by
  obtain ⟨m₁, hkeyword, hs⟩ := dressed_word_cons.1 hs
  obtain ⟨m₂, hn, hs⟩ := dressed_word_cons.1 hs
  obtain ⟨_, m₃, hdirectives, hdirectives', hvalues⟩ := dressed_slot_cons.1 hs
  have hclear : Clear ['@', '('] m₃ :=
    clear_of_eq_or_brace (h.next?_eq hvalues) (hbegins.fresh.clear (by decide)) (by decide)
  unfold enumDefinition
  rw [← hk]
  refine .bind (.keyword hkeyword) (.commit (.bind (.name hn) ?_))
  rcases directives_fare hdirectives hdirectives' hclear with hread | ⟨hspoils, m, hread, hm⟩
  · refine .bind hread ?_
    rcases optional_enumValues_fares h hvalues hbegins with
      ⟨got, hread, hgot⟩ | ⟨hspoils, hstop | ⟨hread, hm⟩⟩
    · have htype := hread.map fun got => Definition.enum ⟨type.name, got.getD []⟩
      rw [hgot] at htype
      exact .reads htype
    · exact .stops hspoils (bind_of_stops hstop)
    · exact .ends hspoils (bind_of_read hread) (.inr hm)
  · have hnone : optional enumValuesDefinition m = .read none m :=
      optional_of_misses (between_of_misses (punctuator_misses (by simp [hm])))
    exact .ends hspoils ((bind_of_read hread).trans (bind_of_read hnone)) (.inl hm)

theorem isDefinition_of_enumDefinition {d : Definition} (h : enumDefinition s = .read d rest) :
    ∃ ps, IsDefinition d ps ∧ Dressed (Slot.Holds ReadWhole) ps s rest := by
  obtain ⟨_, m₁, hk, hbody⟩ := exists_of_bind h
  obtain ⟨n, m₂, hn, hbody⟩ := exists_of_bind (of_commit hbody)
  obtain ⟨_, m₃, hdirectives, hbody⟩ := exists_of_bind hbody
  obtain ⟨got, m₄, hvalues, hpure⟩ := exists_of_bind hbody
  obtain ⟨rfl, rfl⟩ := of_pure hpure
  obtain ⟨ps, hps, hinside⟩ := enclosed_of_optional (fun hread => enclosed_of_between (by decide)
    (fun hclose => (punctuator_reads_iff (by decide)).1 hclose) isEnumValue_of_read hread) hvalues
  have hplaces := dressed_append.2 ⟨m₃, directives_of_read hdirectives, hinside⟩
  exact ⟨_, .enum hps, .word (keyword_reads_iff.1 hk) (.word (name_reads_iff.1 hn) hplaces)⟩

/-! ## Directives -/

/-- The pieces of the word for a directive that may be repeated. -/
def repeatablePieces (repeatable : Bool) : List Piece :=
  if repeatable then [label ⟨"repeatable", by decide⟩] else []

theorem optional_repeatable_readsAs {repeatable : Bool}
    (hs : Dressed (Slot.Holds value) (repeatablePieces repeatable) s rest)
    (hmiss : (keyword "repeatable").Misses rest) :
    ∃ got, ReadsAs (optional (keyword "repeatable")) (repeatablePieces repeatable) got s rest ∧
      got.isSome = repeatable := by
  cases repeatable with
  | true => exact ⟨some (), (ReadsAs.keyword (dressed_label.1 hs)).optional, rfl⟩
  | false =>
    obtain rfl := dressed_nil.1 hs
    exact ⟨none, .optional_none hmiss, rfl⟩

theorem dressed_of_optional_repeatable {got : Option Unit}
    (h : optional (keyword "repeatable") s = .read got rest) :
    Dressed (Slot.Holds ReadWhole) (repeatablePieces got.isSome) s rest := by
  rcases of_optional h with ⟨_, rfl, hread⟩ | ⟨rfl, rfl, -⟩
  · exact dressed_label.2 (keyword_reads_iff.1 hread)
  · exact .nil

/-- **A directive is read**, or the reading stops in its arguments. -/
theorem directiveDefinition_fares {d : DirectiveDefinition} {arguments : List Piece} {lead : Bool}
    (hk : k.text = "directive") (h : IsArguments d.arguments arguments) (hne : d.locations ≠ [])
    (hs : Dressed (Slot.Holds value) (label k :: sign '@' :: label d.name ::
      (arguments ++ repeatablePieces d.repeatable ++
        label ⟨"on", by decide⟩ :: led lead '|' (d.locations.map locationName))) s rest)
    (hbegins : Begins rest) :
    ReadsOrJams value Blocked directiveDefinition (label k :: sign '@' :: label d.name ::
      (arguments ++ repeatablePieces d.repeatable ++
        label ⟨"on", by decide⟩ :: led lead '|' (d.locations.map locationName))) (.directive d) s
      rest := by
  obtain ⟨m₁, hkeyword, hs⟩ := dressed_word_cons.1 hs
  obtain ⟨m₂, hat, hs⟩ := dressed_word_cons.1 hs
  obtain ⟨m₃, hn, hs⟩ := dressed_word_cons.1 hs
  rw [List.append_assoc] at hs ⊢
  obtain ⟨m₄, harguments, hs⟩ := dressed_append.1 hs
  obtain ⟨m₅, hrepeatable, hs⟩ := dressed_append.1 hs
  obtain ⟨m₆, hon, hlocations⟩ := dressed_word_cons.1 hs
  have hclear : Clear ['|'] rest := hbegins.fresh.clear (by decide)
  have hmiss : (keyword "repeatable").Misses m₅ :=
    keyword_misses_of_name (by decide) hon (by decide)
  obtain ⟨got, hrepeatable', hgot⟩ := optional_repeatable_readsAs hrepeatable hmiss
  have hparen : next? m₄ ≠ some '(' := by
    cases hr : d.repeatable with
    | true =>
      rw [hr] at hrepeatable
      exact (dressed_label.1 hrepeatable).nameNext.ne (by decide)
    | false =>
      rw [hr] at hrepeatable
      exact dressed_nil.1 hrepeatable ▸ hon.nameNext.ne (by decide)
  unfold directiveDefinition
  rw [← hk]
  refine .bind (.keyword hkeyword) (.commit (.bind (.punctuator (by decide) hat) ?_))
  refine .bind (.name hn) ?_
  rcases optional_arguments_fares h harguments hparen with ⟨arguments', hread, heq⟩ | ⟨hspoils, hstop⟩
  · refine .bind hread (.bind hrepeatable' (.bind (.keyword hon) (.reads ?_)))
    rw [heq, hgot]
    have hlast := (locations_readsAs hne hlocations (hclear.ne (by simp))).map fun locations =>
      Definition.directive ⟨d.name, d.arguments, d.repeatable, locations⟩
    exact ⟨(bind_bind ..).symm.trans hlast.read, hlast.dressed⟩
  · exact .stops hspoils (bind_of_stops hstop)

theorem isDefinition_of_directiveDefinition {d : Definition} (h : directiveDefinition s = .read d rest) :
    ∃ ps, IsDefinition d ps ∧ Dressed (Slot.Holds ReadWhole) ps s rest := by
  obtain ⟨_, m₁, hk, hbody⟩ := exists_of_bind h
  obtain ⟨_, m₂, hat, hbody⟩ := exists_of_bind (of_commit hbody)
  obtain ⟨n, m₃, hn, hbody⟩ := exists_of_bind hbody
  obtain ⟨got, m₄, harguments, hbody⟩ := exists_of_bind hbody
  obtain ⟨repeatable, m₅, hrepeatable, hbody⟩ := exists_of_bind hbody
  obtain ⟨_, m₆, hon, hbody⟩ := exists_of_bind hbody
  obtain ⟨all, m₇, hlocations, hpure⟩ := exists_of_bind ((bind_bind ..).trans hbody)
  obtain ⟨rfl, rfl⟩ := of_pure hpure
  obtain ⟨ps, hps, hinside⟩ := arguments_of_optional harguments
  obtain ⟨hne, lead, hled⟩ := locations_of_read hlocations
  have hhead := dressed_append.2 ⟨m₄, hinside, dressed_of_optional_repeatable hrepeatable⟩
  have hon' : Spelled [.name ⟨"on", by decide⟩] m₅ m₆ := keyword_reads_iff.1 hon
  have hlast := dressed_append.2 ⟨m₅, hhead, .word hon' hled⟩
  exact ⟨_, .directive hps hne, .word (keyword_reads_iff.1 hk)
    (.word ((punctuator_reads_iff (by decide)).1 hat) (.word (name_reads_iff.1 hn) hlast))⟩

/-! ## Any definition -/

/-- The rules for definitions with their keywords. -/
def definitionRules : List (Name × Rule Char Definition) := [
  (⟨"schema", by decide⟩, schemaDefinition),
  (⟨"scalar", by decide⟩, scalarDefinition),
  (⟨"type", by decide⟩, objectDefinition),
  (⟨"interface", by decide⟩, interfaceDefinition),
  (⟨"union", by decide⟩, unionDefinition),
  (⟨"enum", by decide⟩, enumDefinition),
  (⟨"input", by decide⟩, inputObjectDefinition),
  (⟨"directive", by decide⟩, directiveDefinition),
  (⟨"structUnion", by decide⟩, structUnionDefinition),
  (⟨"struct", by decide⟩, structDefinition)]

theorem definition_eq :
    definition = (do description; firstOf (definitionRules.map Prod.snd)) := rfl

theorem nodup_definitionRules : (definitionRules.map fun r => r.1.text).Nodup := by
  decide

/-- A rule for definitions misses without its keyword. -/
theorem definitionRules_misses {p : Rule Char Definition} (h : (k, p) ∈ definitionRules)
    (hk : (keyword k.text).Misses s) : p.Misses s := by
  simp only [definitionRules, List.mem_cons, Prod.mk.injEq, List.not_mem_nil, or_false] at h
  rcases h with ⟨rfl, rfl⟩ | ⟨rfl, rfl⟩ | ⟨rfl, rfl⟩ | ⟨rfl, rfl⟩ | ⟨rfl, rfl⟩ | ⟨rfl, rfl⟩ |
    ⟨rfl, rfl⟩ | ⟨rfl, rfl⟩ | ⟨rfl, rfl⟩ | ⟨rfl, rfl⟩
  · exact bind_of_misses hk
  · exact bind_of_misses hk
  · exact bind_of_misses (bind_of_misses hk)
  · exact bind_of_misses (bind_of_misses hk)
  · exact bind_of_misses (bind_of_misses hk)
  · exact bind_of_misses hk
  · exact bind_of_misses (bind_of_misses hk)
  · exact bind_of_misses hk
  · exact bind_of_misses (bind_of_misses hk)
  · exact bind_of_misses (bind_of_misses hk)

/-- The keyword chooses the rule. -/
theorem choose_fares {p : Rule Char Definition} {d : Definition} (h : (k, p) ∈ definitionRules)
    (hs : Dressed (Slot.Holds value) (label k :: ps) s rest)
    (hp : ReadsOrJams value Blocked p (label k :: ps) d s rest) :
    ReadsOrJams value Blocked (firstOf (definitionRules.map Prod.snd)) (label k :: ps) d s rest := by
  obtain ⟨m, hk, -⟩ := dressed_word_cons.1 hs
  obtain ⟨before, after, heq⟩ := List.append_of_mem h
  have hnodup := nodup_definitionRules
  rw [heq, List.map_append, List.map_cons] at hnodup
  rw [heq, List.map_append, List.map_cons]
  refine .firstOf (fun q hq => ?_) hp
  obtain ⟨⟨k', q'⟩, hmem, rfl⟩ := List.mem_map.1 hq
  have hmem' : (k', q') ∈ definitionRules := heq ▸ List.mem_append_left _ hmem
  have hne : k'.text ≠ k.text := fun htext =>
    (List.nodup_append.1 hnodup).2.2 _ (List.mem_map_of_mem hmem) _ List.mem_cons_self htext
  exact definitionRules_misses hmem' (keyword_misses_of_name k'.isName_text hk hne)

theorem IsDefinition.exists_keyword {d : Definition} (h : IsDefinition d ps) :
    ∃ k qs, ps = label k :: qs ∧ k.text ∈ definitionKeywords := by
  cases h <;> exact ⟨_, _, rfl, by decide⟩

/-- **A definition behind its description is read**, or the reading jams. -/
theorem firstOf_definitionRules_fares {d : Definition} (h : IsDefinition d ps)
    (hs : Dressed (Slot.Holds value) ps s rest) (hbegins : Begins rest) :
    ReadsOrJams value Blocked (firstOf (definitionRules.map Prod.snd)) ps d s rest := by
  have hfields := fieldsDefinition_fieldsRule value
  have hinputs := inputFieldsDefinition_fieldsRule value
  cases h with
  | schema hne hoperations =>
    exact choose_fares (p := schemaDefinition) (by simp [definitionRules]) hs
      (schemaDefinition_fares rfl hne hoperations hs)
  | scalar =>
    exact choose_fares (p := scalarDefinition) (by simp [definitionRules]) hs
      (scalarDefinition_fares rfl hs hbegins)
  | object htype =>
    exact choose_fares (p := objectDefinition) (by simp [definitionRules]) hs
      ((writtenFields_fares hfields htype hs hbegins).map Definition.object)
  | interface htype =>
    exact choose_fares (p := interfaceDefinition) (by simp [definitionRules]) hs
      ((writtenFields_fares hfields htype hs hbegins).map Definition.interface)
  | inputObject htype =>
    exact choose_fares (p := inputObjectDefinition) (by simp [definitionRules]) hs
      ((writtenFields_fares hinputs htype hs hbegins).map Definition.inputObject)
  | struct htype =>
    exact choose_fares (p := structDefinition) (by simp [definitionRules]) hs
      ((writtenFields_fares hfields htype hs hbegins).map Definition.struct)
  | union htype =>
    exact choose_fares (p := unionDefinition) (by simp [definitionRules]) hs
      ((writtenUnion_fares htype hs hbegins).map Definition.union)
  | structUnion htype =>
    exact choose_fares (p := structUnionDefinition) (by simp [definitionRules]) hs
      ((writtenUnion_fares htype hs hbegins).map Definition.structUnion)
  | enum hvalues =>
    exact choose_fares (p := enumDefinition) (by simp [definitionRules]) hs
      (enumDefinition_fares rfl hvalues hs hbegins)
  | directive harguments hne =>
    exact choose_fares (p := directiveDefinition) (by simp [definitionRules]) hs
      (directiveDefinition_fares rfl harguments hne hs hbegins)

/-- **A definition is read**, or the reading jams because of a name that is not read whole. -/
theorem definition_fares {d : Definition} (h : IsDescribed d ps)
    (hs : Dressed (Slot.Holds value) ps s rest) (hbegins : Begins rest) :
    ReadsOrJams value Blocked definition ps d s rest := by
  obtain ⟨qs, hqs, rfl⟩ := h
  obtain ⟨_, m, hholds, hspelled, hs⟩ := dressed_slot_cons.1 hs
  have hquote : next? m ≠ some '"' := by
    obtain ⟨k, qs, rfl, -⟩ := hqs.exists_keyword
    obtain ⟨_, hk, -⟩ := dressed_word_cons.1 hs
    exact hk.nameNext.ne (by decide)
  rw [definition_eq]
  exact .bind (description_readsAs hholds hspelled hquote) (firstOf_definitionRules_fares hqs hs hbegins)

/-- What one of the rules reads is a definition. -/
theorem isDefinition_of_mem {p : Rule Char Definition} {d : Definition} (h : (k, p) ∈ definitionRules)
    (hread : p s = .read d rest) :
    ∃ ps, IsDefinition d ps ∧ Dressed (Slot.Holds ReadWhole) ps s rest := by
  simp only [definitionRules, List.mem_cons, Prod.mk.injEq, List.not_mem_nil, or_false] at h
  rcases h with ⟨-, rfl⟩ | ⟨-, rfl⟩ | ⟨-, rfl⟩ | ⟨-, rfl⟩ | ⟨-, rfl⟩ | ⟨-, rfl⟩ | ⟨-, rfl⟩ | ⟨-, rfl⟩ |
    ⟨-, rfl⟩ | ⟨-, rfl⟩
  · exact isDefinition_of_schemaDefinition hread
  · exact isDefinition_of_scalarDefinition hread
  · obtain ⟨type, hwritten, rfl⟩ := exists_of_bind_pure hread
    obtain ⟨ps, hps, hdressed⟩ := isWrittenFields_of_read (k := ⟨"type", by decide⟩)
      (fieldsDefinition_fieldsRule ReadWhole) hwritten
    exact ⟨_, .object hps, hdressed⟩
  · obtain ⟨type, hwritten, rfl⟩ := exists_of_bind_pure hread
    obtain ⟨ps, hps, hdressed⟩ := isWrittenFields_of_read (k := ⟨"interface", by decide⟩)
      (fieldsDefinition_fieldsRule ReadWhole) hwritten
    exact ⟨_, .interface hps, hdressed⟩
  · obtain ⟨type, hwritten, rfl⟩ := exists_of_bind_pure hread
    obtain ⟨ps, hps, hdressed⟩ := isWrittenUnion_of_read (k := ⟨"union", by decide⟩) hwritten
    exact ⟨_, .union hps, hdressed⟩
  · exact isDefinition_of_enumDefinition hread
  · obtain ⟨type, hwritten, rfl⟩ := exists_of_bind_pure hread
    obtain ⟨ps, hps, hdressed⟩ := isWrittenFields_of_read (k := ⟨"input", by decide⟩)
      (inputFieldsDefinition_fieldsRule ReadWhole) hwritten
    exact ⟨_, .inputObject hps, hdressed⟩
  · exact isDefinition_of_directiveDefinition hread
  · obtain ⟨type, hwritten, rfl⟩ := exists_of_bind_pure hread
    obtain ⟨ps, hps, hdressed⟩ := isWrittenUnion_of_read (k := ⟨"structUnion", by decide⟩) hwritten
    exact ⟨_, .structUnion hps, hdressed⟩
  · obtain ⟨type, hwritten, rfl⟩ := exists_of_bind_pure hread
    obtain ⟨ps, hps, hdressed⟩ := isWrittenFields_of_read (k := ⟨"struct", by decide⟩)
      (fieldsDefinition_fieldsRule ReadWhole) hwritten
    exact ⟨_, .struct hps, hdressed⟩

/-- **What is read is a definition** with its description. -/
theorem isDescribed_of_read {d : Definition} (h : definition s = .read d rest) :
    ∃ ps, IsDescribed d ps ∧ Dressed (Slot.Holds ReadWhole) ps s rest := by
  rw [definition_eq] at h
  obtain ⟨_, m, hdescription, hchoice⟩ := exists_of_bind h
  obtain ⟨before, p, after, heq, -, hp⟩ := exists_of_firstOf hchoice
  have hmem : p ∈ definitionRules.map Prod.snd := by simp [heq]
  obtain ⟨⟨k, p⟩, hrule, rfl⟩ := List.mem_map.1 hmem
  obtain ⟨ps, hps, hdressed⟩ := isDefinition_of_mem hrule hp
  exact ⟨_, ⟨ps, hps, rfl⟩, dressed_append.2 ⟨m, description_of_read hdescription, hdressed⟩⟩

/-- Where neither a string nor a name comes next there is no definition. -/
theorem definition_misses (h : ∀ c ∈ next? s, c ≠ '"' ∧ isNameStart c = false) :
    definition.Misses s := by
  have hdescription : description s = .read () s :=
    bind_of_read (optional_of_misses (stringValue_misses fun hquote => (h _ hquote).1 rfl))
  rw [definition_eq]
  refine .of_bind hdescription (firstOf_misses fun p hp => ?_)
  obtain ⟨⟨k, p⟩, hrule, rfl⟩ := List.mem_map.1 hp
  exact definitionRules_misses hrule (keyword_misses_of_next? k.isName_text fun c hc => (h c hc).2)

theorem Blocked.definition_misses (h : Blocked s) : definition.Misses s := by
  refine StructQL.SDL.definition_misses fun c hc => ?_
  rcases h with h | h
  · rw [h] at hc
    cases hc
    decide
  · rw [h] at hc
    cases hc
    decide

/-- A definition begins as what stands behind one may. -/
theorem IsDescribed.begins {d : Definition} (h : IsDescribed d ps)
    (hs : Dressed (Slot.Holds value) ps s rest) : Begins s := by
  obtain ⟨qs, hqs, rfl⟩ := h
  obtain ⟨k, qs, rfl, hkeyword⟩ := hqs.exists_keyword
  obtain ⟨ws, m, hholds, hws, hs⟩ := dressed_slot_cons.1 hs
  obtain ⟨m', hk, -⟩ := dressed_word_cons.1 hs
  rcases hholds.eq_or_opens hws with rfl | hquote
  · exact .inr (.inr ⟨k, m', hk, hkeyword⟩)
  · exact .inr (.inl hquote)

end StructQL.SDL
