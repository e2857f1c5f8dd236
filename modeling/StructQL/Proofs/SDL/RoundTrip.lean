import StructQL.Proofs.SDL.Assembly
import StructQL.Proofs.SDL.Document

/-!
# Written schemas are read back

Definitions have words as soon as none of them lacks what cannot be left out. Any text that spells the
words, with any blanks, is read as the schema of the definitions.

* `Definition.IsWritable`: the definition has words.
* `exists_isDefinition`: **what is writable can be written**.
* `spelling`: the words one after the other.
* `areProper_of_isDefinition`: definitions are written in words of the language.
* `schemaOf_of_written`: **what is written is read back**.
-/

namespace StructQL.SDL

variable {α : Type} {one : α → List Piece → Prop} {xs : List α} {ps qs : List Piece}

/-- The places without meaning are left empty. -/
def LeftEmpty (_ : Slot) (ws : List Word) : Prop := ws = []

theorem LeftEmpty.holds {kind : Slot} {ws : List Word} (h : LeftEmpty kind ws) :
    kind.Holds ReadWhole ws := by
  obtain rfl : ws = [] := h
  cases kind with
  | description => exact .noDescription
  | directives => exact .directives (List.forall_mem_nil _)
  | defaultValue => exact .noDefault

/-! ## What can be written -/

/-- **The definition can be written**: a schema definition has an operation, the fields of an input
object have no arguments, no member of a union opens a definition, and a directive has a place. -/
def Definition.IsWritable : Definition → Prop
  | schema operations => operations ≠ []
  | inputObject type => ∀ field ∈ type.fields, field.arguments = []
  | union type | structUnion type => ∀ n ∈ type.members, n.text ∉ definitionKeywords
  | directive d => d.locations ≠ []
  | scalar _ | object _ | interface _ | struct _ | enum _ => True

theorem exists_listed (h : ∀ x ∈ xs, ∃ ps, one x ps) : ∃ ps, Listed one xs ps := by
  induction xs with
  | nil => exact ⟨[], .nil⟩
  | cons x xs ih =>
    obtain ⟨hx, hxs⟩ := List.forall_mem_cons.1 h
    obtain ⟨ps, hps⟩ := hx
    obtain ⟨qs, hqs⟩ := ih hxs
    exact ⟨ps ++ qs, .cons hps hqs⟩

theorem exists_enclosed {opening closing : Char} (h : ∀ x ∈ xs, ∃ ps, one x ps) :
    ∃ ps, Enclosed opening closing one xs ps := by
  obtain ⟨ps, hps⟩ := exists_listed h
  exact ⟨_, .present hps⟩

theorem exists_isField (field : Field) : ∃ ps, IsField field ps := by
  obtain ⟨arguments, harguments⟩ : ∃ ps, IsArguments field.arguments ps :=
    exists_enclosed fun v _ => ⟨inputPieces v, rfl⟩
  exact ⟨_, .mk harguments⟩

theorem exists_isImplements (names : List Name) : ∃ ps, IsImplements names ps := by
  by_cases h : names = []
  · exact ⟨[], h ▸ .absent⟩
  · exact ⟨_, @IsImplements.present _ false h⟩

theorem exists_isWrittenFields {one : Field → List Piece → Prop} {type : WrittenFields}
    (h : ∀ field ∈ type.fields, ∃ ps, one field ps) : ∃ ps, IsWrittenFields one type ps := by
  obtain ⟨implements, himplements⟩ := exists_isImplements type.implements
  obtain ⟨fields, hfields⟩ := exists_enclosed h
  exact ⟨_, .mk himplements hfields⟩

theorem exists_isWrittenUnion {type : UnionType}
    (h : ∀ n ∈ type.members, n.text ∉ definitionKeywords) : ∃ ps, IsWrittenUnion type ps :=
  ⟨_, .mk (@IsMembers.present _ false h)⟩

/-- **What is writable can be written.** -/
theorem exists_isDefinition {d : Definition} (h : d.IsWritable) : ∃ ps, IsDefinition d ps := by
  cases d with
  | schema operations =>
    obtain ⟨ps, hps⟩ : ∃ ps, Listed IsOperation operations ps := exists_listed fun _ _ => ⟨_, rfl⟩
    exact ⟨_, .schema h hps⟩
  | scalar name => exact ⟨_, .scalar⟩
  | object type =>
    obtain ⟨ps, hps⟩ := exists_isWrittenFields fun field (_ : field ∈ type.fields) =>
      exists_isField field
    exact ⟨_, .object hps⟩
  | interface type =>
    obtain ⟨ps, hps⟩ := exists_isWrittenFields fun field (_ : field ∈ type.fields) =>
      exists_isField field
    exact ⟨_, .interface hps⟩
  | struct type =>
    obtain ⟨ps, hps⟩ := exists_isWrittenFields fun field (_ : field ∈ type.fields) =>
      exists_isField field
    exact ⟨_, .struct hps⟩
  | inputObject type =>
    obtain ⟨ps, hps⟩ : ∃ ps, IsWrittenFields IsInputField type ps :=
      exists_isWrittenFields fun field hfield => ⟨_, h field hfield, rfl⟩
    exact ⟨_, .inputObject hps⟩
  | union type =>
    obtain ⟨ps, hps⟩ := exists_isWrittenUnion h
    exact ⟨_, .union hps⟩
  | structUnion type =>
    obtain ⟨ps, hps⟩ := exists_isWrittenUnion h
    exact ⟨_, .structUnion hps⟩
  | enum type =>
    obtain ⟨ps, hps⟩ : ∃ ps, Enclosed '\x7b' '\x7d' IsEnumValue type.values ps :=
      exists_enclosed fun _ _ => ⟨_, rfl⟩
    exact ⟨_, .enum hps⟩
  | directive d =>
    obtain ⟨arguments, harguments⟩ : ∃ ps, IsArguments d.arguments ps :=
      exists_enclosed fun v _ => ⟨inputPieces v, rfl⟩
    exact ⟨_, @IsDefinition.directive d _ false harguments h⟩

/-! ## Words one after the other -/

/-- **The words one after the other**, each behind a space. -/
def spelling : List Piece → List Char
  | [] => []
  | .word w :: ps => ' ' :: (w.chars ++ spelling ps)
  | .slot _ :: ps => spelling ps

/-- Each word is one of the language. -/
def AreProper (ps : List Piece) : Prop := ∀ w, .word w ∈ ps → w.IsProper

@[simp] theorem areProper_nil : AreProper [] := fun _ h => nomatch h

@[simp] theorem areProper_append : AreProper (ps ++ qs) ↔ AreProper ps ∧ AreProper qs := by
  simp only [AreProper, List.mem_append, or_imp, forall_and]

@[simp] theorem areProper_word_cons {w : Word} :
    AreProper (.word w :: ps) ↔ w.IsProper ∧ AreProper ps := by
  simp [AreProper, or_imp, forall_and]

@[simp] theorem areProper_slot_cons {kind : Slot} : AreProper (.slot kind :: ps) ↔ AreProper ps := by
  simp [AreProper]

@[simp] theorem areProper_label_cons {n : Name} : AreProper (label n :: ps) ↔ AreProper ps :=
  areProper_word_cons.trans (and_iff_right trivial)

@[simp] theorem areProper_sign_cons {c : Char} :
    AreProper (sign c :: ps) ↔ c ∈ marks ∧ AreProper ps := areProper_word_cons

/-- A word ends before a space, and at the end. -/
theorem endsBefore_spelling (w : Word) (ps : List Piece) : w.EndsBefore (spelling ps) := by
  have hhead : ∀ c ∈ (spelling ps).head?, c = ' ' := by
    induction ps with
    | nil => simp [spelling]
    | cons p ps ih =>
      cases p with
      | word w => simp [spelling]
      | slot kind => exact ih
  cases w with
  | name n => exact fun c hc => hhead c hc ▸ by decide
  | number digits => exact fun c hc => hhead c hc ▸ by decide
  | line body =>
    rintro - rest hrest
    have hquote := hhead '"' (by simp [hrest])
    cases hquote
  | mark | block => exact trivial

/-- **Words of the language can be spelled.** -/
theorem written_spelling (h : AreProper ps) : Written LeftEmpty ps (spelling ps) := by
  refine ⟨[], ?_, .blank .nil⟩
  induction ps with
  | nil => exact .nil
  | cons p ps ih =>
    cases p with
    | word w =>
      obtain ⟨hw, hps⟩ := areProper_word_cons.1 h
      have hspace : Blank [' '] := .space (.inl (by decide)) .nil
      exact .word (.cons hspace hw (endsBefore_spelling w ps) .nil) (ih hps)
    | slot kind => exact .slot rfl .nil (ih (areProper_slot_cons.1 h))

theorem written_of_spelling_eq {source : List Char} (h : AreProper ps) (heq : spelling ps = source) :
    Written LeftEmpty ps source :=
  heq ▸ written_spelling h

/-! ## The words of definitions -/

theorem areProper_of_listed (h : Listed one xs ps) (hone : ∀ x ps, one x ps → AreProper ps) :
    AreProper ps := by
  induction h with
  | nil => exact areProper_nil
  | cons hx _ ih => exact areProper_append.2 ⟨hone _ _ hx, ih⟩

theorem areProper_of_enclosed {opening closing : Char} (h : Enclosed opening closing one xs ps)
    (hopening : opening ∈ marks) (hclosing : closing ∈ marks)
    (hone : ∀ x ps, one x ps → AreProper ps) : AreProper ps := by
  cases h with
  | absent => exact areProper_nil
  | present hps => simp [hopening, hclosing, areProper_of_listed hps hone]

theorem areProper_joined {separator : Char} (h : separator ∈ marks) (names : List Name) :
    AreProper (joined separator names) := by
  induction names using joined.induct with
  | case1 | case2 => simp [joined]
  | case3 n rest hrest ih => simp [joined, h, ih]

theorem areProper_led {separator : Char} (h : separator ∈ marks) (lead : Bool) (names : List Name) :
    AreProper (led lead separator names) := by
  cases lead <;> simp [led, h, areProper_joined]

theorem areProper_typePieces (type : TypeRef) : AreProper (typePieces type) := by
  unfold typePieces
  induction type with
  | named n nonNull => cases nonNull <;> simp [typeWords, Word.IsProper, marks]
  | list item nonNull ih => cases nonNull <;> simp [typeWords, ih, Word.IsProper, marks]

theorem areProper_inputPieces (v : InputValue) : AreProper (inputPieces v) := by
  simp [inputPieces, areProper_typePieces, marks]

theorem areProper_of_isArguments {arguments : List InputValue} (h : IsArguments arguments ps) :
    AreProper ps :=
  areProper_of_enclosed h (by decide) (by decide) fun v _ hv => hv ▸ areProper_inputPieces v

theorem areProper_of_isField (field : Field) (ps : List Piece) (h : IsField field ps) :
    AreProper ps := by
  cases h with
  | mk harguments => simp [areProper_of_isArguments harguments, areProper_typePieces, marks]

theorem areProper_of_isInputField (field : Field) (ps : List Piece) (h : IsInputField field ps) :
    AreProper ps :=
  h.2 ▸ areProper_inputPieces _

theorem areProper_of_isWrittenFields {one : Field → List Piece → Prop} {type : WrittenFields}
    (h : IsWrittenFields one type ps) (hone : ∀ field ps, one field ps → AreProper ps) :
    AreProper ps := by
  cases h with
  | mk himplements hfields =>
    have hproper := areProper_of_enclosed hfields (by decide) (by decide) hone
    generalize type.implements = names at himplements
    cases himplements with
    | absent => simp [hproper]
    | @present _ lead => simp [areProper_led (by decide : '&' ∈ marks) lead names, hproper]

theorem areProper_of_isWrittenUnion {type : UnionType} (h : IsWrittenUnion type ps) :
    AreProper ps := by
  cases h with
  | mk hmembers =>
    generalize type.members = names at hmembers
    cases hmembers with
    | absent => simp
    | @present _ lead => simp [areProper_led (by decide : '|' ∈ marks) lead names, marks]

/-- **Definitions are written in words of the language.** -/
theorem areProper_of_isDefinition {d : Definition} (h : IsDefinition d ps) : AreProper ps := by
  cases h with
  | schema _ hoperations =>
    have hproper := areProper_of_listed hoperations fun o _ ho => by
      obtain rfl := ho
      simp [marks]
    simp [hproper, marks]
  | scalar => simp
  | object htype | interface htype | struct htype =>
    simp [areProper_of_isWrittenFields htype areProper_of_isField]
  | inputObject htype => simp [areProper_of_isWrittenFields htype areProper_of_isInputField]
  | union htype | structUnion htype => simp [areProper_of_isWrittenUnion htype]
  | enum hvalues =>
    have hproper := areProper_of_enclosed hvalues (by decide) (by decide) fun v _ hv => by
      obtain rfl := hv
      simp
    simp [hproper]
  | @directive d _ lead harguments =>
    have hlocations := areProper_led (by decide : '|' ∈ marks) lead (d.locations.map locationName)
    cases hrepeatable : d.repeatable <;>
      simp [areProper_of_isArguments harguments, hlocations, marks]

theorem areProper_of_isDocument {defs : List Definition} (h : IsDocument defs ps) : AreProper ps :=
  areProper_of_listed h fun _ _ hd => by
    obtain ⟨qs, hqs, rfl⟩ := hd
    exact areProper_slot_cons.2 (areProper_of_isDefinition hqs)

/-! ## There and back -/

/-- **What is written is read back**: definitions without repetitions have words, the words can be
spelled, and any text that spells them is the source of a schema with just what the definitions
say. -/
theorem schemaOf_of_written {defs : List Definition} (hwritable : ∀ d ∈ defs, d.IsWritable)
    (hregular : IsRegular defs) :
    (∃ ps, IsDocument defs ps) ∧ ∀ ps, IsDocument defs ps →
      (∃ source : String, Written LeftEmpty ps source.toList) ∧
        ∀ source : String, Written LeftEmpty ps source.toList →
          ∃ schema, schemaOf source = .ok schema ∧ Describes defs schema := by
  refine ⟨exists_listed fun d hd => ?_, fun ps hps => ⟨?_, fun source hsource => ?_⟩⟩
  · obtain ⟨qs, hqs⟩ := exists_isDefinition (hwritable d hd)
    exact ⟨_, qs, hqs, rfl⟩
  · refine ⟨String.ofList (spelling ps), ?_⟩
    rw [String.toList_ofList]
    exact written_spelling (areProper_of_isDocument hps)
  · have hwhole : Written (Slot.Holds ReadWhole) ps source.toList :=
      hsource.mono fun _ _ => LeftEmpty.holds
    obtain ⟨schema, hschema, hdescribes⟩ := hregular.exists_assemble
    refine ⟨schema, ?_, hdescribes⟩
    rw [schemaOf_of_definitions (definitions_of_readWhole hps hwhole), hschema]

/-- A union without members before a struct, and a scalar in the place of a built-in one. -/
theorem schemaOf_spelling :
    ∃ schema, schemaOf " structUnion U struct S implements A & B \x7b x : [ Int ! ] \x7d scalar Int" =
      .ok schema ∧
      Describes [.structUnion ⟨⟨"U", by decide⟩, []⟩,
        .struct ⟨⟨"S", by decide⟩, [⟨"A", by decide⟩, ⟨"B", by decide⟩],
          [⟨⟨"x", by decide⟩, .list (.named ⟨"Int", by decide⟩ true) false, []⟩]⟩,
        .scalar ⟨"Int", by decide⟩] schema := by
  refine ((schemaOf_of_written ?_ ?_).2 _
    (.cons ⟨_, .structUnion (.mk .absent), rfl⟩
      (.cons ⟨_, .struct (.mk (@IsImplements.present _ false (List.cons_ne_nil _ _))
        (.present (.cons (.mk .absent) .nil))), rfl⟩
      (.cons ⟨_, .scalar, rfl⟩ .nil)))).2 _ ?_
  · simp [Definition.IsWritable]
  · exact ⟨by decide, by decide, by decide, by decide, by decide, by simp [Definition.operations?]⟩
  · exact written_of_spelling_eq (by simp [led, joined, typePieces, typeWords, Word.IsProper, marks])
      (by decide +kernel)

end StructQL.SDL
