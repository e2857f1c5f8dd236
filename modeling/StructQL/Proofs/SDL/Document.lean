import StructQL.Proofs.SDL.Definition
import StructQL.SDL.Document

/-!
# What has no meaning in a schema document

Descriptions, directives and default values may be added, dropped and changed wherever they may
stand, and the definitions of the document stay the same, as long as every name among the values is
read whole. With a name that is not, the document is not read at all.

* `definitions_of_written`: **a document is read as its definitions, or not at all**.
* `isDocument_of_definitions`: what is read is a document.
* `schemaOf_eq_ok_iff`: **what has no meaning does not matter to the schema**, just if every name
  among it is read whole.
-/

namespace StructQL.SDL

open Rule

variable {value : Name → Prop} {defs : List Definition} {ps : List Piece} {source : List Char}

/-- Nothing but blanks may stand behind the last definition. -/
theorem definitions_of_many {rest : List Char} (h : many definition source = .read defs rest)
    (hrest : Ending rest) : definitions source = .ok defs := by
  unfold definitions
  rw [h]
  dsimp only
  rw [ignored_eq, skip_ending hrest]

theorem exists_fault_of_next? {rest : List Char} (h : many definition source = .read defs rest)
    (hrest : skip rest ≠ []) : ∃ fault, definitions source = .error fault := by
  unfold definitions
  rw [h]
  dsimp only
  rw [ignored_eq]
  obtain ⟨c, s, hs⟩ := List.exists_cons_of_ne_nil hrest
  rw [hs]
  exact ⟨_, rfl⟩

theorem exists_fault_of_stops (h : (many definition).Stops source) :
    ∃ fault, definitions source = .error fault := by
  obtain ⟨place, hplace⟩ := h
  unfold definitions
  rw [hplace]
  exact ⟨_, rfl⟩

/-- **A document is read as its definitions**, or it is not read at all because of a name that is not
read whole. -/
theorem definitions_of_written (h : IsDocument defs ps) (hs : Written (Slot.Holds value) ps source) :
    (Written (Slot.Holds ReadWhole) ps source ∧ definitions source = .ok defs) ∨
      Spoils value ∧ ∃ fault, definitions source = .error fault := by
  obtain ⟨rest, hdressed, hrest⟩ := hs
  have hnext : next? rest = none := by rw [next?, skip_ending hrest, List.head?_nil]
  have hmany : ReadsOrJams value Blocked (many definition) ps defs source rest :=
    many_fares Begins h definition_fares IsComposed.definition.advances (fun hone hs => hone.begins hs)
      Blocked.definition_misses hdressed (.inl hnext) (definition_misses (by simp [hnext]))
  rcases hmany with hread | ⟨hspoils, hstop | ⟨others, m, hread, hm⟩⟩
  · exact .inl ⟨⟨rest, hread.dressed, hrest⟩, definitions_of_many hread.read hrest⟩
  · exact .inr ⟨hspoils, exists_fault_of_stops hstop⟩
  · refine .inr ⟨hspoils, exists_fault_of_next? hread fun hnil => ?_⟩
    rcases hm with hm | hm <;> simp [next?, hnil] at hm

/-- **What is read is a document**, and each name among its values is read whole. -/
theorem isDocument_of_definitions (h : definitions source = .ok defs) :
    ∃ ps, IsDocument defs ps ∧ Written (Slot.Holds ReadWhole) ps source := by
  unfold definitions at h
  cases hmany : many definition source with
  | miss place => simp [hmany] at h
  | stop place => simp [hmany] at h
  | read all rest =>
    rw [hmany] at h
    dsimp only at h
    rw [ignored_eq] at h
    obtain ⟨ps, hps, hdressed⟩ := listed_of_many isDescribed_of_read hmany
    cases hrest : skip rest with
    | nil =>
      rw [hrest] at h
      cases h
      exact ⟨ps, hps, rest, hdressed, ending_iff.2 hrest⟩
    | cons c s =>
      rw [hrest] at h
      cases h

/-- The places without meaning may hold more. -/
theorem Written.mono {holds holds' : Slot → List Word → Prop}
    (hle : ∀ kind ws, holds kind ws → holds' kind ws) (h : Written holds ps source) :
    Written holds' ps source := by
  obtain ⟨rest, hdressed, hrest⟩ := h
  exact ⟨rest, hdressed.mono hle, hrest⟩

/-! ## The schema -/

/-- A document where each name among the values is read whole is read. -/
theorem definitions_of_readWhole (h : IsDocument defs ps)
    (hs : Written (Slot.Holds ReadWhole) ps source) : definitions source = .ok defs := by
  rcases definitions_of_written h hs with ⟨-, hread⟩ | ⟨⟨n, hn, hnot⟩, -⟩
  · exact hread
  · exact absurd hn hnot

theorem schemaOf_of_definitions {source : String} (h : definitions source.toList = .ok defs) :
    schemaOf source = assemble defs := by
  unfold schemaOf
  rw [h]

theorem exists_definitions_of_schemaOf {source : String} {schema : Schema}
    (h : schemaOf source = .ok schema) :
    ∃ defs, definitions source.toList = .ok defs ∧ assemble defs = .ok schema := by
  unfold schemaOf at h
  cases hdefs : definitions source.toList with
  | ok defs =>
    rw [hdefs] at h
    exact ⟨defs, rfl, h⟩
  | error fault =>
    rw [hdefs] at h
    cases h

/-- **Descriptions, directives and default values do not matter to the schema**, just if each name
among the values is read whole. -/
theorem schemaOf_eq_ok_iff {source : String} {schema : Schema} (h : schemaOf source = .ok schema) :
    (∃ defs ps, IsDocument defs ps ∧ Written (Slot.Holds ReadWhole) ps source.toList) ∧
      ∀ defs ps (source' : String), IsDocument defs ps →
        Written (Slot.Holds fun _ => True) ps source.toList →
        Written (Slot.Holds fun _ => True) ps source'.toList →
        (schemaOf source' = .ok schema ↔ Written (Slot.Holds ReadWhole) ps source'.toList) := by
  obtain ⟨all, hall, hschema⟩ := exists_definitions_of_schemaOf h
  obtain ⟨qs, hqs, hwritten⟩ := isDocument_of_definitions hall
  refine ⟨⟨all, qs, hqs, hwritten⟩, fun defs ps source' hps hs hs' => ?_⟩
  -- the source is read as the definitions that it is said to hold
  have hdefs : definitions source.toList = .ok defs := by
    rcases definitions_of_written hps hs with ⟨-, hread⟩ | ⟨-, fault, hfault⟩
    · exact hread
    · rw [hall] at hfault
      cases hfault
  obtain rfl : all = defs := Except.ok.inj (hall.symm.trans hdefs)
  constructor
  · intro h'
    rcases definitions_of_written hps hs' with ⟨hexact, -⟩ | ⟨-, fault, hfault⟩
    · exact hexact
    · obtain ⟨_, hread, -⟩ := exists_definitions_of_schemaOf h'
      rw [hread] at hfault
      cases hfault
  · intro hexact
    rw [schemaOf_of_definitions (definitions_of_readWhole hps hexact), hschema]

/-- A default value that opens with an `e` is not read whole, a block string ends at its first three
quotes, even behind a backslash, and an empty string is not told from the opening of a block string. -/
theorem schemaOf_not_dressed :
    (schemaOf "enum E \x7b A \x7d input I \x7b x: E \x7d").isOk = true ∧
      (schemaOf "enum E \x7b A \x7d input I \x7b x: E = enabled \x7d").isOk = false ∧
    (schemaOf "scalar A").isOk = true ∧
      (schemaOf "\"\"\"a \\\"\"\" b\"\"\" scalar A").isOk = false ∧
    (schemaOf "scalar A @d(x: [\"\"\"y\"]) scalar B").isOk = true ∧
      (schemaOf "scalar A @d(x: [\"\"\"y\"]) \"\"\"\"\"\" scalar B").isOk = false := by
  decide +kernel

theorem ok_of_toOption {ε α : Type} {e : Except ε α} {a : α} (h : e.toOption = some a) : e = .ok a := by
  cases e with
  | ok b =>
    cases h
    rfl
  | error f => cases h

/-- A scalar is written in one way, but for what has no meaning. -/
theorem eq_of_isDocument_scalar {n : Name} (h : IsDocument [.scalar n] ps) :
    ps = [.slot .description, label ⟨"scalar", by decide⟩, label n, .slot .directives] := by
  cases h with
  | cons hone hnone =>
    obtain ⟨qs, hqs, rfl⟩ := hone
    cases hqs
    cases hnone
    rfl

/-- A scalar gets a description, and a directive with a list of a name, a number and an object. -/
theorem schemaOf_scalar_dressed :
    schemaOf "\"\"\"a\"\"\" scalar A @d(x: [B, -1.5e3, \x7by: \"z\"\x7d])" = schemaOf "scalar A" := by
  have hplain : definitions "scalar A".toList = .ok [.scalar ⟨"A", by decide⟩] :=
    ok_of_toOption (by decide +kernel)
  have hdressed : definitions
      "\"\"\"a\"\"\" scalar A @d(x: [B, -1.5e3, \x7by: \"z\"\x7d])".toList =
        .ok [.scalar ⟨"A", by decide⟩] :=
    ok_of_toOption (by decide +kernel)
  obtain ⟨ps, hps, hs⟩ := isDocument_of_definitions hplain
  obtain ⟨ps', hps', hs'⟩ := isDocument_of_definitions hdressed
  obtain rfl : ps' = ps := (eq_of_isDocument_scalar hps').trans (eq_of_isDocument_scalar hps).symm
  obtain ⟨schema, h⟩ : ∃ schema, assemble [.scalar ⟨"A", by decide⟩] = .ok schema := ⟨_, rfl⟩
  have hschema := (schemaOf_of_definitions hplain).trans h
  rw [hschema]
  have hany : ∀ kind ws, Slot.Holds ReadWhole kind ws → Slot.Holds (fun _ => True) kind ws :=
    fun _ _ hholds => hholds.mono fun _ _ => trivial
  exact ((schemaOf_eq_ok_iff hschema).2 _ _ _ hps (hs.mono hany) (hs'.mono hany)).2 hs'

end StructQL.SDL
