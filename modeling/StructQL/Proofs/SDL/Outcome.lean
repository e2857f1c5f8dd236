import StructQL.Proofs.SDL.Progress
import StructQL.Proofs.SDL.Repetitions
import StructQL.SDL.Document

/-!
# Every source is read to an end

The rules for constants and types are bounded by the length of the text, which changes nothing:
whatever stands inside brackets is shorter. So the reading of a source ends, with a schema, with what
is wrong with the definitions, or with one place where it could not go on.

* `constantBody`, `typeBody`: the rules for constants and types without the bound.
* `terminates_constant`, `terminates_typeRef`: **these recursions end on every text**.
* `IsSyntaxError`: a fault points at a line and a column within a source or at its end.
* `isOutcome`: **every source has an outcome**.
* `reader_makes_progress`: **the reader gets on and comes to an end**, whatever the source.
-/

namespace StructQL.SDL

open Rule

variable {s : List Char}

/-! ## Recursive rules -/

/-- The rule for constants, told how to read those inside. -/
def constantBody (inside : Rule Char Unit) : Rule Char Unit :=
  firstOf [
    stringValue,
    number,
    (do let _ ← name),
    between (punctuator '[') (do let _ ← many inside) (punctuator ']'),
    between (punctuator '\x7b') (namedConstants inside) (punctuator '\x7d')]

/-- The rule for types, told how to read the one inside. -/
def typeBody (inside : Rule Char TypeRef) : Rule Char TypeRef := do
  let build ← orElse
    (do
      let item ← between (punctuator '[') inside (punctuator ']')
      return TypeRef.list item)
    (do
      let n ← name
      return TypeRef.named n)
  let mark ← optional (punctuator '!')
  return build mark.isSome

theorem constantWithin_eq (depth : Nat) : constantWithin depth = constantBody^[depth] never := by
  induction depth with
  | zero => rfl
  | succ depth ih =>
    rw [Function.iterate_succ_apply', ← ih]
    rfl

theorem typeRefWithin_eq (depth : Nat) : typeRefWithin depth = typeBody^[depth] never := by
  induction depth with
  | zero => rfl
  | succ depth ih =>
    rw [Function.iterate_succ_apply', ← ih]
    rfl

theorem namedConstants_congr {inside other : Rule Char Unit}
    (h : ∀ m, m.length ≤ s.length → inside m = other m) :
    namedConstants inside s = namedConstants other s := by
  refine bind_congr (many_congr fun m hm => ?_) fun _ _ _ => rfl
  refine bind_congr rfl fun _ m₁ hname => bind_congr rfl fun _ m₂ hcolon => h m₂ ?_
  have hname := IsComposed.name.stays.length_le hname
  have hcolon := (IsComposed.punctuator ':').stays.length_le hcolon
  omega

/-- Constants inside others are shorter. -/
theorem constantBody_asksSmaller : AsksSmaller List.length constantBody := by
  intro inside other s h
  have hinside : ∀ {c b m}, punctuator c s = .read b m → ∀ m', m'.length ≤ m.length →
      inside m' = other m' := fun hopen m' hle =>
    h m' (Nat.lt_of_le_of_lt hle ((IsComposed.punctuator _).advances hopen))
  refine firstOf_congr (.cons rfl (.cons rfl (.cons rfl (.cons ?_ (.cons ?_ .nil)))))
  · exact between_congr fun _ m hopen => bind_congr (many_congr (hinside hopen)) fun _ _ _ => rfl
  · exact between_congr fun _ m hopen => namedConstants_congr (hinside hopen)

/-- A type inside another is shorter. -/
theorem typeBody_asksSmaller : AsksSmaller List.length typeBody := by
  intro inside other s h
  refine bind_congr (orElse_congr ?_ rfl) fun _ _ _ => rfl
  refine bind_congr (between_congr fun _ m hopen => h m ?_) fun _ _ _ => rfl
  exact (IsComposed.punctuator _).advances hopen

theorem constant_eq : constant = fun s => constantBody^[s.length + 1] never s := by
  funext s
  rw [← constantWithin_eq]
  rfl

theorem typeRef_eq : typeRef = fun s => typeBody^[s.length + 1] never s := by
  funext s
  rw [← typeRefWithin_eq]
  rfl

/-- The bound on the depth of constants changes nothing. -/
theorem constantBody_constant : constantBody constant = constant := by
  rw [constant_eq]
  exact constantBody_asksSmaller.isFixed never

/-- The bound on the depth of types changes nothing. -/
theorem typeBody_typeRef : typeBody typeRef = typeRef := by
  rw [typeRef_eq]
  exact typeBody_asksSmaller.isFixed never

/-- **The recursion of constants ends on every text.** -/
theorem terminates_constant (s : List Char) : Terminates constantBody s (constant s) :=
  constantBody_asksSmaller.terminates_of_fixed constantBody_constant s

/-- **The recursion of types ends on every text.** -/
theorem terminates_typeRef (s : List Char) : Terminates typeBody s (typeRef s) :=
  typeBody_asksSmaller.terminates_of_fixed typeBody_typeRef s

/-! ## Syntax errors -/

/-- **A syntax error within a source or at its end.** So many lines end before it, and so many
characters stand before it on its own line. -/
inductive IsSyntaxError (source : List Char) : Fault → Prop where
  | mk {lines opened rest : List Char} {line column : Nat} {found : String} :
    source = lines ++ opened ++ rest → (∀ c ∈ lines.getLast?, c = '\n') → '\n' ∉ opened →
    line = lines.count '\n' + 1 → column = opened.length + 1 →
    found = (Text.firstWord? rest).getD "end of input" →
    IsSyntaxError source (.invalidGraphQL s!"Syntax error at {line}:{column}: unexpected \"{found}\"")

/-- What stands before a place is full lines and a part of one. -/
theorem exists_lines (before : List Char) : ∃ lines opened, before = lines ++ opened ∧
    (∀ c ∈ lines.getLast?, c = '\n') ∧ '\n' ∉ opened ∧
    opened.length = (before.reverse.takeWhile fun c => c ≠ '\n').length := by
  obtain ⟨hsplit, hopened, hlines⟩ := takeWhile_eq_iff.1
    ⟨(rfl : before.reverse.takeWhile (fun c => c ≠ '\n') = _), rfl⟩
  refine ⟨(before.reverse.dropWhile fun c => c ≠ '\n').reverse,
    (before.reverse.takeWhile fun c => c ≠ '\n').reverse, ?_, ?_, ?_, List.length_reverse⟩
  · rw [← List.reverse_append, ← hsplit, List.reverse_reverse]
  · simpa using hlines
  · rw [List.mem_reverse]
    exact fun hmem => absurd (hopened _ hmem) (by decide)

/-- A place within a source or at its end is located there. -/
theorem isSyntaxError_syntaxFault {source place : List Char} (h : place <:+ source) :
    IsSyntaxError source (syntaxFault source place) := by
  obtain ⟨before, rfl⟩ := h
  obtain ⟨lines, opened, rfl, hlines, hopened, hlength⟩ := exists_lines before
  have hbefore : (lines ++ opened ++ place).take ((lines ++ opened ++ place).length - place.length) =
      lines ++ opened := by
    rw [List.length_append, Nat.add_sub_cancel, List.take_left]
  have hline : (lines ++ opened).count '\n' = lines.count '\n' := by
    rw [List.count_append, List.count_eq_zero_of_not_mem hopened, Nat.add_zero]
  have hlocate : locate (lines ++ opened ++ place) place =
      (lines.count '\n' + 1, opened.length + 1) := by
    unfold locate
    dsimp only
    rw [hbefore, hline, hlength]
  unfold syntaxFault
  rw [hlocate]
  exact .mk rfl hlines hopened rfl rfl rfl

/-- What is left where the reading could not go on is an end of the source. -/
theorem isSyntaxError_of_definitions {source : List Char} {fault : Fault}
    (h : definitions source = .error fault) : IsSyntaxError source fault := by
  have hstays := (IsComposed.many .definition .definition).stays
  unfold definitions at h
  split at h
  · rename_i place hmiss
    cases h
    exact isSyntaxError_syntaxFault (hstays.suffix_of_miss hmiss)
  · rename_i place hstop
    cases h
    exact isSyntaxError_syntaxFault (hstays.suffix_of_stop hstop)
  · rename_i all rest hread
    have hrest := hstays.suffix_of_read hread
    split at h
    · cases h
    · rename_i rest' _ hignored
      cases h
      exact isSyntaxError_syntaxFault ((IsComposed.ignored.stays.suffix_of_read hignored).trans hrest)
    · cases h
      exact isSyntaxError_syntaxFault hrest
    · cases h
      exact isSyntaxError_syntaxFault hrest

/-! ## Outcomes -/

/-- **The outcomes of reading a source.** The answers of the rules (`Reading`) have none that asks for
more of the source, so there is no outcome of this kind, and no internal error that would report it. -/
inductive IsOutcome (source : String) : Except Failure Schema → Prop where
  /-- The schema of the definitions. -/
  | schema {defs : List Definition} {schema : Schema} : definitions source.toList = .ok defs →
    assemble defs = .ok schema → IsOutcome source (.ok schema)
  /-- The definitions are read, and each fault says what is wrong with them. -/
  | flaws {defs : List Definition} {failure : Failure} : definitions source.toList = .ok defs →
    assemble defs = .error failure → failure.faults ≠ [] →
    (∀ fault ∈ failure.faults, ∃ spot flaw, HasFlaw defs spot flaw ∧ fault = flaw.fault) →
    IsOutcome source (.error failure)
  /-- The reading could not go on. -/
  | syntaxError {fault : Fault} : definitions source.toList = .error fault →
    IsSyntaxError source.toList fault → IsOutcome source (.error (.single fault))

theorem exists_flaw_of_assemble {defs : List Definition} {failure : Failure}
    (h : assemble defs = .error failure) : failure.faults ≠ [] ∧
      ∀ fault ∈ failure.faults, ∃ spot flaw, HasFlaw defs spot flaw ∧ fault = flaw.fault := by
  rw [assemble_eq] at h
  by_cases hfound : (found defs).map (fun x => x.2.fault) = []
  · rw [hfound] at h
    cases h
  · rw [Checked.result_of_ne_nil hfound] at h
    cases h
    constructor
    · rwa [Failure.ofFaults, Failure.faults_ofReport, ne_eq, Report.ofList_eq_nil_iff]
    · intro fault hmem
      obtain ⟨⟨spot, flaw⟩, hflaw, rfl⟩ := List.mem_map.1 (Failure.mem_faults_ofFaults.1 hmem)
      exact ⟨spot, flaw, mem_found.1 hflaw, rfl⟩

/-- **Every source has an outcome.** -/
theorem isOutcome (source : String) : IsOutcome source (schemaOf source) := by
  unfold schemaOf
  cases hdefs : definitions source.toList with
  | error fault => exact .syntaxError hdefs (isSyntaxError_of_definitions hdefs)
  | ok defs =>
    dsimp only
    cases hschema : assemble defs with
    | ok schema => exact .schema hdefs hschema
    | error failure =>
      obtain ⟨hne, hflaws⟩ := exists_flaw_of_assemble hschema
      exact .flaws hdefs hschema hne hflaws

/-- No outcome is an internal error. -/
theorem IsOutcome.not_internal {source : String} {failure : Failure}
    (h : IsOutcome source (.error failure)) (message : String) : .internal message ∉ failure.faults := by
  cases h with
  | flaws _ _ _ hflaws =>
    intro hmem
    obtain ⟨_, flaw, -, hflaw⟩ := hflaws _ hmem
    cases flaw <;> cases hflaw
  | syntaxError _ herror =>
    intro hmem
    obtain rfl := List.mem_singleton.1 hmem
    cases herror

/-! ## The reader as a whole -/

/-- **The reader gets on and comes to an end.** It is composed so that each rule that is repeated
reads something, wherever it reads. So no repetition misses, which it would where nothing is read,
and all of them end, although nothing looks whether something was read. The recursions of constants
and types end on every text. And every source has an outcome, which is no internal error. -/
theorem reader_makes_progress :
    (IsComposed true definition ∧ IsComposed false ignored) ∧
      (∀ {α : Type} {p : Rule Char α}, IsRepeated p → p.Stays ∧ p.Advances ∧
        ∀ s, ¬ (many p).Misses s ∧ Terminates (turn p) s (many p s)) ∧
      (constantBody constant = constant ∧ ∀ s, Terminates constantBody s (constant s)) ∧
      (typeBody typeRef = typeRef ∧ ∀ s, Terminates typeBody s (typeRef s)) ∧
      ∀ source, IsOutcome source (schemaOf source) ∧ ∀ failure message,
        schemaOf source = .error failure → .internal message ∉ failure.faults := by
  refine ⟨⟨.definition, .ignored⟩, ?_, ⟨constantBody_constant, terminates_constant⟩,
    ⟨typeBody_typeRef, terminates_typeRef⟩, ?_⟩
  · intro α p hp
    have hadvances := hp.isComposed.advances
    exact ⟨hp.isComposed.stays, hadvances, fun s =>
      ⟨hadvances.not_misses_many s, hadvances.terminates_many s⟩⟩
  · intro source
    refine ⟨isOutcome source, fun failure message hfailure => ?_⟩
    have houtcome := isOutcome source
    rw [hfailure] at houtcome
    exact houtcome.not_internal message

/-- Lists that nothing closes are read to an end as well. -/
theorem reader_makes_progress_unclosed :
    IsRepeated constant ∧ ¬ (many constant).Misses ['[', '[', ','] ∧
      Terminates (turn constant) ['[', '[', ','] (many constant ['[', '[', ',']) ∧
      IsOutcome "type A @b(c: [[" (schemaOf "type A @b(c: [[") :=
  have hconstant := (reader_makes_progress.2.1 IsRepeated.constant).2.2 ['[', '[', ',']
  ⟨.constant, hconstant.1, hconstant.2, (reader_makes_progress.2.2.2.2 "type A @b(c: [[").1⟩

end StructQL.SDL
