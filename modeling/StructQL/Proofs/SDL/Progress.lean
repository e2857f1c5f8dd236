import StructQL.Proofs.Reading.Progress
import StructQL.SDL.Definition

/-!
# The reader of schema documents gets on

The rules are composed of a few others, and those of them that are repeated read something each time.

* `IsRepeated`: the rules that are repeated.
* `IsComposed`: a rule is composed so that only these are repeated, and reads something or may not.
* `IsComposed.stays_and_advances`: composed rules stay within the text, and those that are said to
  read something do.
* `IsComposed.definition`, `IsComposed.ignored`: **the reader is composed like that**.
* `IsRepeated.isComposed`: **what is repeated reads something**.
-/

namespace StructQL.SDL

open Rule

/-! ## What is repeated -/

/-- The rule for a name with a value, as in an object or among arguments. -/
def namedConstant (constant : Rule Char Unit) : Rule Char Unit := do
  let _ ← name
  punctuator ':'
  constant

/-- The rule for one directive. -/
def appliedDirective : Rule Char Unit := do
  punctuator '@'
  let _ ← name
  let _ ← optional (between (punctuator '(') (namedConstants constant) (punctuator ')'))

/-- The rule for the type of an operation. -/
def operationDefinition : Rule Char (Name × Name) := do
  let operation ← name
  punctuator ':'
  let type ← name
  return (operation, type)

/-- The rule for the value of an enum. -/
def enumValueDefinition : Rule Char Name := do
  description
  let value ← name
  appliedDirectives
  return value

/-- **The rules that are repeated.** The members of a list but for the first are repeated together
with the sign before them. -/
inductive IsRepeated : ∀ {α : Type}, Rule Char α → Prop where
  | ignorable : IsRepeated ignorable
  | stringChar : IsRepeated stringChar
  | constant : IsRepeated constant
  | constantWithin (depth : Nat) : IsRepeated (constantWithin depth)
  | entry : IsRepeated (namedConstant constant)
  | entryWithin (depth : Nat) : IsRepeated (namedConstant (constantWithin depth))
  | appliedDirective : IsRepeated appliedDirective
  | inputValue : IsRepeated inputValue
  | fieldDefinition : IsRepeated fieldDefinition
  | enumValueDefinition : IsRepeated enumValueDefinition
  | operationDefinition : IsRepeated operationDefinition
  | separator (c : Char) : IsRepeated (punctuator c)
  | interface : IsRepeated (do punctuator '&'; name)
  | member : IsRepeated (do punctuator '|'; memberName)
  | location : IsRepeated (do punctuator '|'; directiveLocation)
  | definition : IsRepeated definition

/-! ## What rules are composed of -/

/-- **The rule is composed of others**, of which none is repeated that does not read something. It
reads something itself whenever it reads, or it may read nothing. -/
inductive IsComposed : Bool → ∀ {α : Type}, Rule Char α → Prop where
  | pure {α : Type} (a : α) : IsComposed false (pure a)
  | never {α : Type} : IsComposed true (never : Rule Char α)
  | satisfy (test : Char → Bool) : IsComposed true (satisfy test)
  | items {l : List Char} : l ≠ [] → IsComposed true (items l)
  | takeWhile (test : Char → Bool) : IsComposed false (takeWhile test)
  | takeWhile1 (test : Char → Bool) : IsComposed true (takeWhile1 test)
  | blockEnd : IsComposed false blockEnd
  /-- The first rule reads something. -/
  | first {later : Bool} {α β : Type} {p : Rule Char α} {f : α → Rule Char β} :
    IsComposed true p → (∀ a, IsComposed later (f a)) → IsComposed true (p >>= f)
  /-- The second rule reads something. -/
  | second {before : Bool} {α β : Type} {p : Rule Char α} {f : α → Rule Char β} :
    IsComposed before p → (∀ a, IsComposed true (f a)) → IsComposed true (p >>= f)
  | bind {before later : Bool} {α β : Type} {p : Rule Char α} {f : α → Rule Char β} :
    IsComposed before p → (∀ a, IsComposed later (f a)) → IsComposed false (p >>= f)
  | orElse {reads : Bool} {α : Type} {p q : Rule Char α} :
    IsComposed reads p → IsComposed reads q → IsComposed reads (orElse p q)
  | optional {reads : Bool} {α : Type} {p : Rule Char α} :
    IsComposed reads p → IsComposed false (optional p)
  | commit {reads : Bool} {α : Type} {p : Rule Char α} :
    IsComposed reads p → IsComposed reads (commit p)
  | notHere {reads : Bool} {α : Type} {p : Rule Char α} :
    IsComposed reads p → IsComposed false (notHere p)
  | refine {reads : Bool} {α β : Type} {p : Rule Char α} (f : α → Option β) :
    IsComposed reads p → IsComposed reads (refine p f)
  /-- What is repeated reads something. -/
  | many {α : Type} {p : Rule Char α} :
    IsRepeated p → IsComposed true p → IsComposed false (many p)
  /-- A rule for what is no deeper than the text is long. -/
  | deep {reads : Bool} {α : Type} {p : Nat → Rule Char α} :
    (∀ depth, IsComposed reads (p depth)) → IsComposed reads fun s => p (s.length + 1) s

theorem stays_blockEnd : blockEnd.Stays := by
  suffices hgo : ∀ start s, s <:+ start → (blockEnd.go start s).place <:+ start from
    fun s => hgo s s (List.suffix_refl s)
  intro start s
  induction s with
  | nil => exact fun _ => List.suffix_refl _
  | cons c s ih =>
    intro hs
    have hs' : s <:+ start := (List.suffix_cons c s).trans hs
    unfold blockEnd.go
    split
    · exact (List.drop_suffix 2 s).trans hs'
    · exact ih hs'

namespace IsComposed

variable {reads : Bool} {α β γ : Type} {p q : Rule Char α}

/-- **Composed rules stay within the text, and those that are said to read something do.** -/
theorem stays_and_advances (h : IsComposed reads p) : p.Stays ∧ (reads = true → p.Advances) := by
  induction h with
  | pure a => exact ⟨stays_pure a, nofun⟩
  | never => exact ⟨stays_never, fun _ => advances_never⟩
  | satisfy test => exact ⟨stays_satisfy test, fun _ => advances_satisfy test⟩
  | items hne => exact ⟨stays_items _, fun _ => advances_items hne⟩
  | takeWhile test => exact ⟨stays_takeWhile test, nofun⟩
  | takeWhile1 test => exact ⟨stays_takeWhile1 test, fun _ => advances_takeWhile1 test⟩
  | blockEnd => exact ⟨stays_blockEnd, nofun⟩
  | first _ _ ihp ihf =>
    exact ⟨ihp.1.bind fun a => (ihf a).1, fun _ => (ihp.2 rfl).bind fun a => (ihf a).1⟩
  | second _ _ ihp ihf =>
    exact ⟨ihp.1.bind fun a => (ihf a).1, fun _ => ihp.1.bind_advances fun a => (ihf a).2 rfl⟩
  | bind _ _ ihp ihf => exact ⟨ihp.1.bind fun a => (ihf a).1, nofun⟩
  | orElse _ _ ihp ihq => exact ⟨ihp.1.orElse ihq.1, fun hr => (ihp.2 hr).orElse (ihq.2 hr)⟩
  | optional _ ih => exact ⟨ih.1.optional, nofun⟩
  | commit _ ih => exact ⟨ih.1.commit, fun hr => (ih.2 hr).commit⟩
  | notHere _ ih => exact ⟨ih.1.notHere, nofun⟩
  | refine f _ ih => exact ⟨ih.1.refine f, fun hr => (ih.2 hr).refine f⟩
  | many _ _ ih => exact ⟨ih.1.many, nofun⟩
  | deep _ ih => exact ⟨fun s => (ih _).1 s, fun hr _ _ _ hread => (ih _).2 hr hread⟩

theorem stays (h : IsComposed reads p) : p.Stays := h.stays_and_advances.1

theorem advances (h : IsComposed true p) : p.Advances := h.stays_and_advances.2 rfl

theorem between {opening : Rule Char β} {closing : Rule Char γ} {inside after : Bool}
    (hopen : IsComposed true opening) (hp : IsComposed inside p) (hclose : IsComposed after closing) :
    IsComposed true (between opening p closing) :=
  .first hopen fun _ => .bind hp fun a => .bind hclose fun _ => .pure a

theorem many1 (hrepeated : IsRepeated p) (hp : IsComposed true p) : IsComposed true (many1 p) :=
  .first hp fun a => .bind (.many hrepeated hp) fun others => .pure (a :: others)

theorem separated1 {separator : Rule Char β} (hrepeated : IsRepeated (do let _ ← separator; p))
    (hseparator : IsComposed true separator) (hp : IsComposed true p) :
    IsComposed true (separated1 separator p) :=
  .first hp fun a =>
    .bind (.many hrepeated (.first hseparator fun _ => hp)) fun others => .pure (a :: others)

theorem separated {separator : Rule Char β} (hrepeated : IsRepeated (do let _ ← separator; p))
    (hseparator : IsComposed true separator) (hp : IsComposed true p) :
    IsComposed false (separated separator p) :=
  .bind (.optional (.separated1 hrepeated hseparator hp)) fun all => .pure (all.getD [])

/-! ### Words -/

theorem item (c : Char) : IsComposed true (item c) := .first (.satisfy _) fun _ => .pure ()

theorem ignorable : IsComposed true ignorable :=
  .orElse (.first (.takeWhile1 isSpace) fun _ => .pure ()) <| .orElse (.item ',') <|
    .first (.item '#') fun _ => .bind (.takeWhile _) fun _ => .pure ()

theorem ignored : IsComposed false ignored := .bind (.many .ignorable .ignorable) fun _ => .pure ()

theorem word (hp : IsComposed true p) : IsComposed true (word p) := .second .ignored fun _ => hp

theorem name : IsComposed true name :=
  .word <| .refine _ <| .first (.satisfy isNameStart) fun c =>
    .bind (.takeWhile isNameContinue) fun others => .pure (c :: others)

theorem punctuator (c : Char) : IsComposed true (punctuator c) := .word (.item c)

theorem keyword {text : String} (hne : text.toList ≠ []) : IsComposed true (keyword text) :=
  .word <| .first (.items hne) fun _ => .notHere (.satisfy isNameContinue)

theorem stringChar : IsComposed true stringChar :=
  .orElse (.first (.item '\\') fun _ => .bind (.satisfy _) fun _ => .pure ()) <|
    .first (.satisfy _) fun _ => .pure ()

theorem stringValue : IsComposed true stringValue :=
  .word <| .orElse (.first (.items (by decide)) fun _ => .blockEnd) <|
    .first (.item '"') fun _ => .second (.many .stringChar .stringChar) fun _ => .item '"'

theorem number : IsComposed true number :=
  .word <| .second (.optional (.item '-')) fun _ => .first (.takeWhile1 isNumberChar) fun _ => .pure ()

theorem description : IsComposed false description := .bind (.optional .stringValue) fun _ => .pure ()

/-! ### Values, types and applied directives -/

theorem namedConstant {c : Rule Char Unit} (hc : IsComposed true c) :
    IsComposed true (namedConstant c) :=
  .first .name fun _ => .first (.punctuator ':') fun _ => hc

theorem namedConstants {c : Rule Char Unit} (hrepeated : IsRepeated (SDL.namedConstant c))
    (hc : IsComposed true c) : IsComposed false (namedConstants c) :=
  .bind (.many hrepeated hc.namedConstant) fun _ => .pure ()

theorem constantWithin (depth : Nat) : IsComposed true (constantWithin depth) := by
  induction depth with
  | zero => exact .never
  | succ depth ih =>
    have hlist := IsComposed.bind (.many (.constantWithin depth) ih) fun _ => .pure ()
    have hobject := IsComposed.namedConstants (.entryWithin depth) ih
    exact .orElse .stringValue <| .orElse .number <| .orElse (.first .name fun _ => .pure ()) <|
      .orElse (.between (.punctuator '[') hlist (.punctuator ']'))
        (.between (.punctuator '\x7b') hobject (.punctuator '\x7d'))

theorem constant : IsComposed true constant := .deep .constantWithin

theorem appliedDirective : IsComposed true appliedDirective :=
  .first (.punctuator '@') fun _ => .bind .name fun _ =>
    .bind (.optional (.between (.punctuator '(') (.namedConstants .entry .constant) (.punctuator ')')))
      fun _ => .pure ()

theorem appliedDirectives : IsComposed false appliedDirectives :=
  .bind (.many .appliedDirective .appliedDirective) fun _ => .pure ()

theorem typeRefWithin (depth : Nat) : IsComposed true (typeRefWithin depth) := by
  induction depth with
  | zero => exact .never
  | succ depth ih =>
    refine .first (.orElse ?_ ?_) fun _ => .bind (.optional (.punctuator '!')) fun _ => .pure _
    · exact .first (.between (.punctuator '[') ih (.punctuator ']')) fun _ => .pure _
    · exact .first .name fun _ => .pure _

theorem typeRef : IsComposed true typeRef := .deep .typeRefWithin

/-! ### Fields and members -/

theorem inputValue : IsComposed true inputValue :=
  .second .description fun _ => .first .name fun _ => .bind (.punctuator ':') fun _ =>
    .bind .typeRef fun _ => .bind (.optional (.first (.punctuator '=') fun _ => .constant)) fun _ =>
      .bind .appliedDirectives fun _ => .pure _

theorem argumentsDefinition : IsComposed true argumentsDefinition :=
  .between (.punctuator '(') (.many .inputValue .inputValue) (.commit (.punctuator ')'))

theorem fieldDefinition : IsComposed true fieldDefinition :=
  .second .description fun _ => .first .name fun _ => .bind (.optional .argumentsDefinition) fun _ =>
    .bind (.commit (.punctuator ':')) fun _ => .bind (.commit .typeRef) fun _ =>
      .bind .appliedDirectives fun _ => .pure _

theorem fieldsDefinition : IsComposed true fieldsDefinition :=
  .between (.punctuator '\x7b') (.many .fieldDefinition .fieldDefinition) (.commit (.punctuator '\x7d'))

theorem inputFieldsDefinition : IsComposed true inputFieldsDefinition :=
  .first (.between (.punctuator '\x7b') (.many .inputValue .inputValue) (.commit (.punctuator '\x7d')))
    fun _ => .pure _

theorem implementsInterfaces : IsComposed false implementsInterfaces :=
  .bind (.optional <| .first (.keyword (by decide)) fun _ => .bind (.optional (.punctuator '&'))
    fun _ => .separated1 .interface (.punctuator '&') .name) fun _ => .pure _

theorem memberName : IsComposed true memberName := .refine _ .name

theorem unionMembers : IsComposed false unionMembers :=
  .bind (.optional <| .first (.punctuator '=') fun _ => .bind (.optional (.punctuator '|')) fun _ =>
    .separated .member (.punctuator '|') .memberName) fun _ => .pure _

/-! ### Definitions -/

theorem operationDefinition : IsComposed true operationDefinition :=
  .first .name fun _ => .bind (.punctuator ':') fun _ => .bind .name fun _ => .pure _

theorem schemaDefinition : IsComposed true schemaDefinition :=
  .first (.keyword (by decide)) fun _ => .commit <| .bind .appliedDirectives fun _ =>
    .bind (.between (.punctuator '\x7b') (.many1 .operationDefinition .operationDefinition)
      (.punctuator '\x7d')) fun _ => .pure _

theorem scalarDefinition : IsComposed true scalarDefinition :=
  .first (.keyword (by decide)) fun _ => .commit <| .bind .name fun _ =>
    .bind .appliedDirectives fun _ => .pure _

theorem writtenFields {opening : String} {fields : Rule Char (List Field)}
    (hne : opening.toList ≠ []) (hfields : IsComposed true fields) :
    IsComposed true (writtenFields opening fields) :=
  .first (.keyword hne) fun _ => .commit <| .bind .name fun _ => .bind .implementsInterfaces fun _ =>
    .bind .appliedDirectives fun _ => .bind (.optional hfields) fun _ => .pure _

theorem writtenUnion {opening : String} (hne : opening.toList ≠ []) :
    IsComposed true (writtenUnion opening) :=
  .first (.keyword hne) fun _ => .commit <| .bind .name fun _ => .bind .appliedDirectives fun _ =>
    .bind .unionMembers fun _ => .pure _

theorem enumValueDefinition : IsComposed true enumValueDefinition :=
  .second .description fun _ => .first .name fun _ => .bind .appliedDirectives fun _ => .pure _

theorem enumDefinition : IsComposed true enumDefinition :=
  .first (.keyword (by decide)) fun _ => .commit <| .bind .name fun _ => .bind .appliedDirectives fun _ =>
    .bind (.optional (.between (.punctuator '\x7b') (.many .enumValueDefinition .enumValueDefinition)
      (.punctuator '\x7d'))) fun _ => .pure _

theorem directiveLocation : IsComposed true directiveLocation := .refine _ .name

theorem directiveDefinition : IsComposed true directiveDefinition :=
  .first (.keyword (by decide)) fun _ => .commit <| .bind (.punctuator '@') fun _ => .bind .name fun _ =>
    .bind (.optional .argumentsDefinition) fun _ => .bind (.optional (.keyword (by decide))) fun _ =>
      .bind (.keyword (by decide)) fun _ => .bind (.optional (.punctuator '|')) fun _ =>
        .bind (.separated1 .location (.punctuator '|') .directiveLocation) fun _ => .pure _

/-- **The rule for definitions reads something**, and so does all that it repeats. -/
theorem definition : IsComposed true definition :=
  .second .description fun _ =>
    .orElse .schemaDefinition <|
    .orElse .scalarDefinition <|
    .orElse (.first (.writtenFields (by decide) .fieldsDefinition) fun _ => .pure _) <|
    .orElse (.first (.writtenFields (by decide) .fieldsDefinition) fun _ => .pure _) <|
    .orElse (.first (.writtenUnion (by decide)) fun _ => .pure _) <|
    .orElse .enumDefinition <|
    .orElse (.first (.writtenFields (by decide) .inputFieldsDefinition) fun _ => .pure _) <|
    .orElse .directiveDefinition <|
    .orElse (.first (.writtenUnion (by decide)) fun _ => .pure _) <|
    .first (.writtenFields (by decide) .fieldsDefinition) fun _ => .pure _

end IsComposed

/-- **Each rule that is repeated reads something**, and so does all that it repeats itself. -/
theorem IsRepeated.isComposed {α : Type} {p : Rule Char α} (h : IsRepeated p) : IsComposed true p := by
  cases h with
  | ignorable => exact .ignorable
  | stringChar => exact .stringChar
  | constant => exact .constant
  | constantWithin depth => exact .constantWithin depth
  | entry => exact .namedConstant .constant
  | entryWithin depth => exact .namedConstant (.constantWithin depth)
  | appliedDirective => exact .appliedDirective
  | inputValue => exact .inputValue
  | fieldDefinition => exact .fieldDefinition
  | enumValueDefinition => exact .enumValueDefinition
  | operationDefinition => exact .operationDefinition
  | separator c => exact .punctuator c
  | interface => exact .first (.punctuator '&') fun _ => .name
  | member => exact .first (.punctuator '|') fun _ => .memberName
  | location => exact .first (.punctuator '|') fun _ => .directiveLocation
  | definition => exact .definition

end StructQL.SDL
