import StructQL.Proofs.Query.Token
import StructQL.Selection.Text

/-!
# The tokens of a rendered selection

A selection is laid out on one line or over several, from the same pieces. The layouts differ in the
blanks between words, and these are skipped.

* `Filled`: no set of fields is empty, save for those of members of a struct union that has others.
* `tokens`: the tokens of a selection.
* `Spells`: pieces that spell tokens, with blanks between the words.
* `spells_pieces`: **the pieces of a filled selection spell its tokens.**
* `ofSource?_layout`: pieces are read as what they spell, however they are laid out.
* `ofSource?_text`, `ofSource?_indented`: **both layouts have the tokens of the selection.**
-/

namespace StructQL

namespace Selection

open Query

/-- **Neither the selection nor a narrowed one inside it is empty**, though members of a struct union
may be. -/
inductive Filled : Selection → Prop where
  | whole : Filled .whole
  | struct {type : Name} {fields : List (Name × Selection)} :
    (Selection.struct ⟨type, fields⟩).isEmpty = false →
    (∀ name s, (name, s) ∈ fields → Filled s) →
    Filled (.struct ⟨type, fields⟩)
  | union {type : Name} {members : List (Name × FieldSet Selection)} :
    (Selection.union type members).isEmpty = false →
    (∀ member set name s, (member, set) ∈ members → (name, s) ∈ set.fields → Filled s) →
    Filled (.union type members)

/-! ## Tokens -/

def opening : Token := .punctuator '\x7b'

def closing : Token := .punctuator '\x7d'

/-- What opens the condition of a fragment. -/
def on : Name := ⟨"on", by decide⟩

mutual

/-- **The tokens of a selection.** Those of the whole value are none. -/
def tokens : Selection → List Token
  | whole => []
  | struct set => opening :: setTokens set ++ [closing]
  | union _ members => opening :: memberTokens members ++ [closing]

def setTokens : FieldSet Selection → List Token
  | ⟨_, fields⟩ => fieldTokens fields

def fieldTokens : List (Name × Selection) → List Token
  | [] => []
  | (name, s) :: rest => .name name :: tokens s ++ fieldTokens rest

def memberTokens : List (Name × FieldSet Selection) → List Token
  | [] => []
  | (member, set) :: rest =>
    (if set.fields.isEmpty then []
      else .spread :: .name on :: .name member :: opening :: setTokens set ++ [closing]) ++
      memberTokens rest

end

/-! ## Pieces -/

end Selection

namespace Piece

/-- The piece is a space or a new line. -/
def isBlank : Piece → Bool
  | word _ => false
  | space | line _ => true

/-- **Pieces that spell tokens**: each word spells one, and blanks follow it if anything does. -/
inductive Spells : List Piece → List Query.Token → Prop where
  | nil : Spells [] []
  | blank {p : Piece} {ps : List Piece} {ts : List Query.Token} :
    p.isBlank = true → Spells ps ts → Spells (p :: ps) ts
  | word {text : String} {t : Query.Token} {ps : List Piece} {ts : List Query.Token} :
    Query.Token.Spelling text t → (∀ p ∈ ps.head?, p.isBlank = true) → Spells ps ts →
    Spells (.word text :: ps) (t :: ts)

/-- **A way to lay pieces out**: words stand as they are, and blanks between them. -/
structure IsLayout (f : Piece → String) : Prop where
  word : ∀ text, f (.word text) = text
  blank : ∀ p : Piece, p.isBlank = true →
    (f p).toList ≠ [] ∧ Query.Token.IsBlank (f p).toList

variable {ps qs : List Piece} {ts us : List Query.Token} {f : Piece → String}

/-- Pieces that open with a blank spell more. -/
theorem Spells.append (h : Spells ps ts) (hqs : Spells qs us)
    (hblank : ∀ q ∈ qs.head?, q.isBlank = true) : Spells (ps ++ qs) (ts ++ us) := by
  induction h with
  | nil => exact hqs
  | blank hp _ ih => exact .blank hp ih
  | @word text t ps ts hspelling hnext _ ih =>
    refine .word hspelling ?_ ih
    intro p hp
    cases ps with
    | nil => exact hblank p hp
    | cons q ps => exact hnext p hp

/-- **Pieces that are laid out are read as the tokens that they spell.** -/
theorem Spells.exists_lexes (hf : IsLayout f) (h : Spells ps ts) :
    ∃ blank rest, ps.flatMap (fun p => (f p).toList) = blank ++ rest ∧
      Query.Token.IsBlank blank ∧ Query.Token.IsSettled rest ∧ Query.Token.Lexes rest ts ∧
      ((∀ p ∈ ps.head?, p.isBlank = true) → blank = [] → rest = []) := by
  induction h with
  | nil => exact ⟨[], [], rfl, by simp [Query.Token.IsBlank], by simp [Query.Token.IsSettled], .nil, fun _ _ => rfl⟩
  | @blank p ps ts hp _ ih =>
    obtain ⟨blank, rest, heq, hblank, hsettled, hlexes, -⟩ := ih
    obtain ⟨hne, hall⟩ := hf.blank p hp
    refine ⟨(f p).toList ++ blank, rest, ?_, ?_, hsettled, hlexes, ?_⟩
    · rw [List.flatMap_cons, heq, List.append_assoc]
    · intro c hc
      rcases List.mem_append.1 hc with hc | hc
      · exact hall c hc
      · exact hblank c hc
    · intro _ hnil
      exact absurd (List.append_eq_nil_iff.1 hnil).1 hne
  | @word text t ps ts hspelling hnext _ ih =>
    obtain ⟨blank, rest, heq, hblank, hsettled, hlexes, hends⟩ := ih
    refine ⟨[], text.toList ++ (blank ++ rest), ?_, by simp [Query.Token.IsBlank], ?_,
      .word hspelling hblank hsettled (hends hnext) hlexes, ?_⟩
    · rw [List.flatMap_cons, hf.word, heq, List.nil_append]
    · obtain ⟨c, others, htext, hseparator⟩ := hspelling.exists_cons
      intro d hd
      obtain rfl : c = d := by simpa [htext] using hd
      exact hseparator
    · intro hword
      have hfalse := hword (.word text) rfl
      cases hfalse

theorem toList_join_map (f : Piece → String) (ps : List Piece) :
    (String.join (ps.map f)).toList = ps.flatMap fun p => (f p).toList := by
  induction ps with
  | nil => rfl
  | cons p ps ih => simp_all

theorem Spells.ofSource? (hf : IsLayout f) (h : Spells ps ts) :
    Query.Token.ofSource? (String.join (ps.map f)) = some ts := by
  obtain ⟨blank, rest, heq, hblank, hsettled, hlexes, -⟩ := h.exists_lexes hf
  exact hlexes.ofSource? ((toList_join_map f ps).trans heq) hblank hsettled

theorem isLayout_flat : IsLayout flat := by
  refine ⟨fun _ => rfl, ?_⟩
  intro p hp
  cases p with
  | word => cases hp
  | space | line => exact ⟨by simp [flat], by simp [flat, Query.Token.IsBlank, Query.Token.isSeparator]⟩

theorem isLayout_broken : IsLayout broken := by
  refine ⟨fun _ => rfl, ?_⟩
  intro p hp
  cases p with
  | word => cases hp
  | space => exact ⟨by simp [broken], by simp [broken, Query.Token.IsBlank, Query.Token.isSeparator]⟩
  | line depth =>
    have heq : (broken (.line depth)).toList = '\n' :: List.replicate (2 * depth) ' ' := by
      simp [broken]
    refine ⟨by simp [heq], ?_⟩
    intro c hc
    rw [heq, List.mem_cons, List.mem_replicate] at hc
    rcases hc with rfl | ⟨-, rfl⟩ <;> decide

end Piece

/-! ## The pieces of a selection -/

namespace Selection

open Piece Query

variable {s : Selection} {type : Name} {fields : List (Name × Selection)}
  {members : List (Name × FieldSet Selection)}

/-- The pieces open with a blank, if there are any. -/
def OpensBlank (ps : List Piece) : Prop := ∀ p ∈ ps.head?, p.isBlank = true

theorem spells_opening {ps : List Piece} {ts : List Token} (h : Spells ps ts)
    (hblank : OpensBlank ps) : Spells (.word "\x7b" :: ps) (opening :: ts) := by
  have hspelling : Token.Spelling "\x7b" opening := .brace (.inl rfl)
  exact .word hspelling hblank h

theorem spells_closing (depth : Nat) : Spells [.line depth, .word "\x7d"] [closing] := by
  have hspelling : Token.Spelling "\x7d" closing := .brace (.inr rfl)
  have hnone : OpensBlank [] := by simp [OpensBlank]
  exact .blank rfl (.word hspelling hnone .nil)

/-- Pieces between braces. -/
theorem spells_braces {ps : List Piece} {ts : List Token} (depth : Nat) (h : Spells ps ts)
    (hblank : OpensBlank ps) :
    Spells (.word "\x7b" :: ps ++ [.line depth, .word "\x7d"]) (opening :: ts ++ [closing]) := by
  have hinner : Spells (ps ++ [.line depth, .word "\x7d"]) (ts ++ [closing]) :=
    h.append (spells_closing depth) (by simp [Piece.isBlank])
  refine spells_opening hinner ?_
  intro p hp
  cases ps with
  | nil =>
    obtain rfl : .line depth = p := by simpa using hp
    rfl
  | cons q ps => exact hblank p hp

theorem opensBlank_fieldPieces (depth : Nat) (fields : List (Name × Selection)) :
    OpensBlank (fieldPieces depth fields) := by
  cases fields with
  | nil => simp [OpensBlank, fieldPieces]
  | cons field rest => simp [OpensBlank, fieldPieces, Piece.isBlank]

/-- **The pieces of fields spell their tokens** if those of what is selected of them do. -/
theorem spells_fieldPieces (depth : Nat)
    (h : ∀ name s, (name, s) ∈ fields → s ≠ .whole → Spells (s.pieces depth) s.tokens) :
    Spells (fieldPieces depth fields) (fieldTokens fields) := by
  induction fields with
  | nil =>
    rw [fieldPieces, fieldTokens]
    exact .nil
  | cons field rest ih =>
    obtain ⟨name, s⟩ := field
    have hrest : Spells (fieldPieces depth rest) (fieldTokens rest) :=
      ih fun other t ht => h other t (List.mem_cons_of_mem _ ht)
    have hblank := opensBlank_fieldPieces depth rest
    rw [fieldPieces, fieldTokens]
    by_cases hwhole : s = .whole
    · subst hwhole
      rw [tokens]
      exact .blank rfl (.word (.name name) hblank hrest)
    · have hnarrowed : s.isWhole = false := by
        cases s with
        | whole => exact absurd rfl hwhole
        | struct | union => rfl
      have hs := (h name s List.mem_cons_self hwhole).append hrest hblank
      rw [hnarrowed, if_neg Bool.false_ne_true]
      refine .blank rfl (.word (.name name) ?_ (.blank rfl hs))
      intro p hp
      obtain rfl : .space = p := by simpa using hp
      rfl

theorem opensBlank_memberPieces (depth : Nat) (members : List (Name × FieldSet Selection)) :
    OpensBlank (memberPieces depth members) := by
  induction members with
  | nil => simp [OpensBlank, memberPieces]
  | cons member rest ih =>
    obtain ⟨name, set⟩ := member
    rw [memberPieces]
    split
    · exact ih
    · simp [OpensBlank, memberOpening, Piece.isBlank]

/-- The pieces of a member, with fields between braces. -/
theorem spells_member (depth : Nat) (member : Name) {ps : List Piece} {ts : List Token}
    (h : Spells (.word "\x7b" :: ps) ts) :
    Spells ([.line depth, .word "...", .space, .word "on", .space, .word member.text, .space] ++
      .word "\x7b" :: ps) (.spread :: .name on :: .name member :: ts) := by
  have hspace : ∀ qs, OpensBlank (.space :: qs) := by simp [OpensBlank, Piece.isBlank]
  have hon : Token.Spelling "on" (.name on) := .name on
  exact .blank rfl (.word .spread (hspace _) (.blank rfl (.word hon (hspace _)
    (.blank rfl (.word (.name member) (hspace _) (.blank rfl h))))))

/-- **The pieces of members spell their tokens** if those of their fields do. -/
theorem spells_memberPieces (depth : Nat)
    (h : ∀ member set, (member, set) ∈ members →
      Spells (fieldPieces (depth + 1) set.fields) (fieldTokens set.fields)) :
    Spells (memberPieces depth members) (memberTokens members) := by
  induction members with
  | nil =>
    rw [memberPieces, memberTokens]
    exact .nil
  | cons first rest ih =>
    obtain ⟨member, type, fields⟩ := first
    have hrest : Spells (memberPieces depth rest) (memberTokens rest) :=
      ih fun other set hset => h other set (List.mem_cons_of_mem _ hset)
    rw [memberPieces, memberTokens]
    by_cases hempty : fields.isEmpty = true
    · simpa [hempty] using hrest
    · have hfields := h member ⟨type, fields⟩ List.mem_cons_self
      have hbraces := spells_braces depth hfields (opensBlank_fieldPieces _ fields)
      have hmember := (spells_member depth member hbraces).append hrest
        (opensBlank_memberPieces depth rest)
      simpa [hempty, memberOpening, setPieces, setTokens] using hmember

/-- **The pieces of a filled selection spell its tokens.** -/
theorem Filled.spells_pieces (h : s.Filled) (hs : s ≠ .whole) (depth : Nat) :
    Spells (s.pieces depth) s.tokens := by
  induction h generalizing depth with
  | whole => exact absurd rfl hs
  | @struct type fields hempty _ ih =>
    have hfields := spells_fieldPieces (depth + 1) fun name s hmem hne =>
      ih name s hmem hne (depth + 1)
    rw [pieces, tokens, if_neg (by simpa [isEmpty] using hempty), setPieces, setTokens]
    exact spells_braces depth hfields (opensBlank_fieldPieces _ fields)
  | @union type members hempty _ ih =>
    have hmembers : Spells (memberPieces (depth + 1) members) (memberTokens members) := by
      refine spells_memberPieces (depth + 1) ?_
      intro member set hset
      refine spells_fieldPieces (depth + 1 + 1) ?_
      intro name s hmem hne
      exact ih member set name s hset hmem hne _
    rw [pieces, tokens, if_neg (by simpa [isEmpty] using hempty)]
    exact spells_braces depth hmembers (opensBlank_memberPieces _ members)

theorem Filled.ofSource?_text (h : s.Filled) (hs : s ≠ .whole) :
    Token.ofSource? s.text = some s.tokens :=
  (h.spells_pieces hs 0).ofSource? isLayout_flat

theorem Filled.ofSource?_indented (h : s.Filled) (hs : s ≠ .whole) :
    Token.ofSource? s.indented = some s.tokens :=
  (h.spells_pieces hs 0).ofSource? isLayout_broken

end Selection

end StructQL
