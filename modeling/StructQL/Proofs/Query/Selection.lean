import StructQL.Proofs.Selection.Text
import StructQL.Query.Grammar

/-!
# A rendered selection is read as a query

Where a name stands in a rendered selection, another name, three points or a brace follow. So a field
has no alias, no arguments and no directives, and it has selections if a brace opens next.

* `Plain`: nothing follows that belongs to the name in front.
* `fieldNode_reads`, `fragmentNode_reads`: a field and a fragment that nothing but selections follow.
* `Selection.nodes`: what a selection lists in a query.
* `Filled.selectionSet_reads`: **the tokens of a filled selection are read as its nodes.**
* `Filled.ofSource?_document`: **its text is a query without a name.**
-/

namespace StructQL

namespace Query

open Rule

variable {α : Type} {p : Rule Token α} {selections : Rule Token (List Node)} {ts rest : List Token}
  {a : α} {c : Char} {depth : Nat} {constant : Bool}

/-! ## Tokens -/

/-- No comma comes next. -/
def NoCommaNext (ts : List Token) : Prop := ts.head? ≠ some (.punctuator ',')

theorem commas_reads (h : NoCommaNext ts) : commas ts = .read () ts := by
  have hmany : many (item (.punctuator ',')) ts = .read [] ts := many_of_misses (item_misses h)
  exact bind_of_read hmany

theorem noComma_reads (h : NoCommaNext ts) : noComma ts = .read () ts :=
  notHere_of_misses (item_misses h)

theorem tokenAs_reads {f : Token → Option α} {t : Token} (hcomma : t ≠ .punctuator ',')
    (h : f t = some a) : tokenAs f (t :: ts) = .read a ts := by
  have hnext : NoCommaNext (t :: ts) := by simpa [NoCommaNext] using hcomma
  have hany : satisfy (fun _ => true) (t :: ts) = .read t ts := satisfy_reads_iff.2 ⟨rfl, rfl⟩
  unfold tokenAs
  rw [bind_of_read (commas_reads hnext)]
  exact refine_of_read hany h

theorem tokenAs_misses {f : Token → Option α} (hcomma : NoCommaNext ts)
    (h : ∀ t ∈ ts.head?, f t = none) : (tokenAs f).Misses ts := by
  refine .of_bind (commas_reads hcomma) ?_
  cases ts with
  | nil => exact refine_of_misses (satisfy_misses (by simp))
  | cons t ts =>
    have hany : satisfy (fun _ => true) (t :: ts) = .read t ts := satisfy_reads_iff.2 ⟨rfl, rfl⟩
    exact refine_of_none hany (h t rfl)

theorem anyName_reads (n : Name) : anyName (.name n :: ts) = .read n ts :=
  tokenAs_reads (by simp) rfl

theorem anyName_misses (hcomma : NoCommaNext ts) (h : ∀ n, ts.head? ≠ some (.name n)) :
    anyName.Misses ts := by
  refine tokenAs_misses hcomma ?_
  intro t ht
  cases t with
  | name n => exact absurd ht (h n)
  | punctuator | spread | int | float | string => rfl

theorem word_reads {text : String} {n : Name} (h : n.text = text) :
    word text (.name n :: ts) = .read () ts := by
  have hrefine : refine anyName (fun n => if n.text = text then some n else none) (.name n :: ts) =
      .read n ts := refine_of_read (anyName_reads n) (if_pos h)
  exact bind_of_read hrefine

theorem word_misses {text : String} (h : anyName.Misses ts) : (word text).Misses ts :=
  bind_of_misses (refine_of_misses h)

theorem punctuator_reads (h : c ≠ ',') : punctuator c (.punctuator c :: ts) = .read () ts := by
  have hnext : NoCommaNext (.punctuator c :: ts) := by simpa [NoCommaNext] using h
  unfold punctuator
  rw [bind_of_read (commas_reads hnext)]
  exact item_reads_iff.2 rfl

theorem punctuator_misses (hcomma : NoCommaNext ts) (h : ts.head? ≠ some (.punctuator c)) :
    (punctuator c).Misses ts :=
  .of_bind (commas_reads hcomma) (item_misses h)

theorem enclosed_reads {o : Char} (ho : o ≠ ',') (hc : c ≠ ',')
    (h : p ts = .read a (.punctuator c :: rest)) :
    enclosed o p c (.punctuator o :: ts) = .read a rest := by
  unfold enclosed
  rw [bind_of_read (punctuator_reads ho)]
  refine commit_of_read ?_
  rw [bind_of_read h, bind_of_read (punctuator_reads hc), pure_apply]

theorem enclosed_misses {o : Char} (h : (punctuator o).Misses ts) : (enclosed o p c).Misses ts :=
  bind_of_misses h

/-! ## Fields and fragments -/

/-- **Nothing follows that belongs to the name in front**: no alias, no arguments, no directives. -/
def Plain (ts : List Token) : Prop := ∀ c ∈ [',', ':', '(', '@'], ts.head? ≠ some (.punctuator c)

theorem Plain.noCommaNext (h : Plain ts) : NoCommaNext ts := h ',' (by simp)

theorem Plain.misses (h : Plain ts) (hc : c ∈ [',', ':', '(', '@']) : (punctuator c).Misses ts :=
  punctuator_misses h.noCommaNext (h c hc)

theorem arguments_reads (h : Plain ts) : arguments constant depth ts = .read [] ts := by
  have hnone : optional (enclosed '(' (many1 (named (value constant depth))) ')') ts =
      .read none ts := optional_of_misses (enclosed_misses (h.misses (by simp)))
  exact bind_of_read hnone

theorem directives_reads (h : Plain ts) : directives constant depth ts = .read [] ts :=
  many_of_misses (bind_of_misses (h.misses (by simp)))

/-- **A field that nothing but selections follow.** -/
theorem fieldNode_reads {nodes : Option (List Node)} (n : Name) (h : Plain ts)
    (hnodes : optional selections ts = .read nodes rest) :
    fieldNode depth selections (.name n :: ts) =
      .read (.field none n [] [] (nodes.getD [])) rest := by
  have hmiss : (do noComma; punctuator ':'; commit anyName : Rule Token Name).Misses ts :=
    .of_bind (noComma_reads h.noCommaNext) (bind_of_misses (h.misses (by simp)))
  unfold fieldNode
  rw [bind_of_read (anyName_reads n), bind_of_read (optional_of_misses hmiss),
    bind_of_read (arguments_reads h), bind_of_read (directives_reads h), bind_of_read hnodes]
  rfl

theorem fragmentNode_misses (hcomma : NoCommaNext ts) (h : ts.head? ≠ some .spread) :
    (fragmentNode depth selections).Misses ts :=
  .of_bind (commas_reads hcomma) (bind_of_misses (item_misses h))

/-- **A fragment in place that nothing but selections follow.** -/
theorem fragmentNode_reads {on : Name} {nodes : List Node} (condition : Name) (hon : on.text = "on")
    (h : Plain ts) (hnodes : selections ts = .read nodes rest) :
    fragmentNode depth selections (.spread :: .name on :: .name condition :: ts) =
      .read (.inline (some condition) [] nodes) rest := by
  have hspread : NoCommaNext (.spread :: .name on :: .name condition :: ts) := by
    simp [NoCommaNext]
  have hname : NoCommaNext (.name on :: .name condition :: ts) := by simp [NoCommaNext]
  unfold fragmentNode
  rw [bind_of_read (commas_reads hspread), bind_of_read (item_reads_iff.2 rfl)]
  refine commit_of_read ?_
  rw [bind_of_read (noComma_reads hname)]
  refine firstOf_cons_of_read ?_
  rw [bind_of_read (word_reads hon), bind_of_read (commit_of_read (anyName_reads condition)),
    bind_of_read (directives_reads h), bind_of_read (commit_of_read hnodes), pure_apply]

/-- What a selection set lists, with what is read of the selections below. -/
def listed (depth : Nat) (selections : Rule Token (List Node)) : Rule Token Node :=
  firstOf [fragmentNode depth selections, fieldNode depth selections]

theorem selectionSet_succ (depth : Nat) :
    selectionSet (depth + 1) = enclosed '\x7b' (many1 (listed depth (selectionSet depth))) '\x7d' :=
  rfl

theorem selectionSet_misses (h : (punctuator '\x7b').Misses ts) : (selectionSet depth).Misses ts := by
  cases depth with
  | zero => exact enclosed_misses h
  | succ depth => exact enclosed_misses h

theorem listed_field {nodes : Option (List Node)} (n : Name) (h : Plain ts)
    (hnodes : optional selections ts = .read nodes rest) :
    listed depth selections (.name n :: ts) = .read (.field none n [] [] (nodes.getD [])) rest := by
  have hmiss : (fragmentNode depth selections).Misses (.name n :: ts) :=
    fragmentNode_misses (by simp [NoCommaNext]) (by simp)
  unfold listed
  rw [firstOf_cons_of_misses hmiss (by simp)]
  exact fieldNode_reads n h hnodes

theorem listed_misses (hcomma : NoCommaNext ts) (hspread : ts.head? ≠ some .spread)
    (hname : ∀ n, ts.head? ≠ some (.name n)) : (listed depth selections).Misses ts := by
  refine firstOf_misses ?_
  intro p hp
  simp only [List.mem_cons, List.not_mem_nil, or_false] at hp
  obtain rfl | rfl := hp
  · exact fragmentNode_misses hcomma hspread
  · exact bind_of_misses (anyName_misses hcomma hname)

/-! ## Definitions -/

/-- **A selection set alone is a query.** -/
theorem definition_reads {nodes : List Node} (h : selectionSet depth ts = .read nodes rest) :
    definition depth ts = .read (.operation ⟨.query, none, [], [], nodes⟩) rest := by
  have hquery : operation depth ts = .read ⟨.query, none, [], [], nodes⟩ rest :=
    firstOf_cons_of_read (bind_of_read h)
  exact firstOf_cons_of_read (bind_of_read hquery)

/-- Nothing is defined at the end. -/
theorem definition_misses_nil : (definition depth).Misses [] := by
  have hcomma : NoCommaNext [] := by simp [NoCommaNext]
  have hname : anyName.Misses [] := anyName_misses hcomma (by simp)
  have hstring : stringToken.Misses [] := tokenAs_misses hcomma (by simp)
  have hset : (selectionSet depth).Misses [] :=
    selectionSet_misses (punctuator_misses hcomma (by simp))
  refine firstOf_misses ?_
  simp only [List.mem_cons, List.not_mem_nil, or_false, forall_eq_or_imp, forall_eq]
  refine ⟨bind_of_misses (firstOf_misses ?_), bind_of_misses (bind_of_misses (firstOf_misses ?_)),
    bind_of_misses (bind_of_misses (word_misses hname)),
    bind_of_misses (.of_bind (optional_of_misses (bind_of_misses hstring)) (firstOf_misses ?_))⟩
  · simp only [List.mem_cons, List.not_mem_nil, or_false, forall_eq_or_imp, forall_eq]
    exact ⟨bind_of_misses hset, bind_of_misses (refine_of_misses hname)⟩
  · simp only [List.mem_cons, List.not_mem_nil, or_false, forall_eq_or_imp, forall_eq]
    exact ⟨word_misses hname, bind_of_misses hstring⟩
  · simp only [List.mem_cons, List.not_mem_nil, or_false, forall_eq_or_imp, forall_eq]
    exact ⟨bind_of_misses (word_misses hname), bind_of_misses (refine_of_misses hname),
      bind_of_misses (word_misses hname)⟩

/-- **A source that is one selection set is a query without a name.** -/
theorem Document.ofSource?_of_selectionSet {source : String} {nodes : List Node}
    (htokens : Token.ofSource? source = some ts) (h : selectionSet maxDepth ts = .read nodes []) :
    ofSource? source = some ⟨[⟨.query, none, [], [], nodes⟩], []⟩ := by
  have hne : ts ≠ [] := by
    rintro rfl
    have hcomma : NoCommaNext [] := by simp [NoCommaNext]
    exact (selectionSet_misses (punctuator_misses hcomma (by simp))).not_read h
  have hmany : many (definition maxDepth) ts = .read [.operation ⟨.query, none, [], [], nodes⟩] [] :=
    many_of_read (definition_reads h) (List.length_pos_iff.2 hne)
      (many_of_misses definition_misses_nil)
  have hcommas : commas [] = .read () [] := commas_reads (by simp [NoCommaNext])
  have hread : readAll? (do let l ← many1 (definition maxDepth); commas; return l) ts =
      some [.operation ⟨.query, none, [], [], nodes⟩] := by
    unfold readAll?
    rw [bind_of_read (many1_of_many hmany), bind_of_read hcommas, pure_apply]
  unfold ofSource?
  rw [htokens, Option.bind_eq_bind, Option.bind_some, hread]
  rfl

end Query

/-! ## Selections -/

namespace Selection

open Query Rule

mutual

/-- **What a selection lists in a query**: its fields, and for members of a struct union that have
some a fragment in place. Of the whole value nothing is listed. -/
def nodes : Selection → List Node
  | whole => []
  | struct set => setNodes set
  | union _ members => memberNodes members

def setNodes : FieldSet Selection → List Node
  | ⟨_, fields⟩ => fieldNodes fields

def fieldNodes : List (Name × Selection) → List Node
  | [] => []
  | (name, s) :: rest => .field none name [] [] (nodes s) :: fieldNodes rest

def memberNodes : List (Name × FieldSet Selection) → List Node
  | [] => []
  | (member, set) :: rest =>
    (if set.fields.isEmpty then [] else [.inline (some member) [] (setNodes set)]) ++
      memberNodes rest

end

mutual

/-- **How deep the braces of a selection nest.** -/
def nesting : Selection → Nat
  | whole => 0
  | struct set => setNesting set + 1
  | union _ members => memberNesting members + 1

def setNesting : FieldSet Selection → Nat
  | ⟨_, fields⟩ => fieldNesting fields

def fieldNesting : List (Name × Selection) → Nat
  | [] => 0
  | (_, s) :: rest => max (nesting s) (fieldNesting rest)

def memberNesting : List (Name × FieldSet Selection) → Nat
  | [] => 0
  | (_, set) :: rest => max (setNesting set + 1) (memberNesting rest)

end

variable {s : Selection} {type name member : Name} {fields : List (Name × Selection)}
  {members : List (Name × FieldSet Selection)} {set : FieldSet Selection} {depth : Nat}
  {rest : List Token}

/-- **Something is listed** unless the selection is empty. -/
theorem nodes_ne_nil (hempty : s.isEmpty = false) (hs : s ≠ .whole) : s.nodes ≠ [] := by
  cases s with
  | whole => exact absurd rfl hs
  | struct set =>
    obtain ⟨_, fields⟩ := set
    cases fields with
    | nil => cases hempty
    | cons first others => simp [nodes, setNodes, fieldNodes]
  | union _ members =>
    rw [nodes]
    induction members with
    | nil => cases hempty
    | cons first others ih =>
      obtain ⟨member, set⟩ := first
      rw [memberNodes]
      by_cases hset : set.fields.isEmpty = true
      · have hothers : (Selection.union member others).isEmpty = false := by
          simpa [isEmpty, hset] using hempty
        simpa [hset] using ih hothers (by simp)
      · simp [hset]

theorem nesting_le_of_mem (h : (name, s) ∈ fields) : s.nesting ≤ fieldNesting fields := by
  induction fields with
  | nil => cases h
  | cons first others ih =>
    obtain ⟨other, t⟩ := first
    rw [fieldNesting]
    rcases List.mem_cons.1 h with he | hmem
    · obtain ⟨rfl, rfl⟩ := Prod.mk.inj he
      exact Nat.le_max_left _ _
    · have hothers := ih hmem
      omega

theorem nesting_struct_le_of_mem (h : (member, set) ∈ members) :
    (Selection.struct set).nesting ≤ memberNesting members := by
  induction members with
  | nil => cases h
  | cons first others ih =>
    obtain ⟨other, t⟩ := first
    rw [memberNesting]
    rcases List.mem_cons.1 h with he | hmem
    · obtain ⟨rfl, rfl⟩ := Prod.mk.inj he
      rw [nesting]
      exact Nat.le_max_left _ _
    · have hothers := ih hmem
      omega

/-- **The tokens of a selection are read as its nodes**, by the rule for selection sets that nest so
deep. -/
def ReadsWithin (depth : Nat) (s : Selection) : Prop :=
  ∀ rest, selectionSet depth (s.tokens ++ rest) = .read s.nodes rest

/-! ### Fields -/

theorem head?_tokens (hs : s ≠ .whole) : (s.tokens ++ rest).head? = some opening := by
  cases s with
  | whole => exact absurd rfl hs
  | struct | union => simp [tokens]

/-- Behind fields a brace closes, so a name or that brace comes first. -/
theorem head?_fieldTokens (fields : List (Name × Selection)) (rest : List Token) :
    (fieldTokens fields ++ closing :: rest).head? = some closing ∨
      ∃ n, (fieldTokens fields ++ closing :: rest).head? = some (.name n) := by
  cases fields with
  | nil => exact .inl rfl
  | cons first others => exact .inr ⟨first.1, rfl⟩

theorem plain_fieldTokens (fields : List (Name × Selection)) (rest : List Token) :
    Plain (fieldTokens fields ++ closing :: rest) := by
  intro c hc
  obtain hhead | ⟨n, hhead⟩ := head?_fieldTokens fields rest
  · rw [hhead]
    intro he
    obtain rfl : '\x7d' = c := by simpa [closing] using he
    revert hc
    decide
  · simp [hhead]

theorem selectionSet_misses_fieldTokens (fields : List (Name × Selection)) (rest : List Token) :
    (selectionSet depth).Misses (fieldTokens fields ++ closing :: rest) := by
  refine selectionSet_misses (punctuator_misses (plain_fieldTokens fields rest).noCommaNext ?_)
  obtain hhead | ⟨n, hhead⟩ := head?_fieldTokens fields rest
  · rw [hhead]
    decide
  · simp [hhead]

theorem plain_tokens (hs : s ≠ .whole) : Plain (s.tokens ++ rest) := by
  intro c hc
  rw [head?_tokens hs]
  intro he
  obtain rfl : '\x7b' = c := by simpa [opening] using he
  revert hc
  decide

/-- Nothing more is listed where a brace closes. -/
theorem listed_misses_closing {selections : Rule Token (List Node)} :
    (listed depth selections).Misses (closing :: rest) :=
  listed_misses (by simp [NoCommaNext, closing]) (by simp [closing]) (by simp [closing])

/-- What is listed between braces is read as a selection set. -/
theorem selectionSet_braces {ts : List Token} {l : List Node} (hne : l ≠ [])
    (h : many (listed depth (selectionSet depth)) (ts ++ closing :: rest) =
      .read l (closing :: rest)) :
    selectionSet (depth + 1) (opening :: ts ++ [closing] ++ rest) = .read l rest := by
  obtain ⟨first, others, rfl⟩ := List.exists_cons_of_ne_nil hne
  have hread : enclosed '\x7b' (many1 (listed depth (selectionSet depth))) '\x7d'
      (opening :: (ts ++ closing :: rest)) = .read (first :: others) rest :=
    enclosed_reads (by decide) (by decide) (many1_of_many h)
  rw [selectionSet_succ, List.cons_append, List.cons_append, List.append_assoc,
    List.singleton_append]
  exact hread

/-- **The tokens of fields are read as their nodes** if those of what is selected of them are. -/
theorem many_fieldTokens
    (h : ∀ name s, (name, s) ∈ fields → s ≠ .whole → s.ReadsWithin depth) (rest : List Token) :
    many (listed depth (selectionSet depth)) (fieldTokens fields ++ closing :: rest) =
      .read (fieldNodes fields) (closing :: rest) := by
  induction fields with
  | nil =>
    rw [fieldTokens, fieldNodes, List.nil_append]
    exact many_of_misses listed_misses_closing
  | cons first others ih =>
    obtain ⟨name, s⟩ := first
    have hothers := ih fun other t ht => h other t (List.mem_cons_of_mem _ ht)
    -- what follows the name is read as what is selected of the field, if this is not the whole value
    have hfield : listed depth (selectionSet depth)
        (.name name :: (s.tokens ++ (fieldTokens others ++ closing :: rest))) =
          .read (.field none name [] [] s.nodes) (fieldTokens others ++ closing :: rest) := by
      by_cases hwhole : s = .whole
      · subst hwhole
        rw [tokens, nodes, List.nil_append]
        exact listed_field name (plain_fieldTokens others rest)
          (optional_of_misses (selectionSet_misses_fieldTokens others rest))
      · exact listed_field name (plain_tokens hwhole)
          (optional_of_read (h name s List.mem_cons_self hwhole _))
    rw [fieldTokens, fieldNodes, List.cons_append, List.cons_append, List.append_assoc]
    refine many_of_read hfield ?_ hothers
    simp only [List.length_cons, List.length_append]
    omega

/-- **Fields between braces are read** if there are some. -/
theorem readsWithin_struct (hempty : (Selection.struct ⟨type, fields⟩).isEmpty = false)
    (h : ∀ name s, (name, s) ∈ fields → s ≠ .whole → s.ReadsWithin depth) :
    (Selection.struct ⟨type, fields⟩).ReadsWithin (depth + 1) := by
  intro rest
  have hne := nodes_ne_nil hempty (by simp)
  rw [nodes, setNodes] at hne
  rw [tokens, setTokens, nodes, setNodes]
  exact selectionSet_braces hne (many_fieldTokens h rest)

/-! ### Members -/

/-- **The tokens of members are read as their nodes** if those between their braces are. -/
theorem many_memberTokens
    (h : ∀ member set, (member, set) ∈ members → set.fields ≠ [] →
      (Selection.struct set).ReadsWithin depth) (rest : List Token) :
    many (listed depth (selectionSet depth)) (memberTokens members ++ closing :: rest) =
      .read (memberNodes members) (closing :: rest) := by
  induction members with
  | nil =>
    rw [memberTokens, memberNodes, List.nil_append]
    exact many_of_misses listed_misses_closing
  | cons first others ih =>
    obtain ⟨member, set⟩ := first
    have hothers := ih fun other t ht => h other t (List.mem_cons_of_mem _ ht)
    rw [memberTokens, memberNodes]
    by_cases hempty : set.fields = []
    · -- a member without fields has no tokens
      simpa [hempty] using hothers
    · have hset := h member set List.mem_cons_self hempty (memberTokens others ++ closing :: rest)
      have hplain : Plain ((Selection.struct set).tokens ++ (memberTokens others ++ closing :: rest)) :=
        plain_tokens (by simp)
      have hmember : listed depth (selectionSet depth) (.spread :: .name on :: .name member ::
          ((Selection.struct set).tokens ++ (memberTokens others ++ closing :: rest))) =
            .read (.inline (some member) [] (Selection.struct set).nodes)
              (memberTokens others ++ closing :: rest) :=
        firstOf_cons_of_read (fragmentNode_reads member rfl hplain hset)
      have hmany := many_of_read hmember (by
        simp only [List.length_cons, List.length_append]
        omega) hothers
      simpa [hempty, tokens, nodes] using hmany

/-- **Members between braces are read** if some of them has fields. -/
theorem readsWithin_union (hempty : (Selection.union type members).isEmpty = false)
    (h : ∀ member set, (member, set) ∈ members → set.fields ≠ [] →
      (Selection.struct set).ReadsWithin depth) :
    (Selection.union type members).ReadsWithin (depth + 1) := by
  intro rest
  have hne := nodes_ne_nil hempty (by simp)
  rw [nodes] at hne
  rw [tokens, nodes]
  exact selectionSet_braces hne (many_memberTokens h rest)

/-- **The tokens of a filled selection are read as its nodes**, by the rule for selection sets that
nest at least as deep. -/
theorem Filled.readsWithin (h : s.Filled) :
    ∀ {depth}, s ≠ .whole → s.nesting ≤ depth → s.ReadsWithin depth := by
  induction h with
  | whole =>
    intro depth hs
    exact absurd rfl hs
  | @struct type fields hempty _ ih =>
    intro depth _ hdepth
    rw [nesting, setNesting] at hdepth
    obtain ⟨depth, rfl⟩ : ∃ n, depth = n + 1 := ⟨depth - 1, by omega⟩
    refine readsWithin_struct hempty ?_
    intro name s hmem hs
    have hle := nesting_le_of_mem hmem
    exact ih name s hmem hs (by omega)
  | @union type members hempty _ ih =>
    intro depth _ hdepth
    rw [nesting] at hdepth
    obtain ⟨depth, rfl⟩ : ∃ n, depth = n + 1 := ⟨depth - 1, by omega⟩
    refine readsWithin_union hempty ?_
    rintro member ⟨struct, fields⟩ hset hne
    have hstruct := nesting_struct_le_of_mem hset
    rw [nesting, setNesting] at hstruct
    -- the fields of a member nest one level below its braces
    obtain ⟨depth, rfl⟩ : ∃ n, depth = n + 1 := ⟨depth - 1, by omega⟩
    refine readsWithin_struct (by simpa [isEmpty] using hne) ?_
    intro name s hmem hs
    have hle := nesting_le_of_mem hmem
    exact ih member _ name s hset hmem hs (by omega)

/-- **The tokens of a filled selection are a selection set.** -/
theorem Filled.readAll?_selectionSet (h : s.Filled) (hs : s ≠ .whole) (hdepth : s.nesting ≤ depth) :
    readAll? (selectionSet depth) s.tokens = some s.nodes := by
  have hread := h.readsWithin hs hdepth []
  rw [List.append_nil] at hread
  unfold readAll?
  rw [hread]

/-- **The text of a filled selection is a query without a name**, unless it nests too deep for any
query. -/
theorem Filled.ofSource?_document (h : s.Filled) (hs : s ≠ .whole) (hdepth : s.nesting ≤ maxDepth) :
    Document.ofSource? s.text = some ⟨[⟨.query, none, [], [], s.nodes⟩], []⟩ := by
  have hread := h.readsWithin hs hdepth []
  rw [List.append_nil] at hread
  exact Document.ofSource?_of_selectionSet (h.ofSource?_text hs) hread

end Selection

end StructQL
