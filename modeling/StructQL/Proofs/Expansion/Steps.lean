import Mathlib.Logic.Relation
import StructQL.Proofs.Expansion.Stands
import StructQL.Proofs.Table

/-!
# Expansion step by step

An expansion seen from inside: what is still to be done, the stack of the fragments that are open, and
what was found so far.

* `Task`, `Expansion`: a state of an expansion.
* `QueryContext.step?`: the next state. There is none where nothing is left to be done.
* `QueryContext.Returns`: a call runs until only what was to be done after it is left.
* `completes`: **every call leaves the stack as it was, and adds what `expand` says.**
* `nodup_of_runs`: no fragment is on the stack twice.
* `wellFounded_step`: **no run goes on forever.**
-/

namespace StructQL

/-- **Something that is still to be done**: a selection is expanded in a scope, or the fragment that
was opened last is closed. -/
inductive Task where
  | expand (scope : Name) (node : Query.Node) (included : Bool)
  | close

/-- The tasks of a list of selections. -/
def tasksOf (scope : Name) (nodes : List Query.Node) (included : Bool) : List Task :=
  nodes.map fun node => .expand scope node included

/-- **A state of an expansion.** -/
structure Expansion where
  /-- What is still to be done, the next task in front. -/
  tasks : List Task
  /-- The stack of the fragments that are open, the one opened last in front. -/
  opened : List Name
  found : List Occurrence
  faults : List Fault

namespace Expansion

variable (e : Expansion)

/-- The fragment is opened, to be closed before other tasks. -/
def enter (fragment : Query.Fragment) (included : Bool) (rest : List Task) : Expansion :=
  { e with
    tasks := tasksOf fragment.condition fragment.selections included ++ .close :: rest
    opened := fragment.name :: e.opened }

/-- The occurrences and faults are found, and other tasks are left. -/
def add (c : Checked (List Occurrence)) (rest : List Task) : Expansion :=
  { e with tasks := rest, found := e.found ++ c.value, faults := e.faults ++ c.faults }

end Expansion

namespace QueryContext

variable (ctx : QueryContext)

/-- **The next state**, unless nothing is left to be done. -/
def step? (e : Expansion) : Option Expansion :=
  match e.tasks with
  | [] => none
  | .close :: rest => some { e with tasks := rest, opened := e.opened.tail }
  | .expand scope (.field aliasName name arguments directives selections) included :: rest =>
    let site : Site := ⟨selections, included && ctx.isIncluded directives⟩
    some (e.add (pure [⟨scope, aliasName, name, arguments, directives, site⟩]) rest)
  | .expand scope (.inline condition directives selections) included :: rest =>
    if ctx.schema.canApply scope (condition.getD scope) then
      let inner := tasksOf (condition.getD scope) selections (included && ctx.isIncluded directives)
      some { e with tasks := inner ++ rest }
    else some (e.add (Checked.fault [] (.invalidFragmentTarget (condition.getD scope) scope)) rest)
  | .expand scope (.spread name directives) included :: rest =>
    match ctx.fragments.find? name with
    | none => some (e.add (Checked.fault [] (.unknownFragment name)) rest)
    | some fragment =>
      if name ∈ e.opened then some { e with tasks := rest }
      else if ctx.schema.canApply scope fragment.condition then
        some (e.enter fragment (included && ctx.isIncluded directives) rest)
      else some (e.add (Checked.fault [] (.invalidFragmentTarget fragment.condition scope)) rest)

/-- One state leads to another. -/
def Runs : Expansion → Expansion → Prop :=
  Relation.ReflTransGen fun e e' => ctx.step? e = some e'

/-- One state leads to another, with more than so many tasks left until then. -/
def RunsAbove (depth : Nat) : Expansion → Expansion → Prop :=
  Relation.ReflTransGen fun e e' => depth < e.tasks.length ∧ ctx.step? e = some e'

/-- **A call returns**: it runs until only what was to be done after it is left. -/
def Returns (rest : List Task) (e e' : Expansion) : Prop :=
  ctx.RunsAbove rest.length e e' ∧ e'.tasks = rest

/-- The fragments that are not open. -/
def unopened (opened : List Name) : Table Query.Fragment :=
  opened.foldr (fun name fragments => fragments.erase name) ctx.fragments

variable {ctx} {e e' : Expansion} {scope name : Name} {node : Query.Node}
  {nodes : List Query.Node} {included : Bool} {rest : List Task} {opened : List Name}
  {fragment : Query.Fragment} {directives : List Query.Directive}

/-! ## Runs -/

theorem RunsAbove.mono {depth more : Nat} (hle : depth ≤ more) (h : ctx.RunsAbove more e e') :
    ctx.RunsAbove depth e e' := by
  refine Relation.ReflTransGen.mono ?_ _ _ h
  exact fun _ _ hstep => ⟨Nat.lt_of_le_of_lt hle hstep.1, hstep.2⟩

theorem RunsAbove.runs {depth : Nat} (h : ctx.RunsAbove depth e e') : ctx.Runs e e' := by
  refine Relation.ReflTransGen.mono ?_ _ _ h
  exact fun _ _ hstep => hstep.2

/-- The first task is done, and only then the others. -/
theorem runsAbove_of_step {task : Task} (h : e.tasks = task :: rest) (hstep : ctx.step? e = some e') :
    ctx.RunsAbove rest.length e e' :=
  .single ⟨by rw [h]; exact Nat.lt_succ_self _, hstep⟩

/-- A call returns in one way. -/
theorem Returns.eq {e₁ e₂ : Expansion} (h₁ : ctx.Returns rest e e₁) (h₂ : ctx.Returns rest e e₂) :
    e₁ = e₂ := by
  -- no step is left above the tasks after the call
  have hend : ∀ {e e' : Expansion}, e.tasks = rest → ctx.RunsAbove rest.length e e' → e = e' := by
    intro e e' htasks h
    rcases h.cases_head with heq | ⟨_, ⟨hlt, -⟩, -⟩
    · exact heq
    · rw [htasks] at hlt
      exact absurd hlt (Nat.lt_irrefl _)
  have hunique : Relator.RightUnique fun e e' : Expansion =>
      rest.length < e.tasks.length ∧ ctx.step? e = some e' :=
    fun _ _ _ hb hc => Option.some.inj (hb.2.symm.trans hc.2)
  rcases Relation.ReflTransGen.total_of_right_unique hunique h₁.1 h₂.1 with h | h
  · exact hend h₁.2 h
  · exact (hend h₂.2 h).symm

/-! ## The stack -/

theorem contains_unopened :
    (ctx.unopened opened).contains name = true ↔
      ctx.fragments.contains name = true ∧ name ∉ opened := by
  induction opened with
  | nil => simp [unopened]
  | cons first opened ih =>
    have herase : ctx.unopened (first :: opened) = (ctx.unopened opened).erase first := rfl
    rw [herase, List.mem_cons, not_or]
    constructor
    · intro h
      obtain ⟨fragment, hfind⟩ := Table.exists_find?_of_contains h
      have hne : name ≠ first := by
        rintro rfl
        simp [Table.find?_erase] at hfind
      obtain ⟨hmem, hnot⟩ := ih.1 (Table.contains_of_find? (Table.find?_of_erase hfind))
      exact ⟨hmem, hne, hnot⟩
    · rintro ⟨hmem, hne, hnot⟩
      exact Table.contains_erase (ih.2 ⟨hmem, hnot⟩) hne

theorem contains_unopened_of_find? (hfind : ctx.fragments.find? name = some fragment) :
    (ctx.unopened opened).contains name = true ↔ name ∉ opened := by
  rw [contains_unopened, and_iff_right (Table.contains_of_find? hfind)]

/-- **A step puts no fragment on the stack twice.** -/
theorem nodup_of_step (h : ctx.step? e = some e') (hnd : e.opened.Nodup) : e'.opened.Nodup := by
  unfold step? at h
  split at h
  · cases h
  · cases h
    exact hnd.tail
  · cases h
    exact hnd
  · split at h <;> cases h <;> exact hnd
  · split at h
    · cases h
      exact hnd
    · rename_i fragment hfind
      obtain rfl := Table.nameOf_of_find? hfind
      split at h
      · cases h
        exact hnd
      · rename_i hnot
        split at h
        · cases h
          exact List.nodup_cons.2 ⟨hnot, hnd⟩
        · cases h
          exact hnd

theorem nodup_of_runs (h : ctx.Runs e e') (hnd : e.opened.Nodup) : e'.opened.Nodup := by
  induction h with
  | refl => exact hnd
  | tail _ hstep ih => exact nodup_of_step hstep ih

/-- **The step at a spread**: its fragment is opened, if it is not open and can apply. -/
theorem step?_spread (h : e.tasks = .expand scope (.spread name directives) included :: rest)
    (hfind : ctx.fragments.find? name = some fragment) :
    ctx.step? e = some (if name ∈ e.opened then { e with tasks := rest }
      else if ctx.schema.canApply scope fragment.condition then
        e.enter fragment (included && ctx.isIncluded directives) rest
      else e.add (Checked.fault [] (.invalidFragmentTarget fragment.condition scope)) rest) := by
  rw [step?, h]
  dsimp only
  rw [hfind]
  dsimp only
  split
  · rfl
  · split <;> rfl

/-- At a spread that can apply the fragment is opened, unless it is open. -/
theorem step?_spread_of_applies
    (h : e.tasks = .expand scope (.spread name directives) included :: rest)
    (hfind : ctx.fragments.find? name = some fragment)
    (happly : ctx.schema.canApply scope fragment.condition = true) :
    (name ∉ e.opened ∧
        ctx.step? e = some (e.enter fragment (included && ctx.isIncluded directives) rest)) ∨
      name ∈ e.opened ∧ ctx.step? e = some { e with tasks := rest } := by
  have hstep := step?_spread h hfind
  by_cases hopened : name ∈ e.opened
  · rw [if_pos hopened] at hstep
    exact .inr ⟨hopened, hstep⟩
  · rw [if_neg hopened, if_pos happly] at hstep
    exact .inl ⟨hopened, hstep⟩

/-! ## Calls -/

theorem add_pure_nil (e : Expansion) (rest : List Task) :
    e.add (pure []) rest = { e with tasks := rest } := by
  simp [Expansion.add]

/-- Calls one after the other find what their expansions find one after the other. -/
theorem add_add (e : Expansion) (c d : Checked (List Occurrence)) (others rest : List Task) :
    (e.add c others).add d rest = e.add (do
      let inner ← c
      let outer ← d
      return inner ++ outer) rest := by
  simp [Expansion.add]

/-- **A call runs to its end**: the stack is as it was, and what was found is what the expansion of the
selections finds with the fragments that were not open. -/
def Completes (ctx : QueryContext) (scope : Name) (nodes : List Query.Node) (included : Bool)
    (rest : List Task) (e : Expansion) : Prop :=
  ctx.RunsAbove rest.length e
    (e.add (ctx.expand scope nodes included (ctx.unopened e.opened)) rest)

/-- One selection is done, if those inside it are, and those of a fragment that is opened. -/
theorem completes_node (h : e.tasks = .expand scope node included :: rest)
    (hinside : ∀ condition directives selections, node = .inline condition directives selections →
      ∀ scope included, ctx.Completes scope selections included rest
        { e with tasks := tasksOf scope selections included ++ rest })
    (hfragment : ∀ fragment included, (ctx.unopened e.opened).contains fragment.name = true →
      ctx.Completes fragment.condition fragment.selections included (.close :: rest)
        (e.enter fragment included rest)) :
    ctx.Completes scope [node] included rest e := by
  unfold Completes
  cases node with
  | field aliasName name arguments directives selections =>
    rw [expand_field]
    exact runsAbove_of_step h (by rw [step?, h])
  | inline condition directives selections =>
    rw [expand_inline]
    split
    · rename_i happly
      refine (runsAbove_of_step h (by rw [step?, h]; exact if_pos happly)).trans ?_
      exact hinside condition directives selections rfl _ _
    · rename_i happly
      exact runsAbove_of_step h (by rw [step?, h]; exact if_neg happly)
  | spread name directives =>
    cases hfind : ctx.fragments.find? name with
    | none =>
      rw [expand_spread_none hfind]
      exact runsAbove_of_step h (by rw [step?, h]; dsimp only; rw [hfind])
    | some fragment =>
      have hstep := step?_spread h hfind
      rw [expand_spread hfind]
      by_cases hopened : name ∈ e.opened
      · have hnot := mt (contains_unopened_of_find? hfind).1 (not_not_intro hopened)
        rw [if_neg hnot, add_pure_nil]
        rw [if_pos hopened] at hstep
        exact runsAbove_of_step h hstep
      · have hunopened := (contains_unopened_of_find? hfind).2 hopened
        rw [if_pos hunopened]
        rw [if_neg hopened] at hstep
        split at hstep
        · rename_i happly
          rw [if_pos happly]
          obtain rfl : fragment.name = name := Table.nameOf_of_find? hfind
          -- the fragment is opened, expanded and closed again
          have hinner := hfragment fragment (included && ctx.isIncluded directives) hunopened
          refine (runsAbove_of_step h hstep).trans
            ((hinner.mono (Nat.le_succ _)).trans (runsAbove_of_step rfl rfl))
        · rename_i happly
          rw [if_neg happly]
          exact runsAbove_of_step h hstep

/-- **Every call runs to its end.** -/
theorem completes (scope : Name) (nodes : List Query.Node) (included : Bool) (rest : List Task)
    (e : Expansion) (h : e.tasks = tasksOf scope nodes included ++ rest) :
    ctx.Completes scope nodes included rest e := by
  match nodes with
  | [] =>
    unfold Completes
    rw [expand, add_pure_nil, ← show e.tasks = rest from h]
    exact .refl
  | node :: others =>
    -- the first selection is done before the others
    have hnode : ctx.Completes scope [node] included (tasksOf scope others included ++ rest) e :=
      completes_node h (fun _ _ selections _ _ _ => completes _ selections _ _ _ rfl)
        fun fragment _ hunopened => completes _ fragment.selections _ _ _ rfl
    have hothers := completes scope others included rest
      (e.add (ctx.expand scope [node] included (ctx.unopened e.opened))
        (tasksOf scope others included ++ rest)) rfl
    unfold Completes at hnode hothers ⊢
    rw [expand_cons, ← add_add e _ _ (tasksOf scope others included ++ rest)]
    refine (hnode.mono ?_).trans hothers
    rw [List.length_append]
    exact Nat.le_add_left _ _
termination_by ((ctx.unopened e.opened).size, sizeOf nodes)
decreasing_by
  -- selections are smaller than what holds them, and a fragment that is entered is opened
  · rename_i hinline _ _
    subst hinline
    apply Prod.Lex.right
    simp only [List.cons.sizeOf_spec, Query.Node.inline.sizeOf_spec]
    omega
  · exact .left _ _ (Table.size_erase_lt hunopened)
  · apply Prod.Lex.right
    simp only [List.cons.sizeOf_spec]
    omega

/-- **A call returns with the stack as it was**, and with what its expansion finds. -/
theorem returns_iff (h : e.tasks = tasksOf scope nodes included ++ rest) :
    ctx.Returns rest e e' ↔
      e' = e.add (ctx.expand scope nodes included (ctx.unopened e.opened)) rest := by
  have hreturns : ctx.Returns rest e
      (e.add (ctx.expand scope nodes included (ctx.unopened e.opened)) rest) :=
    ⟨completes scope nodes included rest e h, rfl⟩
  constructor
  · intro h'
    exact h'.eq hreturns
  · rintro rfl
    exact hreturns

/-- Each of some selections comes up with the stack as it was at the first of them. -/
theorem exists_runs_sibling {before after : List Query.Node}
    (h : e.tasks = tasksOf scope (before ++ node :: after) included ++ rest) :
    ∃ e₁, ctx.Runs e e₁ ∧ e₁.opened = e.opened ∧
      e₁.tasks = .expand scope node included :: (tasksOf scope after included ++ rest) := by
  have hbefore : e.tasks = tasksOf scope before included ++
      .expand scope node included :: (tasksOf scope after included ++ rest) := by
    simpa [tasksOf] using h
  exact ⟨_, (completes scope before included _ e hbefore).runs, rfl, rfl⟩

/-! ## No endless runs -/

theorem exists_runs_end (e : Expansion) : ∃ e', ctx.Runs e e' ∧ e'.tasks = [] := by
  generalize htasks : e.tasks = tasks
  induction tasks generalizing e with
  | nil => exact ⟨e, .refl, htasks⟩
  | cons task rest ih =>
    obtain ⟨e₁, hfirst, hrest⟩ : ∃ e₁, ctx.Runs e e₁ ∧ e₁.tasks = rest := by
      cases task with
      | expand scope node included =>
        exact ⟨_, (completes scope [node] included rest e htasks).runs, rfl⟩
      | close => exact ⟨_, (runsAbove_of_step htasks (by rw [step?, htasks])).runs, rfl⟩
    obtain ⟨e', hothers, hend⟩ := ih e₁ hrest
    exact ⟨e', hfirst.trans hothers, hend⟩

/-- **No run goes on forever**, from whatever state. -/
theorem wellFounded_step (ctx : QueryContext) :
    WellFounded fun e' e : Expansion => ctx.step? e = some e' := by
  refine ⟨fun e => ?_⟩
  obtain ⟨e', h, hend⟩ := ctx.exists_runs_end e
  induction h using Relation.ReflTransGen.head_induction_on with
  | refl =>
    refine ⟨_, fun e'' hstep => ?_⟩
    rw [step?, hend] at hstep
    cases hstep
  | head hstep _ ih =>
    refine ⟨_, fun e'' hstep' => ?_⟩
    obtain rfl := Option.some.inj (hstep.symm.trans hstep')
    exact ih

/-! ## Balance -/

/-- **Expansion is balanced**: it ends, a call leaves the stack as it was, no fragment is on the stack
twice, and a spread is passed over only inside its own fragment. -/
structure IsBalanced (ctx : QueryContext) : Prop where
  /-- No run goes on forever. -/
  ends : WellFounded fun e' e : Expansion => ctx.step? e = some e'
  /-- A call returns, with the stack as it was and with what `expand` says of it. -/
  returns : ∀ {e e' : Expansion} {scope nodes included rest},
    e.tasks = tasksOf scope nodes included ++ rest → (ctx.Returns rest e e' ↔
      e' = e.add (ctx.expand scope nodes included (ctx.unopened e.opened)) rest)
  nodup : ∀ {e e' : Expansion}, ctx.Runs e e' → e.opened.Nodup → e'.opened.Nodup
  /-- The fragment of a spread is entered if it is not on the stack, and else passed over. -/
  spread : ∀ {e : Expansion} {scope name directives included rest fragment},
    e.tasks = .expand scope (.spread name directives) included :: rest →
    ctx.fragments.find? name = some fragment → ctx.schema.canApply scope fragment.condition = true →
    (name ∉ e.opened ∧
        ctx.step? e = some (e.enter fragment (included && ctx.isIncluded directives) rest)) ∨
      name ∈ e.opened ∧ ctx.step? e = some { e with tasks := rest }
  /-- Each spread of a list of selections is entered, with the stack as it was at the first of them, if
  its fragment was not on the stack then. -/
  siblings : ∀ {e : Expansion} {scope before name directives after included rest fragment},
    e.tasks = tasksOf scope (before ++ .spread name directives :: after) included ++ rest →
    ctx.fragments.find? name = some fragment → ctx.schema.canApply scope fragment.condition = true →
    name ∉ e.opened → ∃ e₁, ctx.Runs e e₁ ∧ e₁.opened = e.opened ∧ ctx.step? e₁ = some
      (e₁.enter fragment (included && ctx.isIncluded directives) (tasksOf scope after included ++ rest))

/-- **Expansion is balanced**, whatever the schema and the fragments are. -/
theorem isBalanced (ctx : QueryContext) : ctx.IsBalanced where
  ends := ctx.wellFounded_step
  returns := returns_iff
  nodup := nodup_of_runs
  spread := fun htasks hfind happly => step?_spread_of_applies htasks hfind happly
  siblings := by
    intro e scope before name directives after included rest fragment htasks hfind happly hopened
    obtain ⟨e₁, hruns, hstack, htasks₁⟩ := exists_runs_sibling htasks
    refine ⟨e₁, hruns, hstack, ?_⟩
    rcases step?_spread_of_applies htasks₁ hfind happly with ⟨-, hstep⟩ | ⟨hmem, -⟩
    · exact hstep
    · exact absurd (hstack ▸ hmem) hopened

end QueryContext

end StructQL
