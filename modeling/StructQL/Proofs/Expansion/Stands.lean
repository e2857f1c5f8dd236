import Mathlib.Data.List.Infix
import StructQL.Expansion.Occurrence
import StructQL.Proofs.Fault.Related

/-!
# What stands in selections

The selections that stand among others, on their own level or in fragments, said without scopes,
tables of unopened fragments and faults.

* `Stands`: a selection stands under the conditions of the fragments around it.
* `innermost`: the condition that stands nearest to it.
* `Stands.exists_nodup`: everything is reached without entering a fragment twice.
* `stands_of_mem_expand`, `exists_occurrence_of_stands`: **the occurrences of an expansion without faults
  are the fields that stand in the selections**, each on its innermost condition.
-/

namespace StructQL

/-- The condition nearest to a field, of the conditions around it with the outermost first. -/
def innermost (conditions : List Name) (scope : Name) : Name := conditions.getLast?.getD scope

/-- The field as it is written. -/
def Occurrence.node (o : Occurrence) : Query.Node :=
  .field o.aliasName o.name o.arguments o.directives o.site.selections

/-- Directives of any kind. -/
def anyDirectives (_ : List Query.Directive) : Prop := True

/-- **A selection stands among others**, on their own level or in fragments whose directives are
kept. Listed are the conditions of the fragments around it and the names of those that are spread,
the outermost first. -/
inductive Stands (fragments : Table Query.Fragment) (keep : List Query.Directive → Prop) :
    List Query.Node → List Name → List Name → Query.Node → Prop where
  | here {nodes : List Query.Node} {node : Query.Node} :
    node ∈ nodes → Stands fragments keep nodes [] [] node
  | inline {nodes selections : List Query.Node} {condition : Option Name}
    {directives : List Query.Directive} {conditions names : List Name} {node : Query.Node} :
    .inline condition directives selections ∈ nodes → keep directives →
    Stands fragments keep selections conditions names node →
    Stands fragments keep nodes (condition.toList ++ conditions) names node
  | spread {nodes : List Query.Node} {name : Name} {directives : List Query.Directive}
    {fragment : Query.Fragment} {conditions names : List Name} {node : Query.Node} :
    .spread name directives ∈ nodes → keep directives →
    fragments.find? name = some fragment →
    Stands fragments keep fragment.selections conditions names node →
    Stands fragments keep nodes (fragment.condition :: conditions) (name :: names) node

section

variable {fragments : Table Query.Fragment} {keep : List Query.Directive → Prop}
  {nodes : List Query.Node} {conditions names : List Name} {node : Query.Node}

/-! ## No fragment twice -/

/-- The way to a selection goes on from each fragment on it. -/
theorem Stands.from_fragment (h : Stands fragments keep nodes conditions names node) {name : Name} :
    name ∈ names → ∃ fragment cs ns, fragments.find? name = some fragment ∧
      Stands fragments keep fragment.selections cs ns node ∧
      (fragment.condition :: cs) <:+ conditions ∧ (name :: ns) <:+ names := by
  induction h with
  | here _ => intro hm; cases hm
  | inline _ _ _ ih =>
    intro hm
    obtain ⟨fragment, cs, ns, hfind, hs, hcs, hns⟩ := ih hm
    exact ⟨fragment, cs, ns, hfind, hs, hcs.trans (List.suffix_append _ _), hns⟩
  | @spread _ first _ fragment cs ns _ _ _ hfind hs ih =>
    intro hm
    rcases List.mem_cons.1 hm with rfl | hm
    · exact ⟨fragment, cs, ns, hfind, hs, List.suffix_refl _, List.suffix_refl _⟩
    · obtain ⟨other, cs', ns', hfind', hs', hcs, hns⟩ := ih hm
      exact ⟨other, cs', ns', hfind', hs', hcs.trans (List.suffix_cons _ _),
        hns.trans (List.suffix_cons _ _)⟩

theorem getLast?_of_suffix {α : Type} {a : α} {l m : List α} (h : (a :: l) <:+ m) :
    m.getLast? = (a :: l).getLast? := by
  obtain ⟨front, rfl⟩ := h
  rw [List.getLast?_append]
  simp [List.getLast?_cons]

/-- **Everything is reached without entering a fragment twice.** What lay between two entries of
a fragment is left out, so that the innermost condition stays. -/
theorem Stands.exists_nodup (h : Stands fragments keep nodes conditions names node) :
    ∃ cs ns, Stands fragments keep nodes cs ns node ∧ ns.Nodup ∧ ns ⊆ names ∧
      cs.getLast? = conditions.getLast? := by
  induction h with
  | here hmem => exact ⟨[], [], .here hmem, List.nodup_nil, List.Subset.refl _, rfl⟩
  | @inline _ _ condition _ _ _ _ hmem hk _ ih =>
    obtain ⟨cs, ns, hs, hnd, hsub, hlast⟩ := ih
    refine ⟨condition.toList ++ cs, ns, .inline hmem hk hs, hnd, hsub, ?_⟩
    rw [List.getLast?_append, List.getLast?_append, hlast]
  | @spread _ name _ fragment _ _ _ hmem hk hfind _ ih =>
    obtain ⟨cs, ns, hs, hnd, hsub, hlast⟩ := ih
    by_cases hm : name ∈ ns
    · -- the fragment is entered again further in: go on from there at once
      obtain ⟨again, cs', ns', hfind', hs', hcs, hns⟩ := hs.from_fragment hm
      obtain rfl : fragment = again := Option.some.inj (hfind.symm.trans hfind')
      refine ⟨fragment.condition :: cs', name :: ns', .spread hmem hk hfind hs',
        hnd.sublist hns.sublist, ?_, ?_⟩
      · exact fun n hn => List.mem_cons_of_mem _ (hsub (hns.subset hn))
      -- the innermost condition is that fragment's or stands further in
      · have hinner : cs.getLast? = (fragment.condition :: cs').getLast? := getLast?_of_suffix hcs
        rw [List.getLast?_cons, List.getLast?_cons, ← hlast, hinner, List.getLast?_cons]
        rfl
    · refine ⟨fragment.condition :: cs, name :: ns, .spread hmem hk hfind hs,
        List.nodup_cons.2 ⟨hm, hnd⟩, List.cons_subset_cons _ hsub, ?_⟩
      rw [List.getLast?_cons, List.getLast?_cons, hlast]

theorem innermost_cons (condition : Name) (conditions : List Name) (scope : Name) :
    innermost (condition :: conditions) scope = innermost conditions condition := by
  rw [innermost, List.getLast?_cons]
  rfl

theorem innermost_toList_append (condition : Option Name) (conditions : List Name)
    (scope : Name) :
    innermost (condition.toList ++ conditions) scope =
      innermost conditions (condition.getD scope) := by
  cases condition with
  | none => rfl
  | some condition => exact innermost_cons condition conditions scope

end

namespace QueryContext

variable {ctx : QueryContext} {nodes : List Query.Node} {conditions names : List Name}
  {scope : Name} {included : Bool} {unopened : Table Query.Fragment}

/-! ## Expansion -/

/-- A list of selections is expanded selection by selection. -/
theorem expand_cons (node : Query.Node) (rest : List Query.Node) :
    ctx.expand scope (node :: rest) included unopened = (do
      let inner ← ctx.expand scope [node] included unopened
      let others ← ctx.expand scope rest included unopened
      return inner ++ others) := by
  cases node with
  | field => simp [expand, bind, pure]
  | inline condition directives selections =>
    by_cases h : ctx.schema.canApply scope (condition.getD scope) = true <;>
      simp [expand, h, bind, pure]
  | spread name directives =>
    simp only [expand]
    split
    · simp [bind, pure]
    · rename_i fragment _
      by_cases ho : unopened.contains name = true
      · by_cases h : ctx.schema.canApply scope fragment.condition = true <;>
          simp [ho, h, bind, pure]
      · simp [ho, bind, pure]

/-- Two expansions are related if they are selection by selection. -/
theorem rel_expand_cons {O : Occurrence → Occurrence → Prop} {other : QueryContext}
    {scope scope' : Name} {node node' : Query.Node} {rest rest' : List Query.Node} {a b : Bool}
    {unopened unopened' : Table Query.Fragment}
    (hnode : Checked.Rel (List.Forall₂ O) (ctx.expand scope [node] a unopened)
      (other.expand scope' [node'] b unopened'))
    (hrest : Checked.Rel (List.Forall₂ O) (ctx.expand scope rest a unopened)
      (other.expand scope' rest' b unopened')) :
    Checked.Rel (List.Forall₂ O) (ctx.expand scope (node :: rest) a unopened)
      (other.expand scope' (node' :: rest') b unopened') := by
  rw [expand_cons, @expand_cons other]
  exact .bind hnode fun inner inner' hinner => .bind hrest fun others others' hothers =>
    .pure (List.rel_append hinner hothers)

theorem mem_expand {o : Occurrence} :
    o ∈ (ctx.expand scope nodes included unopened).value ↔
      ∃ node ∈ nodes, o ∈ (ctx.expand scope [node] included unopened).value := by
  induction nodes with
  | nil => simp [expand]
  | cons node rest ih =>
    rw [expand_cons]
    simp [ih]

theorem mem_faults_expand {f : Fault} :
    f ∈ (ctx.expand scope nodes included unopened).faults ↔
      ∃ node ∈ nodes, f ∈ (ctx.expand scope [node] included unopened).faults := by
  induction nodes with
  | nil => simp [expand]
  | cons node rest ih =>
    rw [expand_cons]
    simp [ih]

theorem faults_expand_eq_nil :
    (ctx.expand scope nodes included unopened).faults = [] ↔
      ∀ node ∈ nodes, (ctx.expand scope [node] included unopened).faults = [] := by
  simp only [List.eq_nil_iff_forall_not_mem]
  constructor
  · intro h node hnode f hf
    exact h f (mem_faults_expand.2 ⟨node, hnode, hf⟩)
  · intro h f hf
    obtain ⟨node, hnode, hf⟩ := mem_faults_expand.1 hf
    exact h node hnode f hf

/-- What has no directives is kept. -/
theorem isIncluded_nil : ctx.isIncluded [] = true := by simp [isIncluded]

theorem expand_field (aliasName : Option Name) (name : Name) (arguments : List Query.Argument)
    (directives : List Query.Directive) (selections : List Query.Node) :
    ctx.expand scope [.field aliasName name arguments directives selections] included unopened =
      pure [⟨scope, aliasName, name, arguments, directives,
        ⟨selections, included && ctx.isIncluded directives⟩⟩] := by
  simp [expand, bind, pure]

theorem expand_inline (condition : Option Name) (directives : List Query.Directive)
    (selections : List Query.Node) :
    ctx.expand scope [.inline condition directives selections] included unopened =
      if ctx.schema.canApply scope (condition.getD scope) then
        ctx.expand (condition.getD scope) selections (included && ctx.isIncluded directives)
          unopened
      else Checked.fault [] (.invalidFragmentTarget (condition.getD scope) scope) := by
  simp only [expand]
  split <;> simp [bind, pure]

theorem expand_spread {name : Name} {fragment : Query.Fragment}
    (h : ctx.fragments.find? name = some fragment) (directives : List Query.Directive) :
    ctx.expand scope [.spread name directives] included unopened =
      if unopened.contains name then
        if ctx.schema.canApply scope fragment.condition then
          ctx.expand fragment.condition fragment.selections
            (included && ctx.isIncluded directives) (unopened.erase name)
        else Checked.fault [] (.invalidFragmentTarget fragment.condition scope)
      else pure [] := by
  simp only [expand, h]
  split
  · split <;> simp [bind, pure]
  · simp [bind, pure]

theorem expand_spread_none {name : Name} (h : ctx.fragments.find? name = none)
    (directives : List Query.Directive) :
    ctx.expand scope [.spread name directives] included unopened =
      Checked.fault [] (.unknownFragment name) := by
  simp [expand, h, bind, pure]

/-- **An occurrence is a field that stands in the selections**, and an included one is in no
fragment that conditions leave out. -/
theorem stands_of_mem_expand (scope : Name) (nodes : List Query.Node) (included : Bool)
    (unopened : Table Query.Fragment) (o : Occurrence)
    (ho : o ∈ (ctx.expand scope nodes included unopened).value) :
    ∃ conditions names, o.parent = innermost conditions scope ∧
      Stands ctx.fragments anyDirectives nodes conditions names o.node ∧
      (o.isIncluded = true → included = true ∧ ctx.isIncluded o.directives = true ∧
        Stands ctx.fragments (ctx.isIncluded · = true) nodes conditions names o.node) := by
  obtain ⟨node, hnode, ho⟩ := mem_expand.1 ho
  match node with
  | .field aliasName name arguments directives selections =>
    rw [expand_field] at ho
    obtain rfl := List.mem_singleton.1 ho
    refine ⟨[], [], rfl, .here hnode, fun hinc => ?_⟩
    have hboth : (included && ctx.isIncluded directives) = true := hinc
    rw [Bool.and_eq_true] at hboth
    exact ⟨hboth.1, hboth.2, .here hnode⟩
  | .inline condition directives selections =>
    rw [expand_inline] at ho
    split at ho
    · obtain ⟨cs, ns, hp, hs, hkept⟩ := stands_of_mem_expand _ _ _ _ o ho
      refine ⟨condition.toList ++ cs, ns, ?_, .inline hnode trivial hs, fun hinc => ?_⟩
      · rw [hp, innermost_toList_append]
      · obtain ⟨hboth, ho, hs⟩ := hkept hinc
        rw [Bool.and_eq_true] at hboth
        exact ⟨hboth.1, ho, .inline hnode hboth.2 hs⟩
    · cases ho
  | .spread name directives =>
    cases hfind : ctx.fragments.find? name with
    | none =>
      rw [expand_spread_none hfind] at ho
      cases ho
    | some fragment =>
      rw [expand_spread hfind] at ho
      split at ho
      · rename_i hopen
        split at ho
        · obtain ⟨cs, ns, hp, hs, hkept⟩ := stands_of_mem_expand _ _ _ _ o ho
          refine ⟨fragment.condition :: cs, name :: ns, ?_, .spread hnode trivial hfind hs,
            fun hinc => ?_⟩
          · rw [hp, innermost_cons]
          · obtain ⟨hboth, ho, hs⟩ := hkept hinc
            rw [Bool.and_eq_true] at hboth
            exact ⟨hboth.1, ho, .spread hnode hboth.2 hfind hs⟩
        · cases ho
      · cases ho
termination_by (unopened.size, sizeOf nodes)
decreasing_by
  -- an inline fragment is smaller, and a fragment that is spread is opened for good
  · apply Prod.Lex.right
    have := List.sizeOf_lt_of_mem hnode
    simp only [Query.Node.inline.sizeOf_spec] at this
    omega
  · exact .left _ _ (Table.size_erase_lt ‹_›)

/-- **What stands in selections is met by their expansion**, in the scope of its innermost condition
and with the fragments on the way opened, unless there are faults or a fragment on the way is open
already. -/
theorem exists_expand_of_stands {keep : List Query.Directive → Prop} {node : Query.Node}
    (h : Stands ctx.fragments keep nodes conditions names node) :
    ∀ scope included unopened, names.Nodup → (∀ name ∈ names, unopened.contains name = true) →
      (ctx.expand scope nodes included unopened).faults = [] →
      ∃ inner unopened', (included = true → (∀ d, keep d → ctx.isIncluded d = true) →
          inner = true) ∧
        (∀ name, unopened.contains name = true → name ∉ names →
          unopened'.contains name = true) ∧
        (ctx.expand (innermost conditions scope) [node] inner unopened').faults = [] ∧
        ∀ o ∈ (ctx.expand (innermost conditions scope) [node] inner unopened').value,
          o ∈ (ctx.expand scope nodes included unopened).value := by
  induction h with
  | here hmem =>
    intro scope included unopened _ _ hfaults
    refine ⟨included, unopened, fun hinc _ => hinc, fun _ hopen _ => hopen,
      faults_expand_eq_nil.1 hfaults _ hmem, fun o ho => mem_expand.2 ⟨_, hmem, ho⟩⟩
  | @inline _ selections condition directives cs ns _ hmem hk _ ih =>
    intro scope included unopened hnd hopen hfaults
    have hnode := faults_expand_eq_nil.1 hfaults _ hmem
    rw [expand_inline] at hnode
    split at hnode
    · rename_i happly
      obtain ⟨inner, unopened', hinner, hstill, hnone, hsub⟩ := ih _ _ unopened hnd hopen hnode
      rw [innermost_toList_append]
      refine ⟨inner, unopened', fun hinc hkeep => ?_, hstill, hnone, fun o ho => ?_⟩
      · exact hinner (by rw [hinc, hkeep _ hk]; rfl) hkeep
      · refine mem_expand.2 ⟨_, hmem, ?_⟩
        rw [expand_inline, if_pos happly]
        exact hsub o ho
    · cases hnode
  | @spread _ name directives fragment cs ns _ hmem hk hfind _ ih =>
    intro scope included unopened hnd hopen hfaults
    rw [List.nodup_cons] at hnd
    have hname := hopen name List.mem_cons_self
    have hnode := faults_expand_eq_nil.1 hfaults _ hmem
    rw [expand_spread hfind, if_pos hname] at hnode
    split at hnode
    · rename_i happly
      -- no name is listed twice, so the fragments further in stay unopened
      have hrest : ∀ n ∈ ns, (unopened.erase name).contains n = true := fun n hn =>
        Table.contains_erase (hopen n (List.mem_cons_of_mem _ hn)) fun he => hnd.1 (he ▸ hn)
      obtain ⟨inner, unopened', hinner, hstill, hnone, hsub⟩ :=
        ih _ _ (unopened.erase name) hnd.2 hrest hnode
      rw [innermost_cons]
      refine ⟨inner, unopened', fun hinc hkeep => ?_, fun n hn hnot => ?_, hnone, fun o ho => ?_⟩
      · exact hinner (by rw [hinc, hkeep _ hk]; rfl) hkeep
      · rw [List.mem_cons, not_or] at hnot
        exact hstill n (Table.contains_erase hn hnot.1) hnot.2
      · refine mem_expand.2 ⟨_, hmem, ?_⟩
        rw [expand_spread hfind, if_pos hname, if_pos happly]
        exact hsub o ho
    · cases hnode

variable {keep : List Query.Directive → Prop} {site : Site}

/-- All that stands in the selections of a site is met by their expansion, if there are no
faults. -/
theorem exists_expand_of_site {node : Query.Node}
    (h : Stands ctx.fragments keep site.selections conditions names node)
    (hfaults : (ctx.occurrences scope site).faults = []) :
    ∃ inner unopened, (site.included = true → (∀ d, keep d → ctx.isIncluded d = true) →
        inner = true) ∧
      (∀ name, ctx.fragments.contains name = true → name ∉ names →
        unopened.contains name = true) ∧
      (ctx.expand (innermost conditions scope) [node] inner unopened).faults = [] ∧
      ∀ o ∈ (ctx.expand (innermost conditions scope) [node] inner unopened).value,
        o ∈ (ctx.occurrences scope site).value := by
  -- expansion opens no fragment twice, so the way to the selection must not either
  obtain ⟨cs, ns, hs, hnd, hsub, hlast⟩ := h.exists_nodup
  have hopen : ∀ name ∈ ns, ctx.fragments.contains name = true := fun name hn => by
    obtain ⟨fragment, _, _, hfind, _⟩ := hs.from_fragment hn
    exact Table.contains_of_find? hfind
  have hinner : innermost conditions scope = innermost cs scope := by
    rw [innermost, innermost, hlast]
  rw [hinner]
  obtain ⟨inner, unopened, hinc, hstill, hnone, hmem⟩ :=
    exists_expand_of_stands hs scope site.included ctx.fragments hnd hopen hfaults
  exact ⟨inner, unopened, hinc, fun name hn hnot => hstill name hn fun hm => hnot (hsub hm),
    hnone, hmem⟩

/-- **A field that stands in the selections of a site is an occurrence**, unless there are
faults. -/
theorem exists_occurrence_of_stands {aliasName : Option Name} {name : Name}
    {arguments : List Query.Argument} {directives : List Query.Directive}
    {selections : List Query.Node}
    (h : Stands ctx.fragments keep site.selections conditions names
      (.field aliasName name arguments directives selections))
    (hfaults : (ctx.occurrences scope site).faults = []) :
    ∃ o ∈ (ctx.occurrences scope site).value,
      o.node = .field aliasName name arguments directives selections ∧
      o.parent = innermost conditions scope ∧
      (site.included = true → (∀ d, keep d → ctx.isIncluded d = true) →
        ctx.isIncluded directives = true → o.isIncluded = true) := by
  obtain ⟨inner, unopened, hinc, -, -, hmem⟩ := exists_expand_of_site h hfaults
  rw [expand_field] at hmem
  refine ⟨_, hmem _ (List.mem_singleton_self _), rfl, rfl, fun hsite hkeep hkept => ?_⟩
  rw [Occurrence.isIncluded, hinc hsite hkeep, hkept]
  rfl

end QueryContext

end StructQL
