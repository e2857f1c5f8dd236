import StructQL.Gathering.Restrictions
import StructQL.Proofs.Expansion.Stands

/-!
# Stricter conditions

Two contexts that differ in their conditions only, of which one leaves out all that the other one
does. Expansion by both finds the same occurrences with the same faults, but one keeps fewer of them
included.

* `QueryContext.Stricter`: the two contexts.
* `Site.Under`, `Occurrence.Under`: the same, but included only if the other is.
* `Stricter.rel_expand`: **expansions by both are related.**
* `isIncluded_of_mergeAll`, `isIncluded_of_condition?`: what makes a context stricter.
-/

namespace StructQL

/-- **A context is stricter than another one**: it leaves out all that the other one does, and they
do not differ in anything else that decides about a selection. -/
structure QueryContext.Stricter (strict loose : QueryContext) : Prop where
  schema : strict.schema = loose.schema
  fragments : strict.fragments = loose.fragments
  customDirectives :
    strict.config.allowCustomFieldDirectives = loose.config.allowCustomFieldDirectives
  isIncluded : ∀ directives, strict.isIncluded directives = true →
    loose.isIncluded directives = true

/-- A site with the same selections, which is included only if the other one is. -/
structure Site.Under (site other : Site) : Prop where
  selections : site.selections = other.selections
  included : site.included = true → other.included = true

/-- The same occurrence, which is included only if the other one is. -/
structure Occurrence.Under (o other : Occurrence) : Prop where
  parent : o.parent = other.parent
  aliasName : o.aliasName = other.aliasName
  name : o.name = other.name
  arguments : o.arguments = other.arguments
  directives : o.directives = other.directives
  site : o.site.Under other.site

theorem Site.Under.isBare {site other : Site} (h : site.Under other) :
    site.isBare = other.isBare := by
  unfold Site.isBare
  rw [h.selections]

namespace QueryContext

open Checked List

variable {strict loose : QueryContext} {scope : Name} {o other : Occurrence}

/-! ## What conditions do not decide -/

theorem Stricter.formFaults (h : strict.Stricter loose) (ho : o.Under other) :
    strict.formFaults o = loose.formFaults other := by
  unfold QueryContext.formFaults allowsDirective
  rw [h.schema, h.customDirectives, ho.parent, ho.aliasName, ho.name, ho.arguments, ho.directives]

/-! ## Expansion -/

/-- What is kept by directives in a strict context is kept in a loose one. -/
theorem Stricter.and_isIncluded (h : strict.Stricter loose) {a b : Bool}
    (hab : a = true → b = true) (directives : List Query.Directive)
    (ha : (a && strict.isIncluded directives) = true) :
    (b && loose.isIncluded directives) = true := by
  rw [Bool.and_eq_true] at ha ⊢
  exact ⟨hab ha.1, h.isIncluded directives ha.2⟩

/-- **Expansions by a strict and by a loose context are related**: they find the same occurrences
and the same faults. -/
theorem Stricter.rel_expand (h : strict.Stricter loose) (scope : Name) (nodes : List Query.Node)
    (a b : Bool) (unopened : Table Query.Fragment) (hab : a = true → b = true) :
    Rel (Forall₂ Occurrence.Under) (strict.expand scope nodes a unopened)
      (loose.expand scope nodes b unopened) := by
  match nodes with
  | [] =>
    rw [expand, expand]
    exact .pure .nil
  | node :: rest =>
    refine rel_expand_cons ?_ (h.rel_expand scope rest a b unopened hab)
    cases node with
    | field aliasName name arguments directives selections =>
      rw [expand_field, expand_field]
      exact .pure (.cons ⟨rfl, rfl, rfl, rfl, rfl, rfl, h.and_isIncluded hab directives⟩ .nil)
    | inline condition directives selections =>
      rw [expand_inline, expand_inline, h.schema]
      split
      · exact h.rel_expand _ selections _ _ unopened (h.and_isIncluded hab directives)
      · exact .fault .nil _
    | spread name directives =>
      have hfragments : strict.fragments.find? name = loose.fragments.find? name := by
        rw [h.fragments]
      cases hfind : loose.fragments.find? name with
      | none =>
        rw [expand_spread_none (hfragments.trans hfind), expand_spread_none hfind]
        exact .fault .nil _
      | some fragment =>
        rw [expand_spread (hfragments.trans hfind), expand_spread hfind, h.schema]
        split
        · split
          · exact h.rel_expand _ fragment.selections _ _ (unopened.erase name)
              (h.and_isIncluded hab directives)
          · exact .fault .nil _
        · exact .pure .nil
termination_by (unopened.size, sizeOf nodes)
decreasing_by
  -- an inline fragment and the rest are smaller, and a fragment that is spread is opened for good
  · apply Prod.Lex.right
    simp only [List.cons.sizeOf_spec, Query.Node.inline.sizeOf_spec]
    omega
  · exact .left _ _ (Table.size_erase_lt ‹_›)
  · apply Prod.Lex.right
    simp only [List.cons.sizeOf_spec]
    omega

theorem Stricter.rel_occurrences (h : strict.Stricter loose) (scope : Name) {site other : Site}
    (hs : site.Under other) :
    Rel (Forall₂ Occurrence.Under) (strict.occurrences scope site)
      (loose.occurrences scope other) := by
  unfold occurrences
  rw [hs.selections, h.fragments]
  exact h.rel_expand scope other.selections _ _ loose.fragments hs.included

/-! ## Contexts of which one is stricter -/

/-- The settings by which conditions are ignored leave out nothing. -/
theorem isIncluded_of_mergeAll (h : loose.config.conditionPolicy = .mergeAll)
    (directives : List Query.Directive) : loose.isIncluded directives = true := by
  unfold isIncluded
  simp [h]

/-- A context that decides all conditions that another one decides, in the same way, leaves out what
stands under the directives that the other one does. -/
theorem leavesOut_of_condition?
    (h : ∀ value b, loose.condition? value = some b → strict.condition? value = some b)
    {d : Query.Directive} (hd : loose.leavesOut d = true) : strict.leavesOut d = true := by
  have hdecided : ∀ b, (d.argument? "if").bind loose.condition? = some b →
      (d.argument? "if").bind strict.condition? = some b := by
    intro b hb
    obtain ⟨value, hvalue, hb⟩ := Option.bind_eq_some_iff.1 hb
    rw [hvalue]
    exact h value b hb
  unfold leavesOut at hd ⊢
  simp only [Bool.or_eq_true, Bool.and_eq_true, decide_eq_true_eq] at hd ⊢
  rcases hd with ⟨hname, hvalue⟩ | ⟨hname, hvalue⟩
  · exact .inl ⟨hname, hdecided true hvalue⟩
  · exact .inr ⟨hname, hdecided false hvalue⟩

/-- **It keeps no more than the other one**, if it heeds conditions at all. -/
theorem isIncluded_of_condition? (hpolicy : strict.config.conditionPolicy = .evaluateThenMerge)
    (h : ∀ value b, loose.condition? value = some b → strict.condition? value = some b)
    (directives : List Query.Directive) (hkept : strict.isIncluded directives = true) :
    loose.isIncluded directives = true := by
  unfold isIncluded at hkept ⊢
  simp only [hpolicy, reduceCtorEq, decide_false, Bool.false_or, List.all_eq_true] at hkept
  rw [Bool.or_eq_true, List.all_eq_true]
  right
  intro d hd
  have hnot := hkept d hd
  rw [Bool.not_eq_true', Bool.eq_false_iff] at hnot ⊢
  intro hleft
  exact hnot (leavesOut_of_condition? h hleft)

end QueryContext

end StructQL
