import StructQL.Proofs.Expansion.Alike
import StructQL.Proofs.Expansion.FragmentCycle

/-!
# Fragments written out

A spread of a fragment stands for an inline fragment with the fragment's condition and the directives
of the spread, in which the fragment's own selections are written out in the same way.

* `Query.Unfolds`: selections with all fragments written out. A spread of an unknown fragment stays.
* `exists_unfolds`: **selections can be written out** where no fragment leads back to itself.
* `Unfolds.eq`: in one way only.
* `rel_expand_unfolded`: **they are expanded to the same fields with the same faults.**
-/

namespace StructQL

namespace Query

/-- **The selections with all fragments written out.** -/
inductive Unfolds (fragments : Table Fragment) : List Node → List Node → Prop where
  | nil : Unfolds fragments [] []
  | field {aliasName : Option Name} {name : Name} {arguments : List Argument}
    {directives : List Directive} {selections written rest others : List Node} :
    Unfolds fragments selections written → Unfolds fragments rest others →
    Unfolds fragments (.field aliasName name arguments directives selections :: rest)
      (.field aliasName name arguments directives written :: others)
  | inline {condition : Option Name} {directives : List Directive}
    {selections written rest others : List Node} :
    Unfolds fragments selections written → Unfolds fragments rest others →
    Unfolds fragments (.inline condition directives selections :: rest)
      (.inline condition directives written :: others)
  | spread {name : Name} {directives : List Directive} {fragment : Fragment}
    {written rest others : List Node} :
    fragments.find? name = some fragment → Unfolds fragments fragment.selections written →
    Unfolds fragments rest others →
    Unfolds fragments (.spread name directives :: rest)
      (.inline (some fragment.condition) directives written :: others)
  | unknown {name : Name} {directives : List Directive} {rest others : List Node} :
    fragments.find? name = none → Unfolds fragments rest others →
    Unfolds fragments (.spread name directives :: rest) (.spread name directives :: others)

variable {fragments : Table Fragment} {nodes written other : List Node} {name : Name}

/-- **Selections are written out in one way only.** -/
theorem Unfolds.eq (h : Unfolds fragments nodes written) (h' : Unfolds fragments nodes other) :
    written = other := by
  induction h generalizing other with
  | nil =>
    cases h'
    rfl
  | field _ _ ihs ihr =>
    cases h' with
    | field hs hr => rw [ihs hs, ihr hr]
  | inline _ _ ihs ihr =>
    cases h' with
    | inline hs hr => rw [ihs hs, ihr hr]
  | spread hfind _ _ ihs ihr =>
    cases h' with
    | spread hagain hs hr =>
      obtain rfl := Option.some.inj (hfind.symm.trans hagain)
      rw [ihs hs, ihr hr]
    | unknown hnone _ => cases hfind.symm.trans hnone
  | unknown hnone _ ih =>
    cases h' with
    | spread hfind _ _ => cases hfind.symm.trans hnone
    | unknown _ hr => rw [ih hr]

/-- Selections can be written out if the fragments that they spread can be. -/
theorem exists_unfolds_of_spreads (nodes : List Node)
    (h : ∀ name ∈ spreads nodes, ∀ fragment, fragments.find? name = some fragment →
      ∃ written, Unfolds fragments fragment.selections written) :
    ∃ written, Unfolds fragments nodes written := by
  match nodes with
  | [] => exact ⟨[], .nil⟩
  | .field aliasName name arguments directives selections :: rest =>
    obtain ⟨written, hs⟩ := exists_unfolds_of_spreads selections fun other hother =>
      h other (mem_spreads_field.2 (.inl hother))
    obtain ⟨others, hr⟩ := exists_unfolds_of_spreads rest fun other hother =>
      h other (mem_spreads_field.2 (.inr hother))
    exact ⟨_, .field hs hr⟩
  | .inline condition directives selections :: rest =>
    obtain ⟨written, hs⟩ := exists_unfolds_of_spreads selections fun other hother =>
      h other (mem_spreads_inline.2 (.inl hother))
    obtain ⟨others, hr⟩ := exists_unfolds_of_spreads rest fun other hother =>
      h other (mem_spreads_inline.2 (.inr hother))
    exact ⟨_, .inline hs hr⟩
  | .spread name directives :: rest =>
    obtain ⟨others, hr⟩ := exists_unfolds_of_spreads rest fun other hother =>
      h other (mem_spreads_spread.2 (.inr hother))
    cases hfind : fragments.find? name with
    | none => exact ⟨_, .unknown hfind hr⟩
    | some fragment =>
      obtain ⟨written, hs⟩ := h name (mem_spreads_spread.2 (.inl rfl)) fragment hfind
      exact ⟨_, .spread hfind hs hr⟩

/-- **All selections can be written out** where no fragment leads back to itself. -/
theorem exists_unfolds (hc : Acyclic fragments) (nodes : List Node) :
    ∃ written, Unfolds fragments nodes written := by
  have hfragment : ∀ name fragment, fragments.find? name = some fragment →
      ∃ written, Unfolds fragments fragment.selections written := by
    intro name
    -- what a fragment refers to comes before it
    induction name using hc.wellFounded.induction with
    | _ name ih =>
      intro fragment hfind
      refine exists_unfolds_of_spreads _ fun other hother => ih other ?_
      exact refersTo_iff.2 ⟨fragment, hfind, hother⟩
  exact exists_unfolds_of_spreads nodes fun name _ => hfragment name

theorem keepsBare_unfolds : KeepsBare (Unfolds fragments) := by
  intro nodes written h
  cases h <;> simp

/-- **No fragment is left to be entered**: what is written out spreads unknown fragments only. -/
theorem Unfolds.find?_eq_none (h : Unfolds fragments nodes written) (hname : name ∈ spreads written) :
    fragments.find? name = none := by
  induction h with
  | nil =>
    rw [spreads_nil] at hname
    cases hname
  | field _ _ ihs ihr => exact (mem_spreads_field.1 hname).elim ihs ihr
  | inline _ _ ihs ihr => exact (mem_spreads_inline.1 hname).elim ihs ihr
  | spread _ _ _ ihs ihr => exact (mem_spreads_inline.1 hname).elim ihs ihr
  | unknown hnone _ ih => exact (mem_spreads_spread.1 hname).elim (fun he => he ▸ hnone) ih

/-! ## Documents -/

/-- **The document with all fragments written out**, in operations and in fragments. -/
def Document.Unfolds (d written : Document) : Prop := d.Alike (Query.Unfolds d.fragmentTable) written

variable {d d' : Document}

theorem exists_forall₂ {α β : Type} {R : α → β → Prop} (h : ∀ a, ∃ b, R a b) (l : List α) :
    ∃ m, List.Forall₂ R l m := by
  induction l with
  | nil => exact ⟨[], .nil⟩
  | cons a l ih =>
    obtain ⟨b, hab⟩ := h a
    obtain ⟨m, hlm⟩ := ih
    exact ⟨b :: m, .cons hab hlm⟩

/-- **A document is written out in exactly one way** if no fragment leads back to itself. -/
theorem existsUnique_unfolds (hc : Acyclic d.fragmentTable) : ∃! written, d.Unfolds written := by
  have hoperation : ∀ operation : Operation,
      ∃ written, operation.Alike (Query.Unfolds d.fragmentTable) written := fun operation =>
    (exists_unfolds hc operation.selections).imp' _ fun _ hs => .mk hs
  have hfragment : ∀ fragment : Fragment,
      ∃ written, fragment.Alike (Query.Unfolds d.fragmentTable) written := fun fragment =>
    (exists_unfolds hc fragment.selections).imp' _ fun _ hs => .mk hs
  obtain ⟨operations, hoperations⟩ := exists_forall₂ hoperation d.operations
  obtain ⟨fragments, hfragments⟩ := exists_forall₂ hfragment d.fragments
  refine ⟨⟨operations, fragments⟩, ⟨hoperations, hfragments⟩, ?_⟩
  rintro ⟨operations', fragments'⟩ ⟨hoperations', hfragments'⟩
  congr 1
  · refine Relator.RightUnique.forall₂ ?_ hoperations' hoperations
    rintro operation _ _ ⟨hs⟩ ⟨hs'⟩
    rw [hs.eq hs']
  · refine Relator.RightUnique.forall₂ ?_ hfragments' hfragments
    rintro fragment _ _ ⟨hs⟩ ⟨hs'⟩
    rw [hs.eq hs']

variable {scope : Name} {selections : List Node}

/-- No fragment of a document that is written out leads to another one. -/
theorem Document.Unfolds.acyclic {written : Document} (h : d.Unfolds written) :
    Acyclic written.fragmentTable := by
  intro name hcycle
  -- a fragment that is referred to is not defined, so that it refers to nothing itself
  have hnone : ∀ name other, RefersTo written.fragmentTable name other →
      written.fragmentTable.find? other = none := by
    intro name other hrefers
    obtain ⟨fragment, hfind, hspread⟩ := refersTo_iff.1 hrefers
    obtain ⟨before, -, ⟨hs⟩⟩ := h.fragmentTable.exists_find?_left hfind
    exact h.fragmentTable.find?_eq_none_iff.1 (hs.find?_eq_none hspread)
  obtain ⟨first, hfirst, -⟩ := Relation.TransGen.head'_iff.1 hcycle
  obtain ⟨last, -, hlast⟩ := Relation.TransGen.tail'_iff.1 hcycle
  obtain ⟨fragment, hfind, -⟩ := refersTo_iff.1 hfirst
  rw [hnone last name hlast] at hfind
  cases hfind

end Query

/-! ## Expansion -/

section

variable {fragments : Table Query.Fragment} {nodes rest selections : List Query.Node} {name : Name}

theorem Reaches.mono {outer : List Query.Node} (h : Reaches fragments nodes name)
    (hsub : nodes ⊆ outer) : Reaches fragments outer name := by
  obtain ⟨nested, first, hs, hl⟩ := h
  exact ⟨nested, first, hs.mono hsub, hl⟩

theorem Reaches.of_inline {condition : Option Name} {directives : List Query.Directive}
    (h : Reaches fragments selections name) :
    Reaches fragments (.inline condition directives selections :: rest) name := by
  obtain ⟨nested, first, hs, hl⟩ := h
  exact ⟨nested, first, .inline List.mem_cons_self hs, hl⟩

theorem Reaches.of_spread {first : Name} {directives : List Query.Directive}
    {fragment : Query.Fragment} (hfind : fragments.find? first = some fragment)
    (h : Reaches fragments fragment.selections name) :
    Reaches fragments (.spread first directives :: rest) name := by
  obtain ⟨nested, second, hs, hl⟩ := h
  exact ⟨false, first, .spread List.mem_cons_self, .head ⟨nested, fragment, hfind, hs⟩ hl⟩

/-- The selections of a fragment do not lead back to it. -/
theorem Acyclic.ne_of_reaches (hc : Acyclic fragments) {first : Name} {fragment : Query.Fragment}
    (hfind : fragments.find? first = some fragment)
    (h : Reaches fragments fragment.selections name) : name ≠ first := by
  rintro rfl
  obtain ⟨nested, second, hs, hl⟩ := h
  exact hc name (.head' ⟨nested, fragment, hfind, hs⟩ hl)

/-- **All fragments to which the selections lead may be entered.** -/
def MayEnter (fragments : Table Query.Fragment) (nodes : List Query.Node)
    (unopened : Table Query.Fragment) : Prop :=
  ∀ name, Reaches fragments nodes name → fragments.contains name = true →
    unopened.contains name = true

variable {unopened : Table Query.Fragment} {node : Query.Node}

theorem mayEnter_all (nodes : List Query.Node) : MayEnter fragments nodes fragments :=
  fun _ _ hdefined => hdefined

theorem MayEnter.tail (h : MayEnter fragments (node :: rest) unopened) :
    MayEnter fragments rest unopened :=
  fun name hreach => h name (hreach.mono (List.subset_cons_self _ _))

theorem MayEnter.of_inline {condition : Option Name} {directives : List Query.Directive}
    (h : MayEnter fragments (.inline condition directives selections :: rest) unopened) :
    MayEnter fragments selections unopened :=
  fun name hreach => h name hreach.of_inline

/-- A fragment that is spread may be entered. -/
theorem MayEnter.contains {first : Name} {directives : List Query.Directive}
    {fragment : Query.Fragment} (hfind : fragments.find? first = some fragment)
    (h : MayEnter fragments (.spread first directives :: rest) unopened) :
    unopened.contains first = true :=
  h first ⟨false, first, .spread List.mem_cons_self, .refl⟩ (Table.contains_of_find? hfind)

/-- A fragment is open inside itself, but its selections do not lead back to it. -/
theorem MayEnter.of_spread (hc : Acyclic fragments) {first : Name}
    {directives : List Query.Directive} {fragment : Query.Fragment}
    (hfind : fragments.find? first = some fragment)
    (h : MayEnter fragments (.spread first directives :: rest) unopened) :
    MayEnter fragments fragment.selections (unopened.erase first) := by
  intro name hreach hdefined
  exact Table.contains_erase (h name (hreach.of_spread hfind) hdefined)
    (hc.ne_of_reaches hfind hreach)

end

namespace QueryContext

open Checked List Query

variable {ctx : QueryContext} {fragments : Table Fragment}

/-- **What is written out is expanded alike**, as long as all fragments that the selections lead to
may be entered. -/
theorem rel_expand_unfolded (hc : Acyclic ctx.fragments)
    (hunknown : ∀ name, ctx.fragments.find? name = none → fragments.find? name = none)
    {nodes written : List Node} (h : Unfolds ctx.fragments nodes written) :
    ∀ (scope : Name) (included : Bool) (unopened unopened' : Table Fragment),
      MayEnter ctx.fragments nodes unopened →
      Rel (Forall₂ (Occurrence.Alike (Unfolds ctx.fragments)))
        (ctx.expand scope nodes included unopened)
        ((ctx.withFragments fragments).expand scope written included unopened') := by
  induction h with
  | nil =>
    intro scope included unopened unopened' _
    rw [expand, expand]
    exact .pure .nil
  | @field aliasName name arguments directives selections written rest others hs _ _ ihr =>
    intro scope included unopened unopened' hopen
    refine rel_expand_cons ?_ (ihr scope included unopened unopened' hopen.tail)
    rw [expand_field, expand_field]
    exact .pure (.cons (.mk ⟨hs, rfl⟩) .nil)
  | @inline condition directives selections written rest others _ _ ihs ihr =>
    intro scope included unopened unopened' hopen
    refine rel_expand_cons ?_ (ihr scope included unopened unopened' hopen.tail)
    rw [expand_inline, expand_inline, schema_withFragments, isIncluded_withFragments]
    split
    · exact ihs _ _ unopened unopened' hopen.of_inline
    · exact .fault .nil _
  | @spread name directives fragment written rest others hfind _ _ ihs ihr =>
    intro scope included unopened unopened' hopen
    refine rel_expand_cons ?_ (ihr scope included unopened unopened' hopen.tail)
    rw [expand_spread hfind, if_pos (hopen.contains hfind), expand_inline, schema_withFragments,
      isIncluded_withFragments, Option.getD_some]
    split
    · exact ihs _ _ (unopened.erase name) unopened' (hopen.of_spread hc hfind)
    · exact .fault .nil _
  | @unknown name directives rest others hnone _ ihr =>
    intro scope included unopened unopened' hopen
    refine rel_expand_cons ?_ (ihr scope included unopened unopened' hopen.tail)
    rw [expand_spread_none hnone,
      @expand_spread_none (ctx.withFragments fragments) _ _ _ _ (hunknown name hnone)]
    exact .fault .nil _

/-- **A site that is written out has the same fields with the same faults.** -/
theorem rel_occurrences_unfolded (hc : Acyclic ctx.fragments)
    (hunknown : ∀ name, ctx.fragments.find? name = none → fragments.find? name = none)
    (scope : Name) {site written : Site} (h : site.Alike (Unfolds ctx.fragments) written) :
    Rel (Forall₂ (Occurrence.Alike (Unfolds ctx.fragments))) (ctx.occurrences scope site)
      ((ctx.withFragments fragments).occurrences scope written) := by
  unfold occurrences
  rw [h.included]
  exact rel_expand_unfolded hc hunknown h.selections scope _ ctx.fragments _ (mayEnter_all _)

end QueryContext

end StructQL
