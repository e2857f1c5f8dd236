import StructQL.Proofs.Expansion.Alike
import StructQL.Proofs.Expansion.FragmentCycle
import StructQL.Proofs.Fault.Among

/-!
# Selections in another order

The selections of a document may be reordered at any depth, and each may be repeated next to itself.
What stands on one side then stands on the other side too, and this is all that expansion sees.

* `Query.Rearranged`: the selections in another order, with repetitions.
* `Query.Appears`: each selection of one list stands in another list.
* `Rearranged.appears`: rearranged selections stand in each other.
* `atMost_occurrences`: **what stands in a site is expanded to occurrences and faults among those of
  the site.**
-/

namespace StructQL

namespace Query

variable {nodes other more rest selections : List Node} {aliasName : Option Name} {name : Name}
  {arguments : List Argument} {directives : List Directive} {condition : Option Name}

/-- **The selections in another order**, at any depth, with repetitions of any of them next to
itself. -/
inductive Rearranged : List Node → List Node → Prop where
  | perm {nodes other : List Node} : nodes.Perm other → Rearranged nodes other
  | again {node : Node} {rest : List Node} : Rearranged (node :: rest) (node :: node :: rest)
  | field {aliasName : Option Name} {name : Name} {arguments : List Argument}
    {directives : List Directive} {selections other rest : List Node} :
    Rearranged selections other →
    Rearranged (.field aliasName name arguments directives selections :: rest)
      (.field aliasName name arguments directives other :: rest)
  | inline {condition : Option Name} {directives : List Directive}
    {selections other rest : List Node} : Rearranged selections other →
    Rearranged (.inline condition directives selections :: rest)
      (.inline condition directives other :: rest)
  | trans {nodes other more : List Node} : Rearranged nodes other → Rearranged other more →
    Rearranged nodes more

/-- **The document with its selections in another order**, in operations and in fragments. -/
def Document.Rearranged (d other : Document) : Prop := d.Alike Query.Rearranged other

/-! ## Standing in other selections -/

/-- **Each selection of the first list stands in the second one**, but for what is below it, where
each side stands in the other one. -/
inductive Appears : List Node → List Node → Prop where
  | nil {other : List Node} : Appears [] other
  | field {aliasName : Option Name} {name : Name} {arguments : List Argument}
    {directives : List Directive} {selections below rest other : List Node} :
    .field aliasName name arguments directives below ∈ other →
    Appears selections below → Appears below selections → Appears rest other →
    Appears (.field aliasName name arguments directives selections :: rest) other
  | inline {condition : Option Name} {directives : List Directive}
    {selections below rest other : List Node} :
    .inline condition directives below ∈ other →
    Appears selections below → Appears below selections → Appears rest other →
    Appears (.inline condition directives selections :: rest) other
  | spread {name : Name} {directives : List Directive} {rest other : List Node} :
    .spread name directives ∈ other → Appears rest other →
    Appears (.spread name directives :: rest) other

/-- **The same selections stand in both lists.** -/
def Mutual (nodes other : List Node) : Prop := Appears nodes other ∧ Appears other nodes

theorem Mutual.symm (h : Mutual nodes other) : Mutual other nodes := ⟨h.2, h.1⟩

theorem Appears.mono (h : Appears nodes other) (hsub : other ⊆ more) : Appears nodes more := by
  induction h with
  | nil => exact .nil
  | field hmem hs hs' _ _ _ ih => exact .field (hsub hmem) hs hs' (ih hsub)
  | inline hmem hs hs' _ _ _ ih => exact .inline (hsub hmem) hs hs' (ih hsub)
  | spread hmem _ ih => exact .spread (hsub hmem) (ih hsub)

theorem Appears.refl (nodes : List Node) : Appears nodes nodes := by
  match nodes with
  | [] => exact .nil
  | .field _ _ _ _ selections :: rest =>
    exact .field List.mem_cons_self (.refl selections) (.refl selections)
      ((Appears.refl rest).mono (List.subset_cons_self _ _))
  | .inline _ _ selections :: rest =>
    exact .inline List.mem_cons_self (.refl selections) (.refl selections)
      ((Appears.refl rest).mono (List.subset_cons_self _ _))
  | .spread _ _ :: rest =>
    exact .spread List.mem_cons_self ((Appears.refl rest).mono (List.subset_cons_self _ _))

theorem Appears.of_subset (h : nodes ⊆ other) : Appears nodes other := (Appears.refl nodes).mono h

theorem Appears.exists_field (h : Appears nodes other)
    (hmem : .field aliasName name arguments directives selections ∈ nodes) :
    ∃ below, .field aliasName name arguments directives below ∈ other ∧ Mutual selections below := by
  induction h with
  | nil => cases hmem
  | field hother hs hs' _ _ _ ih =>
    rcases List.mem_cons.1 hmem with he | hmem
    · cases he
      exact ⟨_, hother, hs, hs'⟩
    · exact ih hmem
  | inline _ _ _ _ _ _ ih => exact ih ((List.mem_cons.1 hmem).resolve_left nofun)
  | spread _ _ ih => exact ih ((List.mem_cons.1 hmem).resolve_left nofun)

theorem Appears.exists_inline (h : Appears nodes other)
    (hmem : .inline condition directives selections ∈ nodes) :
    ∃ below, .inline condition directives below ∈ other ∧ Mutual selections below := by
  induction h with
  | nil => cases hmem
  | inline hother hs hs' _ _ _ ih =>
    rcases List.mem_cons.1 hmem with he | hmem
    · cases he
      exact ⟨_, hother, hs, hs'⟩
    · exact ih hmem
  | field _ _ _ _ _ _ ih => exact ih ((List.mem_cons.1 hmem).resolve_left nofun)
  | spread _ _ ih => exact ih ((List.mem_cons.1 hmem).resolve_left nofun)

theorem Appears.mem_spread (h : Appears nodes other) (hmem : .spread name directives ∈ nodes) :
    .spread name directives ∈ other := by
  induction h with
  | nil => cases hmem
  | spread hother _ ih =>
    rcases List.mem_cons.1 hmem with he | hmem
    · cases he
      exact hother
    · exact ih hmem
  | field _ _ _ _ _ _ ih => exact ih ((List.mem_cons.1 hmem).resolve_left nofun)
  | inline _ _ _ _ _ _ ih => exact ih ((List.mem_cons.1 hmem).resolve_left nofun)

theorem sizeOf_lt_of_field_mem (h : .field aliasName name arguments directives selections ∈ nodes) :
    sizeOf selections < sizeOf nodes := by
  have := List.sizeOf_lt_of_mem h
  simp only [Node.field.sizeOf_spec] at this
  omega

theorem sizeOf_lt_of_inline_mem (h : .inline condition directives selections ∈ nodes) :
    sizeOf selections < sizeOf nodes := by
  have := List.sizeOf_lt_of_mem h
  simp only [Node.inline.sizeOf_spec] at this
  omega

/-- What stands in selections stands where these stand. -/
theorem Appears.trans {nodes other more : List Node} (h : Appears nodes other)
    (h' : Appears other more) : Appears nodes more := by
  match h with
  | .nil => exact .nil
  | .field hmem hs hs' hrest =>
    have hless := sizeOf_lt_of_field_mem hmem
    obtain ⟨below, hmore, hb, hb'⟩ := h'.exists_field hmem
    exact .field hmore (hs.trans hb) (hb'.trans hs') (hrest.trans h')
  | .inline hmem hs hs' hrest =>
    have hless := sizeOf_lt_of_inline_mem hmem
    obtain ⟨below, hmore, hb, hb'⟩ := h'.exists_inline hmem
    exact .inline hmore (hs.trans hb) (hb'.trans hs') (hrest.trans h')
  | .spread hmem hrest => exact .spread (h'.mem_spread hmem) (hrest.trans h')
-- below a selection the list in the middle is smaller
termination_by (sizeOf other, sizeOf nodes)

/-- **Rearranged selections stand in each other.** -/
theorem Rearranged.mutual (h : Rearranged nodes other) : Mutual nodes other := by
  induction h with
  | perm h => exact ⟨.of_subset h.subset, .of_subset h.symm.subset⟩
  | again => exact ⟨.of_subset (by simp), .of_subset (by simp)⟩
  | field _ ih =>
    exact ⟨.field List.mem_cons_self ih.1 ih.2 (.of_subset (List.subset_cons_self _ _)),
      .field List.mem_cons_self ih.2 ih.1 (.of_subset (List.subset_cons_self _ _))⟩
  | inline _ ih =>
    exact ⟨.inline List.mem_cons_self ih.1 ih.2 (.of_subset (List.subset_cons_self _ _)),
      .inline List.mem_cons_self ih.2 ih.1 (.of_subset (List.subset_cons_self _ _))⟩
  | trans _ _ ih ih' => exact ⟨ih.1.trans ih'.1, ih'.2.trans ih.2⟩

theorem keepsBare_mutual : KeepsBare Mutual := by
  rintro nodes other ⟨h, h'⟩
  constructor
  · rintro rfl
    cases h' <;> first | rfl | contradiction
  · rintro rfl
    cases h <;> first | rfl | contradiction

/-- What stands in selections is spread by them. -/
theorem Spreads.of_appears {nested : Bool} (hs : Spreads nested nodes name) :
    ∀ {other}, Appears nodes other → Spreads nested other name := by
  induction hs with
  | spread hmem =>
    intro other h
    exact .spread (h.mem_spread hmem)
  | inline hmem _ ih =>
    intro other h
    obtain ⟨below, hother, hb, -⟩ := h.exists_inline hmem
    exact .inline hother (ih hb)
  | field hmem _ ih =>
    intro other h
    obtain ⟨below, hother, hb, -⟩ := h.exists_field hmem
    exact .field hother (ih hb)

theorem Fragment.Alike.imp {R R' : List Node → List Node → Prop} {fragment other : Fragment}
    (h : fragment.Alike R other) (himp : ∀ nodes more, R nodes more → R' nodes more) :
    fragment.Alike R' other := by
  obtain ⟨hs⟩ := h
  exact .mk (himp _ _ hs)

theorem Fragment.Alike.symm {fragment other : Fragment} (h : fragment.Alike Mutual other) :
    other.Alike Mutual fragment := by
  obtain ⟨hs⟩ := h
  exact .mk hs.symm

end Query

/-! ## Tables of fragments -/

open Query

/-- **Two tables of fragments have the same selections**, which stand in each other. -/
def SameFragments (fragments others : Table Fragment) : Prop :=
  Table.Related (Fragment.Alike Mutual) fragments others

variable {fragments others : Table Fragment}

theorem SameFragments.symm (h : SameFragments fragments others) : SameFragments others fragments := by
  refine ⟨h.items.flip.imp fun _ _ hf => hf.symm, fun _ _ hf => hf.name⟩

theorem Query.Document.Rearranged.fragmentTable {d other : Document} (h : d.Rearranged other) :
    SameFragments d.fragmentTable other.fragmentTable := by
  have htable := Document.Alike.fragmentTable h
  exact ⟨htable.items.imp fun _ _ hf => hf.imp fun _ _ hs => hs.mutual, fun _ _ hf => hf.name⟩

theorem SameFragments.refersTo (h : SameFragments fragments others) {name other : Name}
    (hrefers : RefersTo fragments name other) : RefersTo others name other := by
  obtain ⟨nested, fragment, hfind, hs⟩ := hrefers
  obtain ⟨found, hfound, ⟨hboth⟩⟩ := h.exists_find?_right hfind
  exact ⟨nested, _, hfound, hs.of_appears hboth.1⟩

/-- Fragments in another order lead to each other as before. -/
theorem SameFragments.acyclic (h : SameFragments fragments others) (hc : Acyclic fragments) :
    Acyclic others := fun name hcycle =>
  hc name (Relation.TransGen.mono (fun _ _ hrefers => h.symm.refersTo hrefers) _ _ hcycle)

/-! ## Expansion -/

namespace QueryContext

open Checked

variable {ctx : QueryContext} {scope : Name} {included : Bool} {unopened unopened' : Table Fragment}
  {nodes more : List Node}

/-- Expansion finds at most what it finds of other selections, if it does so selection by
selection. -/
theorem atMost_expand_of_nodes
    (h : ∀ node ∈ nodes, ∃ other ∈ more, AtMost (Among (Occurrence.Alike Mutual))
      (ctx.expand scope [node] included unopened)
      ((ctx.withFragments others).expand scope [other] included unopened')) :
    AtMost (Among (Occurrence.Alike Mutual)) (ctx.expand scope nodes included unopened)
      ((ctx.withFragments others).expand scope more included unopened') := by
  constructor
  · intro o ho
    obtain ⟨node, hnode, ho⟩ := mem_expand.1 ho
    obtain ⟨other, hother, hless⟩ := h node hnode
    obtain ⟨found, hfound, hlike⟩ := hless.value o ho
    exact ⟨found, mem_expand.2 ⟨other, hother, hfound⟩, hlike⟩
  · intro f hf
    obtain ⟨node, hnode, hf⟩ := mem_faults_expand.1 hf
    obtain ⟨other, hother, hless⟩ := h node hnode
    exact mem_faults_expand.2 ⟨other, hother, hless.faults hf⟩

/-- **What stands in selections is expanded to occurrences and faults among theirs.** -/
theorem atMost_expand (hf : SameFragments ctx.fragments others) (scope : Name)
    (nodes more : List Node) (included : Bool) (unopened unopened' : Table Fragment)
    (hopen : SameFragments unopened unopened') (h : Appears nodes more) :
    AtMost (Among (Occurrence.Alike Mutual)) (ctx.expand scope nodes included unopened)
      ((ctx.withFragments others).expand scope more included unopened') := by
  refine atMost_expand_of_nodes fun node hnode => ?_
  match node with
  | .field aliasName name arguments directives selections =>
    obtain ⟨below, hbelow, hs⟩ := h.exists_field hnode
    refine ⟨_, hbelow, ?_⟩
    rw [expand_field, expand_field]
    exact .pure (among_singleton (.mk ⟨hs, rfl⟩))
  | .inline condition directives selections =>
    obtain ⟨below, hbelow, hs⟩ := h.exists_inline hnode
    refine ⟨_, hbelow, ?_⟩
    rw [expand_inline, expand_inline, schema_withFragments, isIncluded_withFragments]
    split
    · exact atMost_expand hf _ _ _ _ _ _ hopen hs.1
    · exact .fault among_nil _
  | .spread name directives =>
    refine ⟨_, h.mem_spread hnode, ?_⟩
    cases hfind : ctx.fragments.find? name with
    | none =>
      rw [expand_spread_none hfind, @expand_spread_none (ctx.withFragments others) _ _ _ _
        (hf.find?_eq_none_iff.1 hfind)]
      exact .fault among_nil _
    | some fragment =>
      obtain ⟨_, hother, ⟨hs⟩⟩ := hf.exists_find?_right hfind
      rw [expand_spread hfind, @expand_spread (ctx.withFragments others) _ _ _ _ _ hother,
        schema_withFragments, isIncluded_withFragments, hopen.contains]
      split
      · split
        · exact atMost_expand hf _ _ _ _ _ _ (hopen.erase name) hs.1
        · exact .fault among_nil _
      · exact .pure among_nil
termination_by (unopened.size, sizeOf nodes)
decreasing_by
  · exact .right _ (sizeOf_lt_of_inline_mem hnode)
  · exact .left _ _ (Table.size_erase_lt (by rw [hopen.contains]; assumption))

/-- **The occurrences and the faults of a site are among those of a site with the same
selections.** -/
theorem atMost_occurrences (hf : SameFragments ctx.fragments others) (scope : Name)
    {site other : Site} (h : site.Alike Mutual other) :
    AtMost (Among (Occurrence.Alike Mutual)) (ctx.occurrences scope site)
      ((ctx.withFragments others).occurrences scope other) := by
  unfold occurrences
  rw [h.included]
  exact atMost_expand hf scope _ _ _ _ _ hf h.selections.1

end QueryContext

end StructQL
